import Redeploy.Proofs.Call.Replacement

set_option autoImplicit false

/-! # The blocks of a call

A call refers to two blocks: one that the code of its flow comes from, and one that the flow runs on. Both
are found in the same way, so they are told from one function (`remoteSource_eq`, `environment_eq`): a
block that is named by a slug is asked of the block store, and if it cannot be had the call fails
(`blockOf_eq_error_iff`); any other reference is taken as it is, with the document of the expression
if such expressions are to be looked at (`blockOf_eq_ok`). -/

namespace Redeploy

/-- A document names an image: under `image` it has a string that is not blank. -/
def Document.HasImage (d : Document) (image : String) : Prop :=
  Table.get? "image" d = some (.text image) ∧ ∃ c ∈ image.toList, isBlankChar c = false

theorem Document.image?_eq_some_iff {d : Document} {image : String} :
    d.image? = some image ↔ d.HasImage image := by
  have hblank : (∃ c ∈ image.toList, isBlankChar c = false) ↔ ¬ Text.isBlank image.toList = true := by
    simp [Text.isBlank]
  rw [HasImage, hblank]
  unfold image?
  constructor
  · intro h
    split at h
    · next image' hget =>
      split at h
      · simp at h
      · next hvisible =>
        obtain rfl := Option.some.inj h
        exact ⟨hget, hvisible⟩
    · simp at h
  · rintro ⟨hget, hvisible⟩
    simp only [hget, if_neg hvisible]

namespace CallSite

open Redeploy.Expr (IsLastValue)

/-- A call names a block by its slug: the last value of the keyword for the role is a string literal. -/
def NamesBlock (keywords : List (Keyword Expr)) (role : BlockRole) (slug : String) : Prop :=
  ∃ raw span, IsLastValue keywords role.keyword (.string slug raw span)

/-- Why a block cannot be had that a call names by its slug. -/
inductive Unavailable (ctx : CallContext) (span : Span) (role : BlockRole) (slug : String) :
    MigrateError → Prop where
  /-- The block store fails. -/
  | store {e : MigrateError} (h : ctx.resolver.load slug = .error e) :
    Unavailable ctx span role slug e
  /-- There is no such block. -/
  | unknown (h : ctx.resolver.load slug = .ok none) :
    Unavailable ctx span role slug (.unknownBlock slug role ctx.file span.startLine)

/-- A block that a call names by its slug cannot be had. -/
def LacksBlock (ctx : CallContext) (span : Span) (keywords : List (Keyword Expr)) (role : BlockRole)
    (e : MigrateError) : Prop :=
  ∃ slug, NamesBlock keywords role slug ∧ Unavailable ctx span role slug e

/-- A document is what is stored of the block that a call refers to, as far as that can be told. -/
inductive Describes (ctx : CallContext) (keywords : List (Keyword Expr)) (role : BlockRole) :
    Document → Prop where
  /-- The block is named by its slug. -/
  | stored {slug : String} {d : Document} (hnames : NamesBlock keywords role slug)
    (hload : ctx.resolver.load slug = .ok (some d)) : Describes ctx keywords role d
  /-- The block is given by any other expression but `None`, and such expressions are to be looked at. -/
  | bound {v : Expr} {d : Document} (hlast : IsLastValue keywords role.keyword v)
    (hnone : ∀ atomic span, v ≠ .verbatim "None" atomic span)
    (hliteral : ∀ value raw span, v ≠ .string value raw span)
    (hresolve : ctx.config.resolveBoundReferences = true)
    (hbound : ctx.resolver.resolveBound v ctx.scope = some d) : Describes ctx keywords role d

/-- The block that a call refers to, with what is stored of it. -/
def blockOf (ctx : CallContext) (span : Span) (keywords : List (Keyword Expr)) (role : BlockRole) :
    Except MigrateError (Option (BlockReference × Option Document)) :=
  match presentKeyword? role.keyword keywords with
  | none => .ok none
  | some v =>
    match (BlockReference.ofExpr v).slug? with
    | some slug => (loadBlock ctx span role slug).map fun d => some (.ofExpr v, some d)
    | none => .ok (some (.ofExpr v,
        if ctx.config.resolveBoundReferences then ctx.resolver.resolveBound v ctx.scope else none))

variable {ctx : CallContext} {span : Span} {keywords : List (Keyword Expr)} {role : BlockRole}
  {slug : String} {v : Expr} {e : MigrateError}

/-! ## References -/

theorem slug?_ofExpr_eq_some_iff :
    (BlockReference.ofExpr v).slug? = some slug ↔ ∃ raw span, v = .string slug raw span := by
  cases v <;> simp [BlockReference.ofExpr, BlockReference.slug?]

theorem slug?_ofExpr_eq_none_iff :
    (BlockReference.ofExpr v).slug? = none ↔ ∀ value raw span, v ≠ .string value raw span := by
  cases v <;> simp [BlockReference.ofExpr, BlockReference.slug?]

theorem namesBlock_iff : NamesBlock keywords role slug ↔
    ∃ v, presentKeyword? role.keyword keywords = some v ∧
      (BlockReference.ofExpr v).slug? = some slug := by
  simp only [presentKeyword?_eq_some_iff, slug?_ofExpr_eq_some_iff]
  constructor
  · rintro ⟨raw, span, hlast⟩
    exact ⟨_, ⟨hlast, by simp⟩, raw, span, rfl⟩
  · rintro ⟨-, ⟨hlast, -⟩, raw, span, rfl⟩
    exact ⟨raw, span, hlast⟩

theorem loadBlock_eq_ok_iff {d : Document} :
    loadBlock ctx span role slug = .ok d ↔ ctx.resolver.load slug = .ok (some d) := by
  unfold loadBlock
  split <;> simp_all

theorem loadBlock_eq_error_iff :
    loadBlock ctx span role slug = .error e ↔ Unavailable ctx span role slug e := by
  unfold loadBlock
  constructor
  · intro h
    split at h
    · next hload => exact Except.error.inj h ▸ .store hload
    · simp at h
    · next hload => exact Except.error.inj h ▸ .unknown hload
  · rintro (hload | hload) <;> simp only [hload]

/-! ## Finding a block -/

theorem blockOf_of_absent (h : presentKeyword? role.keyword keywords = none) :
    blockOf ctx span keywords role = .ok none := by
  simp only [blockOf, h]

theorem blockOf_of_named (hpresent : presentKeyword? role.keyword keywords = some v)
    (hslug : (BlockReference.ofExpr v).slug? = some slug) : blockOf ctx span keywords role =
      (loadBlock ctx span role slug).map fun d => some (.ofExpr v, some d) := by
  simp only [blockOf, hpresent, hslug]

theorem blockOf_of_bound (hpresent : presentKeyword? role.keyword keywords = some v)
    (hslug : (BlockReference.ofExpr v).slug? = none) : blockOf ctx span keywords role =
      .ok (some (.ofExpr v,
        if ctx.config.resolveBoundReferences then ctx.resolver.resolveBound v ctx.scope else none)) := by
  simp only [blockOf, hpresent, hslug]

theorem remoteSource_eq (ctx : CallContext) (span : Span) (keywords : List (Keyword Expr)) :
    remoteSource ctx span keywords =
      (blockOf ctx span keywords .remoteSource).map (Option.map Prod.fst) := by
  unfold remoteSource blockOf
  cases presentKeyword? BlockRole.remoteSource.keyword keywords with
  | none => rfl
  | some v =>
    simp only
    cases (BlockReference.ofExpr v).slug? with
    | none => rfl
    | some slug => cases hload : loadBlock ctx span .remoteSource slug <;> simp [hload, Except.map]

theorem environment_eq (ctx : CallContext) (span : Span) (keywords : List (Keyword Expr)) :
    CallSite.environment ctx span keywords = (blockOf ctx span keywords .executionEnvironment).map
      (Option.map fun found => ⟨found.1, found.2.bind Document.image?⟩) := by
  unfold CallSite.environment blockOf
  cases presentKeyword? BlockRole.executionEnvironment.keyword keywords with
  | none => rfl
  | some v =>
    simp only
    cases (BlockReference.ofExpr v).slug? with
    | none => cases ctx.config.resolveBoundReferences <;> rfl
    | some slug => cases hload : loadBlock ctx span .executionEnvironment slug <;> simp [hload, Except.map]

/-- A block is missed if it is named by a slug and cannot be had. -/
theorem blockOf_eq_error_iff :
    blockOf ctx span keywords role = .error e ↔ LacksBlock ctx span keywords role e := by
  simp only [LacksBlock, namesBlock_iff, ← loadBlock_eq_error_iff]
  cases hpresent : presentKeyword? role.keyword keywords with
  | none => simp [blockOf_of_absent hpresent]
  | some v =>
    cases hslug : (BlockReference.ofExpr v).slug? with
    | none => simp [blockOf_of_bound hpresent hslug, hslug]
    | some slug => simp [blockOf_of_named hpresent hslug, hslug, map_eq_error_iff]

theorem describes_iff {d : Document} : Describes ctx keywords role d ↔
    ∃ v, presentKeyword? role.keyword keywords = some v ∧
      ((∃ slug, (BlockReference.ofExpr v).slug? = some slug ∧ ctx.resolver.load slug = .ok (some d)) ∨
        (BlockReference.ofExpr v).slug? = none ∧ ctx.config.resolveBoundReferences = true ∧
          ctx.resolver.resolveBound v ctx.scope = some d) := by
  constructor
  · rintro (⟨hnames, hload⟩ | ⟨hlast, hnone, hliteral, hresolve, hbound⟩)
    · obtain ⟨v, hpresent, hslug⟩ := namesBlock_iff.1 hnames
      exact ⟨v, hpresent, .inl ⟨_, hslug, hload⟩⟩
    · exact ⟨_, presentKeyword?_eq_some_iff.2 ⟨hlast, hnone⟩,
        .inr ⟨slug?_ofExpr_eq_none_iff.2 hliteral, hresolve, hbound⟩⟩
  · rintro ⟨v, hpresent, ⟨slug, hslug, hload⟩ | ⟨hslug, hresolve, hbound⟩⟩
    · exact .stored (namesBlock_iff.2 ⟨v, hpresent, hslug⟩) hload
    · obtain ⟨hlast, hnone⟩ := presentKeyword?_eq_some_iff.1 hpresent
      exact .bound hlast hnone (slug?_ofExpr_eq_none_iff.1 hslug) hresolve hbound

/-- The block that is found is the one that the call names, with the document that is stored of it. -/
theorem blockOf_eq_ok {found : Option (BlockReference × Option Document)}
    (h : blockOf ctx span keywords role = .ok found) :
    found.map Prod.fst = (presentKeyword? role.keyword keywords).map BlockReference.ofExpr ∧
    ∀ d, found.bind Prod.snd = some d ↔ Describes ctx keywords role d := by
  simp only [describes_iff]
  cases hpresent : presentKeyword? role.keyword keywords with
  | none =>
    rw [blockOf_of_absent hpresent] at h
    obtain rfl := Except.ok.inj h
    simp
  | some v =>
    cases hslug : (BlockReference.ofExpr v).slug? with
    | none =>
      rw [blockOf_of_bound hpresent hslug] at h
      obtain rfl := Except.ok.inj h
      cases ctx.config.resolveBoundReferences <;> simp [hslug]
    | some slug =>
      rw [blockOf_of_named hpresent hslug] at h
      obtain ⟨d, hload, rfl⟩ := exists_of_map_eq_ok h
      simp [hslug, loadBlock_eq_ok_iff.1 hload]

/-! ## Both blocks -/

variable {source : Option BlockReference} {env : Option Environment}

theorem remoteSource_eq_error_iff :
    remoteSource ctx span keywords = .error e ↔ LacksBlock ctx span keywords .remoteSource e := by
  rw [remoteSource_eq, map_eq_error_iff, blockOf_eq_error_iff]

theorem environment_eq_error_iff : CallSite.environment ctx span keywords = .error e ↔
    LacksBlock ctx span keywords .executionEnvironment e := by
  rw [environment_eq, map_eq_error_iff, blockOf_eq_error_iff]

theorem reference_of_remoteSource (h : remoteSource ctx span keywords = .ok source) : source =
    (presentKeyword? BlockRole.remoteSource.keyword keywords).map BlockReference.ofExpr := by
  rw [remoteSource_eq] at h
  obtain ⟨found, hfound, rfl⟩ := exists_of_map_eq_ok h
  exact (blockOf_eq_ok hfound).1

theorem reference_of_environment (h : CallSite.environment ctx span keywords = .ok env) :
    env.map (·.reference) =
      (presentKeyword? BlockRole.executionEnvironment.keyword keywords).map BlockReference.ofExpr := by
  rw [environment_eq] at h
  obtain ⟨found, hfound, rfl⟩ := exists_of_map_eq_ok h
  rw [← (blockOf_eq_ok hfound).1, Option.map_map]
  rfl

/-- The image of what a flow runs on is that of the document that is stored of it. -/
theorem image_of_environment (h : CallSite.environment ctx span keywords = .ok env) (image : String) :
    env.bind (·.image) = some image ↔
      ∃ d, Describes ctx keywords .executionEnvironment d ∧ d.HasImage image := by
  rw [environment_eq] at h
  obtain ⟨found, hfound, rfl⟩ := exists_of_map_eq_ok h
  simp only [← (blockOf_eq_ok hfound).2, ← Document.image?_eq_some_iff]
  rw [← Option.bind_eq_some_iff]
  cases found <;> rfl

/-- A block is named by its slug if one of the two references has a slug. -/
theorem namesSlug_iff (hsource : remoteSource ctx span keywords = .ok source)
    (henv : CallSite.environment ctx span keywords = .ok env) :
    namesSlug source env = true ↔ ∃ role slug, NamesBlock keywords role slug := by
  have hreference : env.bind (·.reference.slug?) = (env.map (·.reference)).bind (·.slug?) := by
    cases env <;> rfl
  rw [namesSlug, hreference, reference_of_remoteSource hsource, reference_of_environment henv]
  simp only [Bool.or_eq_true, Option.isSome_iff_exists, Option.bind_eq_some_iff,
    Option.map_eq_some_iff, namesBlock_iff]
  constructor
  · rintro (⟨slug, -, ⟨v, hpresent, rfl⟩, hslug⟩ | ⟨slug, -, ⟨v, hpresent, rfl⟩, hslug⟩)
    · exact ⟨.remoteSource, slug, v, hpresent, hslug⟩
    · exact ⟨.executionEnvironment, slug, v, hpresent, hslug⟩
  · rintro ⟨role, slug, v, hpresent, hslug⟩
    cases role with
    | remoteSource => exact .inl ⟨slug, _, ⟨v, hpresent, rfl⟩, hslug⟩
    | executionEnvironment => exact .inr ⟨slug, _, ⟨v, hpresent, rfl⟩, hslug⟩

end CallSite

end Redeploy
