import Redeploy.Proofs.Call.Failures

set_option autoImplicit false

/-! # What a deployment is made of

The call that ends a replacement is one of the flow, or of what `from_source` gives for the flow if its code
is fetched from a block. The arguments of `from_source` are that block and the place of the flow in the
code. `receiver_of_classify` tells which expression that is, from the last values of `flow`, `storage`,
`entrypoint` and `path`; the rules are relations (`IsReceiver`, `IsSource`, `IsEntrypoint`, `Joined`), of
which each has exactly one outcome. -/

namespace Redeploy

/-! ## Joined paths -/

/-- The path that continues another one. -/
inductive Joined : String → String → String → Prop where
  /-- An absolute path does not look at what comes before it. -/
  | absolute {base path : String} (h : ∃ rest, path = "/" ++ rest) : Joined base path path
  /-- An empty path adds nothing. -/
  | unbased {path : String} : Joined "" path path
  /-- A path that ends in a slash is continued as it is. -/
  | attached {base path : String} (hrelative : ¬ ∃ rest, path = "/" ++ rest)
    (hslash : ∃ start, base = start ++ "/") : Joined base path (base ++ path)
  /-- Behind any other path comes a slash. -/
  | separated {base path : String} (hrelative : ¬ ∃ rest, path = "/" ++ rest) (hbase : base ≠ "")
    (hslash : ¬ ∃ start, base = start ++ "/") : Joined base path (base ++ "/" ++ path)

theorem head?_eq_some_slash_iff {path : String} :
    path.toList.head? = some '/' ↔ ∃ rest, path = "/" ++ rest := by
  rw [List.head?_eq_some_iff]
  constructor
  · rintro ⟨rest, h⟩
    exact ⟨String.ofList rest, String.toList_inj.1 (by simp [h])⟩
  · rintro ⟨rest, rfl⟩
    exact ⟨rest.toList, by simp⟩

theorem getLast?_eq_some_slash_iff {base : String} :
    base.toList.getLast? = some '/' ↔ ∃ start, base = start ++ "/" := by
  rw [List.getLast?_eq_some_iff]
  constructor
  · rintro ⟨start, h⟩
    exact ⟨String.ofList start, String.toList_inj.1 (by simp [h])⟩
  · rintro ⟨start, rfl⟩
    exact ⟨start.toList, by simp⟩

theorem joined_joinPath (base path : String) : Joined base path (joinPath base path) := by
  unfold joinPath
  split
  · next h =>
    rcases h with habsolute | hempty
    · exact .absolute (head?_eq_some_slash_iff.1 habsolute)
    · obtain rfl := String.toList_eq_nil_iff.1 hempty
      exact .unbased
  · next h =>
    rw [not_or, head?_eq_some_slash_iff, String.toList_eq_nil_iff] at h
    split
    · next hslash => exact .attached h.1 (getLast?_eq_some_slash_iff.1 hslash)
    · next hslash => exact .separated h.1 h.2 (mt getLast?_eq_some_slash_iff.2 hslash)

/-- Paths are joined in one way only. -/
theorem joinPath_eq_iff {base path joined : String} :
    joinPath base path = joined ↔ Joined base path joined := by
  constructor
  · rintro rfl
    exact joined_joinPath base path
  · intro h
    unfold joinPath
    cases h with
    | absolute habsolute => rw [if_pos (.inl (head?_eq_some_slash_iff.2 habsolute))]
    | unbased => rw [if_pos (.inr rfl)]
    | attached hrelative hslash =>
      have hlast := getLast?_eq_some_slash_iff.2 hslash
      have hbase : base.toList ≠ [] := by
        rintro hempty
        simp [hempty] at hlast
      rw [if_neg (not_or.2 ⟨mt head?_eq_some_slash_iff.1 hrelative, hbase⟩), if_pos hlast]
    | separated hrelative hbase hslash =>
      rw [if_neg (not_or.2 ⟨mt head?_eq_some_slash_iff.1 hrelative, mt String.toList_eq_nil_iff.1 hbase⟩),
        if_neg (mt getLast?_eq_some_slash_iff.1 hslash)]

example : joinPath "flows" "" = "flows/" := by decide

namespace CallSite

open Redeploy.Expr (IsLastValue)

/-! ## Arguments -/

/-- A call gives a value for a name: the last one it has for it, unless that is the text `None`. -/
def Gives (keywords : List (Keyword Expr)) (arg : String) (v : Expr) : Prop :=
  IsLastValue keywords arg v ∧ ∀ atomic span, v ≠ .verbatim "None" atomic span

/-- What a flow is called: its last name, or else all of it as it is written. -/
inductive IsLabel : Expr → String → Prop where
  /-- The name of a variable. -/
  | name (id : String) (span : Option Span) : IsLabel (.name id span) id
  /-- The name of an attribute. -/
  | member (value : Expr) (attr : String) (span : Option Span) : IsLabel (.member value attr span) attr
  /-- The text of any other expression. -/
  | written {e : Expr} (hname : ∀ id span, e ≠ .name id span)
    (hattr : ∀ value attr span, e ≠ .member value attr span) : IsLabel e e.render

/-- Where the flow is in the code that is fetched. -/
inductive IsEntrypoint (file : String) (subject : Expr) (keywords : List (Keyword Expr)) :
    Expr → Prop where
  /-- The path joined with the entrypoint, if both are string literals. -/
  | joined {base path joined : String} {baseRaw pathRaw : Option String} {baseSpan pathSpan : Option Span}
    (hbase : Gives keywords "path" (.string base baseRaw baseSpan))
    (hpath : Gives keywords "entrypoint" (.string path pathRaw pathSpan))
    (hjoined : Joined base path joined) : IsEntrypoint file subject keywords (.literal joined)
  /-- The entrypoint as it is written, if one of them is not, or if there is no path. -/
  | explicit {v : Expr} (hgives : Gives keywords "entrypoint" v)
    (hliterals : ¬ ((∃ base raw span, Gives keywords "path" (.string base raw span)) ∧
      ∃ path raw span, v = .string path raw span)) : IsEntrypoint file subject keywords v
  /-- The script and the name of the flow, if there is no entrypoint. -/
  | default {label : String} (hnone : ¬ ∃ v, Gives keywords "entrypoint" v)
    (hlabel : IsLabel subject label) : IsEntrypoint file subject keywords (.literal (file ++ ":" ++ label))

/-- The block that the code is fetched from, as migrated code has it. -/
inductive IsSource (helper : LoadHelper) : Expr → Expr → Prop where
  /-- A block that is named by its slug is loaded with the helper. -/
  | loaded (slug : String) (raw : Option String) (span : Option Span) :
    IsSource helper (.string slug raw span)
      (.call (.member (.name helper.name none) helper.method none) [.literal slug] [] span)
  /-- Any other block stays as it is written. -/
  | bound {v : Expr} (h : ∀ value raw span, v ≠ .string value raw span) : IsSource helper v v

/-- What the call that ends a replacement is a call of. -/
inductive IsReceiver (ctx : CallContext) (subject : Expr) (keywords : List (Keyword Expr)) :
    Expr → Prop where
  /-- The flow itself, if the call gives no storage. -/
  | flow (hnone : ¬ ∃ v, Gives keywords "storage" v) : IsReceiver ctx subject keywords subject
  /-- Its `from_source`, with the block and the entrypoint. -/
  | fetched {v source entrypoint : Expr} (hstorage : Gives keywords "storage" v)
    (hsource : IsSource ctx.config.loadHelper v source)
    (hentrypoint : IsEntrypoint ctx.file subject keywords entrypoint) :
    IsReceiver ctx subject keywords (.call (.member subject "from_source" none) []
      [⟨some "source", source⟩, ⟨some "entrypoint", entrypoint⟩] none)

variable {ctx : CallContext} {file label : String} {subject e v : Expr} {keywords : List (Keyword Expr)}
  {arg : String}

theorem gives_iff : Gives keywords arg v ↔ presentKeyword? arg keywords = some v :=
  presentKeyword?_eq_some_iff.symm

theorem not_gives_iff : (¬ ∃ v, Gives keywords arg v) ↔ presentKeyword? arg keywords = none := by
  simp only [gives_iff, ← Option.isSome_iff_exists, Option.not_isSome_iff_eq_none]

theorem asString?_eq_some_iff {value : String} :
    v.asString? = some value ↔ ∃ raw span, v = .string value raw span := by
  cases v <;> simp [Expr.asString?, eq_comm]

/-! ## The entrypoint -/

theorem label_eq_iff : CallSite.label subject = label ↔ IsLabel subject label := by
  constructor
  · rintro rfl
    cases subject with
    | name id span => exact .name id span
    | member value attr span => exact .member value attr span
    | call | string | verbatim => exact .written (by simp) (by simp)
  · intro h
    cases h with
    | name | member => rfl
    | written hname hattr =>
      cases subject with
      | name id span => exact absurd rfl (hname id span)
      | member value attr span => exact absurd rfl (hattr value attr span)
      | call | string | verbatim => rfl

theorem isEntrypoint_entrypoint (file : String) (subject : Expr) (keywords : List (Keyword Expr)) :
    IsEntrypoint file subject keywords (CallSite.entrypoint file subject keywords).value := by
  unfold CallSite.entrypoint
  split
  · next hnone => exact .default (not_gives_iff.2 hnone) (label_eq_iff.1 rfl)
  · next v hgives =>
    split
    · next base path hbase hpath =>
      obtain ⟨_, hpresent, hbase⟩ := Option.bind_eq_some_iff.1 hbase
      obtain ⟨baseRaw, baseSpan, rfl⟩ := asString?_eq_some_iff.1 hbase
      obtain ⟨pathRaw, pathSpan, rfl⟩ := asString?_eq_some_iff.1 hpath
      exact .joined (gives_iff.2 hpresent) (gives_iff.2 hgives) (joined_joinPath base path)
    · next hliterals =>
      refine .explicit (gives_iff.2 hgives) ?_
      rintro ⟨⟨base, raw, span, hbase⟩, path, raw', span', rfl⟩
      exact hliterals base path (by rw [gives_iff.1 hbase]; rfl) rfl

/-- A flow has one entrypoint only. -/
theorem entrypoint_value_eq_iff :
    (CallSite.entrypoint file subject keywords).value = e ↔ IsEntrypoint file subject keywords e := by
  constructor
  · rintro rfl
    exact isEntrypoint_entrypoint file subject keywords
  · intro h
    unfold CallSite.entrypoint
    cases h with
    | joined hbase hpath hjoined =>
      rw [gives_iff.1 hpath, gives_iff.1 hbase]
      simp only [Option.bind_some, Expr.asString?, joinPath_eq_iff.2 hjoined]
    | explicit hgives hliterals =>
      rw [gives_iff.1 hgives]
      simp only
      split
      · next base path hbase hpath =>
        obtain ⟨_, hpresent, hbase⟩ := Option.bind_eq_some_iff.1 hbase
        obtain ⟨raw, span, rfl⟩ := asString?_eq_some_iff.1 hbase
        exact absurd ⟨⟨base, raw, span, gives_iff.2 hpresent⟩, path, asString?_eq_some_iff.1 hpath⟩ hliterals
      · rfl
    | default hnone hlabel => rw [not_gives_iff.1 hnone, label_eq_iff.2 hlabel]

/-! ## The receiver -/

theorem toExpr_ofExpr_eq_iff {helper : LoadHelper} :
    (BlockReference.ofExpr v).toExpr helper = e ↔ IsSource helper v e := by
  constructor
  · rintro rfl
    cases v with
    | string slug raw span => exact .loaded slug raw span
    | name | member | call | verbatim => exact .bound (by simp)
  · intro h
    cases h with
    | loaded => rfl
    | bound hbound =>
      cases e with
      | string slug raw span => exact absurd rfl (hbound slug raw span)
      | name | member | call | verbatim => rfl

/-- A replacement has one receiver only, by what the call gives. -/
theorem receiver_eq_iff {span : Span} {source : Option BlockReference}
    (hsource : remoteSource ctx span keywords = .ok source) :
    receiver ctx.config.loadHelper subject source (entrypoint ctx.file subject keywords) = e ↔
      IsReceiver ctx subject keywords e := by
  rw [reference_of_remoteSource hsource]
  show receiver _ _ ((presentKeyword? "storage" keywords).map _) _ = e ↔ _
  constructor
  · rintro rfl
    cases hstorage : presentKeyword? "storage" keywords with
    | none => exact .flow (not_gives_iff.2 hstorage)
    | some v =>
      exact .fetched (gives_iff.2 hstorage) (toExpr_ofExpr_eq_iff.1 rfl) (entrypoint_value_eq_iff.1 rfl)
  · intro h
    cases h with
    | flow hnone => rw [not_gives_iff.1 hnone, Option.map_none, receiver]
    | fetched hstorage hsource hentrypoint =>
      rw [gives_iff.1 hstorage, Option.map_some, receiver, toExpr_ofExpr_eq_iff.2 hsource,
        entrypoint_value_eq_iff.2 hentrypoint, Expr.methodCall]

/-- A call that is classified is replaced by `serve` or `deploy` of its flow, or of the `from_source` of its
    flow where it gives storage. -/
theorem receiver_of_classify {site : CallSite} {ctx : CallContext} {c : ClassifiedCall}
    (h : site.classify ctx = .ok c) :
    ∃ func args keywords span subject receiver method arguments,
      site.call = .call func args keywords span ∧ IsSubject args keywords subject ∧
      c.replacement = .call (.member receiver method none) [] arguments (some site.span) ∧
      (method = "serve" ∨ method = "deploy") ∧
      ∀ e, receiver = e ↔ IsReceiver ctx subject keywords e := by
  obtain ⟨func, args, keywords, span, subject, source, env, hcall, hsubject, hsource, -, rfl⟩ :=
    classify_eq_ok_iff.1 h
  cases env with
  | none =>
    exact ⟨func, args, keywords, span, subject, _, "serve", _, hcall, subject?_eq_some_iff.1 hsubject, rfl,
      .inl rfl, fun e => receiver_eq_iff hsource⟩
  | some env =>
    exact ⟨func, args, keywords, span, subject, _, "deploy", _, hcall, subject?_eq_some_iff.1 hsubject, rfl,
      .inr rfl, fun e => receiver_eq_iff hsource⟩

/-- A script that is deployed from a block that is stored. -/
def storedContext : CallContext :=
  ⟨"flow.py", .empty, (Catalog.empty.insert "s3/flows" []).resolver, .standard⟩

/-- Keyword arguments that name the block and the place of the flow in it; the first entrypoint does not
    count. -/
def storedKeywords : List (Keyword Expr) :=
  [⟨some "entrypoint", .name "entry" none⟩, ⟨some "path", .literal "src"⟩,
    ⟨some "entrypoint", .literal "a.py:f"⟩, ⟨some "storage", .literal "s3/flows"⟩]

/-- A call with these keyword arguments. -/
def storedCall : CallSite := ⟨.call (.name "g" none) [.name "f" none] storedKeywords none, .zero⟩

/-- The block is loaded with the helper, and the entrypoint is joined with the path. -/
theorem receiver_of_storedCall : ∃ c method arguments, storedCall.classify storedContext = .ok c ∧
    c.replacementText =
      "f.from_source(source=Block.load(\"s3/flows\"), entrypoint=\"src/a.py:f\").serve()" ∧
    c.replacement = .call (.member (.call (.member (.name "f" none) "from_source" none) []
        [⟨some "source", .call (.member (.name "Block" none) "load" none) [.literal "s3/flows"] [] none⟩,
          ⟨some "entrypoint", .literal "src/a.py:f"⟩] none) method none) [] arguments (some .zero) := by
  have hrun : (storedCall.classify storedContext).map ClassifiedCall.replacementText = .ok
      "f.from_source(source=Block.load(\"s3/flows\"), entrypoint=\"src/a.py:f\").serve()" := by
    decide +kernel
  obtain ⟨c, hclassify, htext⟩ := exists_of_map_eq_ok hrun
  obtain ⟨func, args, keywords, span, subject, receiver, method, arguments, hcall, hsubject, hreplacement,
    -, hreceiver⟩ := receiver_of_classify hclassify
  obtain ⟨-, rfl, rfl, -⟩ := Expr.call.inj hcall
  obtain rfl : Expr.name "f" none = subject := Option.some.inj (subject?_eq_some_iff.2 hsubject)
  have hjoined : Joined "src" "a.py:f" "src/a.py:f" := joinPath_eq_iff.1 (by decide)
  obtain rfl := (hreceiver _).2 (.fetched (gives_iff.2 rfl) (.loaded "s3/flows" none none)
    (.joined (gives_iff.2 rfl) (gives_iff.2 rfl) hjoined))
  exact ⟨c, method, arguments, hclassify, htext, hreplacement⟩

end CallSite

end Redeploy
