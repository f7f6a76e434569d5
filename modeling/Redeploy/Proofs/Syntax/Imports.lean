import Redeploy.Proofs.Syntax.OneStatement

set_option autoImplicit false

/-! # Import statements as tokens

What the tokens of an import from a module are read as: a dotted name, `from` in front of it and
`import` behind, and names with commas between them, each of them a dotted name that may have an alias.
Where nothing but the end of a line follows, such tokens are a script of one import statement
(`ImportFrom.IsRead.readTokens`). -/

namespace Redeploy.Syntax

/-! ## Dotted names -/

/-- Names behind points. -/
inductive Attributes : List Token → Prop
  | nil : Attributes []
  | cons {o n : Token} {ts : List Token} (ho : (Terminal.symbol ["."]).accepts o = true)
    (hn : n.kind = .word) (h : Attributes ts) : Attributes (o :: n :: ts)

/-- A name, and perhaps names behind points. -/
inductive IsDotted : List Token → Prop
  | mk {n : Token} {ts : List Token} (hn : n.kind = .word) (h : Attributes ts) : IsDotted (n :: ts)

/-- The nodes of the words among some tokens. -/
def nameNodes (ts : List Token) : List Tree :=
  (ts.filter fun o => o.kind == .word).map fun o => .node .identifier none o.span []

/-- The node of a dotted name. -/
def dottedNode (ts : List Token) : Tree :=
  .node .dottedName none (spanOf ts) (nameNodes ts)

section

variable {ts us : List Token} {o n : Token}

theorem accepts_word_kind (hn : n.kind = .word) : (Terminal.kind .word).accepts n = true := by
  simp [Terminal.accepts, hn]

/-- A rule that refuses every word is not read where a name comes next. -/
theorem outcome_none_of_word {r : Rule Phrase} {x : Stage} {R : List Token} (hrest : x.rest = n :: R)
    (hn : n.kind = .word) (hr : ∀ text span, r.onset ⟨.word, text, span⟩ = .refused) :
    outcome r x = none := by
  obtain ⟨kind, text, span⟩ := n
  obtain rfl : kind = .word := hn
  exact outcome_none_of_onset hrest (hr text span)

theorem stands_anyName (hn : n.kind = .word) :
    Grammar.anyName.Stands [] [n] (.node .identifier none n.span []) :=
  Rule.stands_leaf (accepts_word_kind hn) .identifier

theorem Attributes.yields (h : Attributes ts) :
    (Rule.many (.seq (Grammar.symbol ".") Grammar.anyName)).Yields [.symbol ["."]] ts none
      (nameNodes ts) := by
  induction h with
  | nil =>
    exact Rule.yields_many_nil fun x hclear =>
      outcome_seq_none (outcome_token_none_of_clear hclear (List.mem_cons_self ..))
  | @cons o n ts ho hn _ ih =>
    have hone : (Rule.seq (Grammar.symbol ".") Grammar.anyName).Yields [] [o, n] none
        [.node .identifier none n.span []] :=
      (stands_anyName hn).yields.token_then ho
    have hnodes : nameNodes (o :: n :: ts) = .node .identifier none n.span [] :: nameNodes ts := by
      obtain ⟨span, rfl⟩ := Terminal.eq_of_accepts_symbol ho
      simp [nameNodes, hn]
    rw [hnodes]
    exact hone.many_cons (List.cons_ne_nil _ _) ih (by simp [Clear]) fun _ => List.nil_subset _

theorem IsDotted.stands (h : IsDotted ts) :
    (Rule.ref .dottedName).Stands [.symbol ["."]] ts (dottedNode ts) := by
  cases h with
  | @mk n ts hn h =>
    have hseq := (stands_anyName hn).yields.seq h.yields (by simp [Clear]) fun _ => List.nil_subset _
    have hnodes : nameNodes (n :: ts) = .node .identifier none n.span [] :: nameNodes ts := by
      simp [nameNodes, hn]
    rw [dottedNode, hnodes]
    exact Rule.Stands.ref (p := .dottedName) (hseq.node (List.cons_ne_nil _ _) .dottedName)

theorem IsDotted.head (h : IsDotted ts) : ∃ n us, ts = n :: us ∧ n.kind = .word := by
  cases h with
  | mk hn => exact ⟨_, _, rfl, hn⟩

theorem Rule.Yields.notAhead_then {test : Terminal} {a : Rule Phrase} {F : List Terminal}
    {ts : List Token} {become : Option Kind} {cs : List Tree} (h : a.Yields F ts become cs)
    (hts : ts ≠ []) (hclear : Clear [test] ts) :
    (Rule.seq (.notAhead test) a).Yields F ts become cs := by
  intro x R hrest hR
  obtain ⟨o, ts, rfl⟩ := List.exists_cons_of_ne_nil hts
  have hlook : x.look test false = some x := by
    rw [Stage.look, hrest]
    simp [hclear o rfl test (List.mem_cons_self ..)]
  rw [outcome_seq, outcome_notAhead, hlook, Option.bind_some, h x R hrest hR]

end

/-! ## Names of an import -/

/-- One name of an import: its path, and the word `as` and the alias, if it has one. -/
structure ImportName where
  path : List Token
  newName : Option (Token × Token)

namespace ImportName

variable {i : ImportName}

def tokens (i : ImportName) : List Token :=
  i.path ++ (i.newName.map fun a => [a.1, a.2]).getD []

/-- The node of an imported name. -/
def node (i : ImportName) : Tree :=
  match i.newName with
  | none => (dottedNode i.path).withRole .name
  | some (_, o) => .node .aliasedImport (some .name) (spanOf i.tokens)
      [(dottedNode i.path).withRole .name, .node .identifier (some .asName) o.span []]

structure IsRead (i : ImportName) : Prop where
  path : IsDotted i.path
  newName : ∀ a ∈ i.newName, (Terminal.word ["as"]).accepts a.1 = true ∧ a.2.kind = .word

/-- The tests for what goes on with an imported name. -/
def goesOn : List Terminal := [.symbol ["."], .word ["as"]]

theorem IsRead.ne_nil (h : i.IsRead) : i.tokens ≠ [] :=
  List.append_ne_nil_of_left_ne_nil h.path.stands.ne_nil _

theorem IsRead.head (h : i.IsRead) : ∃ n us, i.tokens = n :: us ∧ n.kind = .word := by
  obtain ⟨n, us, hpath, hn⟩ := h.path.head
  exact ⟨n, _, by rw [tokens, hpath]; rfl, hn⟩

/-- The alias of an imported name. -/
def asClause : Rule Phrase :=
  .wrap .aliasedImport (some .name) (.seq (Grammar.word "as") (.role .asName Grammar.anyName))

theorem carries_asClause {as o : Token} (has : (Terminal.word ["as"]).accepts as = true)
    (ho : o.kind = .word) (t : Tree) : asClause.Carries [] [as, o] t
      (.node .aliasedImport none (t.span.upTo o.span)
        [t.withRole .name, .node .identifier (some .asName) o.span []]) :=
  (((stands_anyName ho).yields.role .asName).token_then has).wrap (List.cons_ne_nil _ _)
    .aliasedImport (some .name) t

/-- An imported name is read as its node. -/
theorem IsRead.yields (h : i.IsRead) :
    Grammar.importItem.Yields goesOn i.tokens none [i.node] := by
  obtain ⟨path, newName⟩ := i
  have hpath : IsDotted path := h.path
  cases newName with
  | none =>
    have hclause : (Grammar.optional asClause).Yields goesOn [] none [] :=
      Rule.yields_optional fun x hclear =>
        have hgoesOn : Terminal.word ["as"] ∈ goesOn := by simp [goesOn]
        outcome_wrap_none_of_clear hclear hgoesOn
    have hplain := (hpath.stands.seq_nothing (by simp [goesOn]) hclause).yields.role .name
    rwa [show (⟨path, none⟩ : ImportName).tokens = path from List.append_nil path]
  | some a =>
    obtain ⟨as, o⟩ := a
    obtain ⟨has, ho⟩ := h.newName _ rfl
    have hclear : Clear [.symbol ["."]] [as, o] := by
      refine clear_cons.2 fun test htest => ?_
      rw [Terminal.accepts_of_word has]
      obtain rfl := List.mem_singleton.1 htest
      rfl
    have hnew := (hpath.stands.seq_carries hclear
      ((carries_asClause has ho (dottedNode path)).alt_left (b := .empty))).yields.role .name
    have hspan : (dottedNode path).span.upTo o.span = spanOf (path ++ [as, o]) :=
      (spanOf_append hpath.stands.ne_nil (List.cons_ne_nil as [o])).symm
    rw [hspan] at hnew
    exact hnew.mono (List.nil_subset _)

end ImportName

/-- Imported names behind commas. -/
inductive MoreNames : List Token → List ImportName → Prop
  | nil : MoreNames [] []
  | cons {o : Token} {i : ImportName} {us : List Token} {is : List ImportName}
    (ho : (Terminal.symbol [","]).accepts o = true) (hi : i.IsRead) (h : MoreNames us is) :
    MoreNames (o :: (i.tokens ++ us)) (i :: is)

section

variable {us ms : List Token} {is : List ImportName} {i : ImportName} {o : Token}

theorem MoreNames.clear {F : List Terminal} (h : MoreNames us is)
    (hF : ∀ test ∈ F, test.accepts ⟨.symbol, [','], default⟩ = false) : Clear F us := by
  cases h with
  | nil => exact clear_nil
  | cons ho =>
    refine clear_cons.2 fun test htest => ?_
    rw [Terminal.accepts_of_symbol ho]
    exact hF test htest

/-- The tests for what goes on with the names of an import. -/
def importGoesOn : List Terminal := .symbol [","] :: ImportName.goesOn

theorem MoreNames.yields (h : MoreNames us is) :
    (Rule.many (.seq (Grammar.symbol ",") Grammar.importItem)).Yields importGoesOn us none
      (is.map ImportName.node) := by
  induction h with
  | nil =>
    exact Rule.yields_many_nil fun x hclear =>
      outcome_seq_none (outcome_token_none_of_clear hclear (List.mem_cons_self ..))
  | @cons o i us is ho hi hmore ih =>
    have hone : (Rule.seq (Grammar.symbol ",") Grammar.importItem).Yields ImportName.goesOn
        (o :: i.tokens) none [i.node] := hi.yields.token_then ho
    exact hone.many_cons (List.cons_ne_nil _ _) ih (hmore.clear (by decide)) fun _ =>
      List.subset_cons_self ..

/-- The names of an import, with commas between them. -/
theorem yields_importNames (hi : i.IsRead) (h : MoreNames us is) :
    Grammar.importNames.Yields importGoesOn (i.tokens ++ us) none ((i :: is).map ImportName.node) := by
  have hlist := hi.yields.seq h.yields (h.clear (by decide)) fun _ => List.subset_cons_self ..
  have hcomma : (Grammar.optional (Grammar.symbol ",")).Yields importGoesOn [] none [] :=
    Rule.yields_optional fun x hclear => outcome_token_none_of_clear hclear (List.mem_cons_self ..)
  have hall := hlist.seq hcomma clear_nil fun _ => List.Subset.refl _
  rw [List.append_nil, List.append_nil] at hall
  obtain ⟨n, ts, htokens, hn⟩ := hi.head
  refine (Rule.Yields.ref (p := .importList) hall).alt_right fun x R hrest _ => ?_
  rw [htokens] at hrest
  exact outcome_none_of_word hrest hn fun _ _ => rfl

end

/-! ## Import statements -/

/-- An import of names from a module, as it is written in tokens. -/
structure ImportFrom where
  from_ : Token
  module : List Token
  import_ : Token
  name : ImportName
  commas : List Token
  more : List ImportName

namespace ImportFrom

variable {s : ImportFrom}

def tokens (s : ImportFrom) : List Token :=
  s.from_ :: (s.module ++ s.import_ :: (s.name.tokens ++ s.commas))

/-- The node of the statement. -/
def node (s : ImportFrom) : Tree :=
  .node .importFromStatement none (spanOf s.tokens)
    ((dottedNode s.module).withRole .moduleName :: (s.name :: s.more).map ImportName.node)

structure IsRead (s : ImportFrom) : Prop where
  from_ : (Terminal.word ["from"]).accepts s.from_ = true
  module : IsDotted s.module
  present : Clear [.word ["__future__"]] s.module
  import_ : (Terminal.word ["import"]).accepts s.import_ = true
  name : s.name.IsRead
  more : MoreNames s.commas s.more

/-- The rule of an import from a module. -/
def rule : Rule Phrase :=
  .node .importFromStatement (Grammar.seqs [Grammar.word "from", .notAhead (.word ["__future__"]),
    .role .moduleName (.alt Grammar.relativeImport (.ref .dottedName)), Grammar.word "import",
    .alt (Grammar.leaf .wildcardImport (.symbol ["*"])) Grammar.importNames])

theorem IsRead.stands (h : s.IsRead) : rule.Stands importGoesOn s.tokens s.node := by
  have hnames : (Rule.alt (Grammar.leaf .wildcardImport (.symbol ["*"])) Grammar.importNames).Yields
      importGoesOn (s.name.tokens ++ s.commas) none ((s.name :: s.more).map ImportName.node) := by
    obtain ⟨n, ts, htokens, hn⟩ := h.name.head
    refine (yields_importNames h.name h.more).alt_right fun x R hrest _ => ?_
    rw [htokens] at hrest
    exact outcome_none_of_word hrest hn fun _ _ => rfl
  have hmodule : (Rule.role .moduleName (.alt Grammar.relativeImport (.ref .dottedName))).Yields
      [.symbol ["."]] s.module none [(dottedNode s.module).withRole .moduleName] := by
    obtain ⟨n, ts, htokens, hn⟩ := h.module.head
    refine (h.module.stands.alt_right fun x R hrest _ => ?_).yields.role .moduleName
    rw [htokens] at hrest
    exact outcome_none_of_word hrest hn fun _ _ => rfl
  have hclear : Clear [.symbol ["."]] (s.import_ :: (s.name.tokens ++ s.commas)) := by
    refine clear_cons.2 fun test htest => ?_
    rw [Terminal.accepts_of_word h.import_]
    obtain rfl := List.mem_singleton.1 htest
    rfl
  have htail := hmodule.seq (hnames.token_then h.import_) hclear fun hnil => by simp at hnil
  have hne : s.module ++ s.import_ :: (s.name.tokens ++ s.commas) ≠ [] := by simp
  have hpresent : Clear [.word ["__future__"]] (s.module ++ s.import_ :: (s.name.tokens ++ s.commas)) :=
    h.present.append fun hnil => absurd hnil h.module.stands.ne_nil
  exact ((htail.notAhead_then hne hpresent).token_then h.from_).node (List.cons_ne_nil _ _)
    .importFromStatement

theorem eq_of_accepts_word {w : String} {o : Token} (h : (Terminal.word [w]).accepts o = true) :
    ∃ span, o = ⟨.word, w.toList, span⟩ := by
  simp only [Terminal.accepts, Bool.and_eq_true, beq_iff_eq, List.any_cons, List.any_nil,
    Bool.or_false] at h
  obtain ⟨kind, text, span⟩ := o
  obtain ⟨rfl, rfl⟩ := h
  exact ⟨span, rfl⟩

/-- The tokens are no import of features of the language. -/
theorem IsRead.outcome_future_none (h : s.IsRead) {x : Stage} {R : List Token}
    (hrest : x.rest = s.tokens ++ R) :
    outcome (.node .futureImportStatement (Grammar.seqs [Grammar.word "from",
      Grammar.word "__future__", Grammar.word "import", Grammar.importNames])) x = none := by
  refine outcome_node_none ?_
  show outcome (.seq (.token _) (.seq (.token _) _)) _ = _
  have hmodule : Clear [.word ["__future__"]]
      (s.module ++ s.import_ :: (s.name.tokens ++ s.commas) ++ R) := by
    rw [List.append_assoc]
    exact h.present.append fun hnil => absurd hnil h.module.stands.ne_nil
  rw [outcome_seq, outcome_token (x := x.under _ []) hrest h.from_, Option.bind_some]
  exact outcome_seq_none (outcome_token_none_of_clear hmodule (List.mem_cons_self ..))

/-- The tokens are one simple statement. -/
theorem IsRead.simpleStatement (h : s.IsRead) {x : Stage} {R : List Token} (hrest : x.rest = s.tokens ++ R)
    (hR : Clear importGoesOn R) :
    outcome Grammar.simpleStatement x = some ((x.past s.tokens R).extend none [s.node]) := by
  refine outcome_alts (r := rule) (Grammar.importStatements.take 2) _ ?_ (h.stands.yields x R hrest hR)
  intro r hr
  simp only [Grammar.importStatements, List.take_succ_cons, List.take_zero, List.mem_cons,
    List.not_mem_nil, or_false] at hr
  rcases hr with rfl | rfl
  · exact h.outcome_future_none hrest
  · obtain ⟨span, hfrom⟩ := eq_of_accepts_word h.from_
    rw [tokens, hfrom] at hrest
    exact outcome_none_of_onset hrest rfl

/-- The tokens and the end of the line are all that there is of a script. -/
theorem IsRead.readTokens (h : s.IsRead) {mark : Token} (hmark : mark.kind = .newline) :
    readTokens (s.tokens ++ [mark]) = .ok [s.node] := by
  have hclear : Clear importGoesOn [mark] := by
    refine clear_cons.2 ?_
    simp [importGoesOn, ImportName.goesOn, Terminal.accepts, hmark]
  refine readTokens_of_simpleStatement hmark ?_ (h.simpleStatement rfl hclear)
  obtain ⟨span, hfrom⟩ := eq_of_accepts_word h.from_
  rw [tokens, hfrom]
  exact outcome_none_of_all_refused (x := .start _) rfl rfl

end ImportFrom

end Redeploy.Syntax
