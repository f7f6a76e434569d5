import Redeploy.Binding.Import
import Redeploy.Proofs.Script.Spelling
import Redeploy.Proofs.Syntax.Imports
import Redeploy.Proofs.Syntax.Lines
import Redeploy.Proofs.Text.Pieces
import Redeploy.Script.Names

set_option autoImplicit false

/-! # Import statements as texts

The text of an import from a module, put together from the lexemes of its names, is a script of this one
statement, and the imports of the statement are those that the names spell (`parse_importFrom`). -/

namespace Redeploy.Script

open Syntax

/-! ## Names as lexemes -/

/-- Lexemes of one line that are a dotted name wherever they stand. -/
structure IsPath (ls : List Lexeme) : Prop where
  run : IsRun ls
  line : ∀ l ∈ ls, l.kind ≠ .lineBreak
  dotted : ∀ q, IsDotted (tokensFrom q ls)

/-- One name of an import as it is written: its lexemes, its path, and its alias. -/
structure NameText where
  lexemes : List Lexeme
  path : String
  newName : Option String

/-- The lexemes are of one line, and import that wherever they stand. -/
structure NameText.IsSpelled (n : NameText) : Prop where
  run : IsRun n.lexemes
  line : ∀ l ∈ n.lexemes, l.kind ≠ .lineBreak
  reads : ∀ before, ∃ i : ImportName, i.IsRead ∧ i.tokens = tokensFrom (pointAt before) n.lexemes ∧
    ∀ after, pathAndAlias? (before ++ n.lexemes.flatMap Lexeme.text ++ after) i.node =
      some (n.path, n.newName)

section

variable {ls : List Lexeme} {n : NameText} {ns : List NameText}

theorem IsPath.span (h : IsPath ls) (before : Text) :
    spanOf (tokensFrom (pointAt before) ls) =
      (pointAt before).span (pointAt (before ++ ls.flatMap Lexeme.text)) := by
  rw [h.run.spanOf_tokensFrom, afterText_pointAt]

theorem IsPath.name {w : Text} (hw : IsIdentifier w) : IsPath [⟨.token .word, w⟩] where
  run := .word hw
  line := by simp
  dotted _ := .mk rfl .nil

theorem IsDotted.append {ts us : List Token} {o : Token} (h : IsDotted ts)
    (ho : (Terminal.symbol ["."]).accepts o = true) (h' : IsDotted us) : IsDotted (ts ++ o :: us) := by
  obtain @⟨n, us, hn, hus⟩ := h'
  have happend : ∀ ts, Attributes ts → Attributes (ts ++ o :: n :: us) := by
    intro ts hts
    induction hts with
    | nil => exact .cons ho hn hus
    | cons ho' hn' _ ih => exact .cons ho' hn' ih
  obtain ⟨hn', hts⟩ := h
  exact .mk hn' (happend _ hts)

/-- A path goes on behind a point. -/
theorem IsPath.join {ms : List Lexeme} (h : IsPath ls) (h' : IsPath ms) :
    IsPath (ls ++ ([⟨.token .symbol, ['.']⟩] ++ ms)) where
  run := h.run.join .point h'.run
  line := List.forall_mem_append.2 ⟨h.line, List.forall_mem_append.2 ⟨by simp, h'.line⟩⟩
  dotted q := by
    rw [tokensFrom_append]
    exact IsDotted.append (h.dotted q) rfl (h'.dotted _)

theorem IsPath.pathAndAlias? (h : IsPath ls) (before after : Text) :
    Script.pathAndAlias? (before ++ ls.flatMap Lexeme.text ++ after)
      (ImportName.node ⟨tokensFrom (pointAt before) ls, none⟩) =
        some (String.ofList (ls.flatMap Lexeme.text), none) := by
  have htext : ((dottedNode (tokensFrom (pointAt before) ls)).withRole .name).text
      (before ++ ls.flatMap Lexeme.text ++ after) = String.ofList (ls.flatMap Lexeme.text) :=
    text_of_span (h.span before)
  exact congrArg (fun path => some (path, none)) htext

/-- A dotted name is imported under its own name. -/
theorem IsPath.isSpelled (h : IsPath ls) :
    NameText.IsSpelled ⟨ls, String.ofList (ls.flatMap Lexeme.text), none⟩ where
  run := h.run
  line := h.line
  reads before :=
    ⟨⟨tokensFrom (pointAt before) ls, none⟩, ⟨h.dotted _, by simp⟩, List.append_nil _,
      h.pathAndAlias? before⟩

/-- Identifiers with points between them are a path. -/
theorem exists_isPath (t : Text) (h : ∀ w ∈ Text.splitOn '.' t, IsIdentifier w) : ∃ ls, IsPath ls ∧
    ls.flatMap Lexeme.text = t ∧ ls.head?.map Lexeme.text = (Text.splitOn '.' t).head? := by
  induction hlength : t.length using Nat.strongRecOn generalizing t with
  | ind n ih =>
    by_cases hpoint : '.' ∈ t
    · obtain ⟨a, b, rfl, ha⟩ := List.eq_append_cons_of_mem hpoint
      have hsplit : Text.splitOn '.' (a ++ '.' :: b) = a :: Text.splitOn '.' b := by
        rw [Text.splitOn_append_cons, Text.splitOn_of_not_mem ha]
        rfl
      obtain ⟨hfirst, hrest⟩ := List.forall_mem_cons.1 (hsplit ▸ h)
      obtain ⟨ls, hpath, htext, -⟩ := ih b.length (by simp at hlength; omega) b hrest rfl
      exact ⟨_, (IsPath.name hfirst).join hpath, by simp [htext], by rw [hsplit]; rfl⟩
    · rw [Text.splitOn_of_not_mem hpoint] at h ⊢
      exact ⟨_, .name (h t (List.mem_singleton_self t)), by simp, rfl⟩

/-! ## Names with commas between them -/

/-- What stands between two imported names. -/
def comma : List Lexeme := [⟨.token .symbol, [',']⟩, ⟨.blank, [' ']⟩]

/-- The lexemes of names with a comma in front of each. -/
def behindComma (ns : List NameText) : List Lexeme := ns.flatMap fun n => comma ++ n.lexemes

theorem behindComma_cons (n : NameText) (ns : List NameText) :
    behindComma (n :: ns) = comma ++ (n.lexemes ++ behindComma ns) := by
  simp [behindComma]

theorem isRun_behindComma (h : ∀ n ∈ ns, n.IsSpelled) (hls : IsRun ls) :
    IsRun (ls ++ behindComma ns) := by
  induction ns generalizing ls with
  | nil => simpa [behindComma] using hls
  | cons n ns ih =>
    obtain ⟨hn, hns⟩ := List.forall_mem_cons.1 h
    have hjoin := hls.join .comma hn.run
    rw [behindComma_cons, ← List.append_assoc comma, ← List.append_assoc]
    exact ih hns hjoin

theorem line_behindComma (h : ∀ n ∈ ns, n.IsSpelled) : ∀ l ∈ behindComma ns, l.kind ≠ .lineBreak := by
  have hcomma : ∀ l ∈ comma, l.kind ≠ .lineBreak := by simp [comma]
  intro l hl
  obtain ⟨n, hn, hl⟩ := List.mem_flatMap.1 hl
  rcases List.mem_append.1 hl with hl | hl
  · exact hcomma l hl
  · exact (h n hn).line l hl

/-- The names behind the first one are read as imported names. -/
theorem exists_moreNames (h : ∀ n ∈ ns, n.IsSpelled) (before : Text) : ∃ is : List ImportName,
    MoreNames (tokensFrom (pointAt before) (behindComma ns)) is ∧ ∀ after,
      is.map (fun i => pathAndAlias? (before ++ (behindComma ns).flatMap Lexeme.text ++ after) i.node) =
        ns.map fun n => some (n.path, n.newName) := by
  induction ns generalizing before with
  | nil => exact ⟨[], .nil, fun _ => rfl⟩
  | cons n ns ih =>
    obtain ⟨hn, hns⟩ := List.forall_mem_cons.1 h
    obtain ⟨i, hi, htokens, hname⟩ := hn.reads (before ++ [','] ++ [' '])
    obtain ⟨is, his, hnames⟩ := ih hns (before ++ [','] ++ [' '] ++ n.lexemes.flatMap Lexeme.text)
    refine ⟨i :: is, ?_, fun after => ?_⟩
    · have hsplit : tokensFrom (pointAt before) (behindComma (n :: ns)) =
          ⟨.symbol, [','], (pointAt before).span (pointAt (before ++ [',']))⟩ ::
            (i.tokens ++ tokensFrom
              (pointAt (before ++ [','] ++ [' '] ++ n.lexemes.flatMap Lexeme.text)) (behindComma ns)) := by
        rw [behindComma_cons, comma, List.cons_append, tokensFrom_cons, List.cons_append,
          tokensFrom_blank, List.nil_append, tokensFrom_append, htokens, afterText_pointAt,
          afterText_pointAt, afterText_pointAt]
      rw [hsplit]
      exact .cons rfl hi his
    · have htext : before ++ (behindComma (n :: ns)).flatMap Lexeme.text ++ after =
          before ++ [','] ++ [' '] ++ n.lexemes.flatMap Lexeme.text ++
            ((behindComma ns).flatMap Lexeme.text ++ after) := by
        simp [behindComma_cons, comma]
      rw [htext, List.map_cons, List.map_cons, hname, ← List.append_assoc, hnames]

/-! ## The statement -/

/-- What a statement imports is told by its names. -/
theorem importsOf_node {source : Text} {s : ImportFrom} (h : (s.name :: s.more).map
    (fun i => pathAndAlias? source i.node) = ns.map fun n => some (n.path, n.newName)) :
    importsOf source s.node = ns.map fun n =>
      ⟨(dottedNode s.module).text source, some n.path, n.newName⟩ := by
  have hrole : ∀ i : ImportName, i.node.role = some .name := by
    rintro ⟨path, newName⟩
    cases newName <;> rfl
  have hnames : ((s.name :: s.more).map ImportName.node).filter (fun c => c.role == some Syntax.Role.name) =
      (s.name :: s.more).map ImportName.node := by
    refine List.filter_eq_self.2 fun c hc => ?_
    obtain ⟨i, -, rfl⟩ := List.mem_map.1 hc
    rw [hrole]
    rfl
  have hchildren : s.node.childrenIn .name = (s.name :: s.more).map ImportName.node := by
    rw [Tree.childrenIn, ImportFrom.node, Tree.children, List.filter_cons_of_neg Bool.false_ne_true,
      hnames]
  have hmodule : s.node.child? .moduleName = some ((dottedNode s.module).withRole .moduleName) := rfl
  have hfound : (s.name :: s.more).filterMap (fun i => pathAndAlias? source i.node) =
      ns.map fun n => (n.path, n.newName) := by
    have := congrArg (List.filterMap id) h
    rw [List.filterMap_map, List.filterMap_map] at this
    exact this.trans (by simp)
  rw [importsOf, hchildren, hmodule, List.filterMap_map]
  refine (congrArg (List.map _) hfound).trans ?_
  rw [List.map_map]
  rfl

/-- The lexemes of an import from a module. -/
def importLexemes (module : List Lexeme) (n : NameText) (ns : List NameText) : List Lexeme :=
  [⟨.token .word, "from".toList⟩] ++ ([⟨.blank, [' ']⟩] ++ (module ++ ([⟨.blank, [' ']⟩] ++
    ([⟨.token .word, "import".toList⟩] ++ ([⟨.blank, [' ']⟩] ++ (n.lexemes ++ behindComma ns))))))

theorem isRun_importLexemes {module : List Lexeme} (hmodule : IsPath module) (hn : n.IsSpelled)
    (hns : ∀ n ∈ ns, n.IsSpelled) : IsRun (importLexemes module n ns) ∧
      ∀ l ∈ importLexemes module n ns, l.kind ≠ .lineBreak := by
  have hfrom : IsIdentifier "from".toList := ⟨⟨'f', rfl, by decide⟩, List.all_eq_true.1 (by decide)⟩
  have himport : IsIdentifier "import".toList := ⟨⟨'i', rfl, by decide⟩, List.all_eq_true.1 (by decide)⟩
  have hnames := isRun_behindComma hns hn.run
  refine ⟨(IsRun.word hfrom).join .blank (hmodule.run.join .blank ((IsRun.word himport).join .blank hnames)), ?_⟩
  have hline := line_behindComma hns
  simp only [importLexemes, List.mem_append, List.mem_singleton]
  rintro l (rfl | rfl | hl | rfl | rfl | rfl | hl | hl)
  case inr.inr.inl => exact hmodule.line l hl
  case inr.inr.inr.inr.inr.inr.inl => exact hn.line l hl
  case inr.inr.inr.inr.inr.inr.inr => exact hline l hl
  all_goals simp

/-- An import from a module is a script of one statement, which imports the names that it spells. -/
theorem parse_importFrom {module : List Lexeme} (hmodule : IsPath module)
    (hpresent : ∀ l ∈ module.head?, l.text ≠ "__future__".toList) (hn : n.IsSpelled)
    (hns : ∀ n ∈ ns, n.IsSpelled) : ∃ s t,
      parse ((importLexemes module n ns).flatMap Lexeme.text) = .ok (.node .module none s [t]) ∧
      t.kind = .importFromStatement ∧
      importsOf ((importLexemes module n ns).flatMap Lexeme.text) t = (n :: ns).map fun n =>
        ⟨String.ofList (module.flatMap Lexeme.text), some n.path, n.newName⟩ := by
  obtain ⟨hrun, hline⟩ := isRun_importLexemes hmodule hn hns
  obtain ⟨mark, hmark, htokens⟩ := hrun.exists_mark hline
  -- the texts in front of the module, of `import`, and of the first name and the others
  generalize hfront : [] ++ "from".toList ++ [' '] = front
  generalize hmiddle : front ++ module.flatMap Lexeme.text ++ [' '] = middle
  generalize hbehind : middle ++ "import".toList ++ [' '] = behind
  obtain ⟨i, hi, hfirst, hname⟩ := hn.reads behind
  obtain ⟨is, his, hnames⟩ := exists_moreNames hns (behind ++ n.lexemes.flatMap Lexeme.text)
  let s : ImportFrom := ⟨⟨.word, "from".toList, (pointAt []).span (pointAt ([] ++ "from".toList))⟩,
    tokensFrom (pointAt front) module,
    ⟨.word, "import".toList, (pointAt middle).span (pointAt (middle ++ "import".toList))⟩, i,
    tokensFrom (pointAt (behind ++ n.lexemes.flatMap Lexeme.text)) (behindComma ns), is⟩
  have hread : s.IsRead := by
    refine ⟨rfl, hmodule.dotted _, ?_, rfl, hi, his⟩
    obtain ⟨⟨k, w⟩, hl, hkind⟩ := hmodule.run.first
    obtain ⟨rest, rfl⟩ := List.head?_eq_some_iff.1 hl
    obtain rfl : k = .token .word := hkind
    have hw : w ≠ "__future__".toList := hpresent _ rfl
    show Clear _ (tokensFrom _ _)
    rw [tokensFrom_cons]
    exact clear_cons.2 (by simpa [Terminal.accepts] using hw)
  have hsplit : tokensFrom .start (importLexemes module n ns) = s.tokens := by
    show tokensFrom (pointAt []) _ = _
    rw [importLexemes, List.singleton_append, tokensFrom_cons, List.singleton_append, tokensFrom_blank,
      afterText_pointAt, afterText_pointAt, hfront, tokensFrom_append, List.singleton_append,
      tokensFrom_blank, afterText_pointAt, afterText_pointAt, hmiddle, List.singleton_append,
      tokensFrom_cons, List.singleton_append, tokensFrom_blank, afterText_pointAt, afterText_pointAt,
      hbehind, tokensFrom_append, afterText_pointAt, ← hfirst]
    rfl
  have htext : (importLexemes module n ns).flatMap Lexeme.text =
      behind ++ n.lexemes.flatMap Lexeme.text ++ ((behindComma ns).flatMap Lexeme.text ++ []) := by
    simp [importLexemes, ← hbehind, ← hmiddle, ← hfront]
  have hmoduleText : (dottedNode s.module).text ((importLexemes module n ns).flatMap Lexeme.text) =
      String.ofList (module.flatMap Lexeme.text) := by
    have hrest : (importLexemes module n ns).flatMap Lexeme.text = front ++ module.flatMap Lexeme.text ++
        ([' '] ++ "import".toList ++ [' '] ++ n.lexemes.flatMap Lexeme.text ++
          (behindComma ns).flatMap Lexeme.text) := by
      simp [importLexemes, ← hfront]
    rw [hrest]
    exact text_of_span (hmodule.span front)
  rw [hsplit] at htokens
  refine ⟨_, s.node, parse_of_readTokens (htokens ▸ hread.readTokens hmark), rfl, ?_⟩
  rw [← hmoduleText]
  refine importsOf_node ?_
  rw [List.map_cons, List.map_cons, htext, hname, ← List.append_assoc, hnames]

end

end Redeploy.Script
