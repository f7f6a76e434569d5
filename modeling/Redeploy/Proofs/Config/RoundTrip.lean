import Redeploy.Config.File
import Redeploy.Proofs.Yaml.Mapping
import Redeploy.Proofs.Yaml.Marks

set_option autoImplicit false

/-! # Settings that are written are read back

Whatever texts the settings have, the file that is written for them says the same settings again, so
reading it comes to checking them (`Config.ofYaml_toYaml`). Each part of the file is read as its tokens, and
these as the node that the part is read from. -/

namespace Redeploy

open Yaml Layout

namespace Config

variable {u w : Text} {indents indents' : List Nat} {opening ts : List Token}

/-! ## Entries -/

/-- The tokens of an entry. -/
def entryTokens (label : String) (ts : List Token) : List Token :=
  .key :: .scalar label.toList .plain :: .value :: ts

theorem readsAs_setting {label : String} (hl : isLabel label.toList = true)
    (henters : Enters 0 indents opening [0])
    (hgap : w.head?.any (fun c => isBlank c || isBreak c) = true)
    (hvalue : ValueReadsAs 0 [] w u ts indents') :
    ReadsAs indents (label.toList ++ ':' :: w) u (opening ++ entryTokens label ts) indents' :=
  .entry hl henters hgap hvalue

/-- A setting does not lie as deep as the values of others. -/
theorem follows_setting {label : String} (hl : isLabel label.toList = true) (n : Nat) (t u : Text) :
    Follows (n + 1) (label.toList ++ t ++ u) := by
  rw [List.append_assoc]
  exact follows_label hl (Nat.succ_pos n) _

/-! ## Image prefixes -/

/-- The items that image prefixes are written as. -/
def prefixItems (starts : List String) : List (Text × Style) :=
  starts.map fun start => (start.toList, scalarStyle start.toList)

/-- The tokens of image prefixes. -/
def prefixTokens (starts : List String) : List Token :=
  if starts.isEmpty then [.openBracket, .closeBracket] else Node.itemTokens (prefixItems starts)

/-- The node of image prefixes. -/
def prefixNode (starts : List String) : Node.Measured :=
  .sequence (Node.itemNodes (prefixItems starts)) none

theorem readsAs_items (hu : Follows 1 u) (starts : List String) : ReadsAs [0]
    (starts.flatMap fun start => '-' :: ' ' :: Written.scalar itemIndent start.toList) u
      (Node.itemTokens (prefixItems starts)) [0] := by
  induction starts with
  | nil => exact .nil [0] u
  | cons start starts ih =>
    refine .append (.item (n := 0) ?_ start.toList) ih
    cases starts with
    | nil => exact hu
    | cons => exact .line (k := 0) (by decide) rfl rfl

theorem readsAs_prefixes (hu : Follows 1 u) (starts : List String) :
    ReadsAs [0] ("default_image_prefixes".toList ++ ':' :: writePrefixes starts) u
      (entryTokens "default_image_prefixes" (prefixTokens starts)) [0] := by
  have hlabel : isLabel "default_image_prefixes".toList = true := by decide
  cases starts with
  | nil => exact readsAs_setting hlabel .same rfl (.brackets 0 [] u)
  | cons start starts => exact readsAs_setting hlabel .same rfl (.below (readsAs_items hu (start :: starts)))

theorem isValue_prefixes (starts : List String) : Node.IsValue (prefixTokens starts) (prefixNode starts) := by
  cases starts with
  | nil => exact Node.isValue_brackets
  | cons start starts => exact Node.isValue_items (by simp [prefixItems])

theorem within_prefixNode (starts : List String) : (prefixNode starts).Within 1 := by
  refine Node.Measured.within_sequence (fun m hm => ?_) none
  obtain ⟨p, -, rfl⟩ := List.mem_map.1 hm
  exact Node.Measured.within_scalar _ _ _

/-- The image prefixes are read back. -/
theorem mapM_text?_prefixes (starts : List String) :
    ((Node.itemNodes (prefixItems starts)).map (·.node)).mapM Node.text? = some starts := by
  induction starts with
  | nil => rfl
  | cons start starts ih =>
    have hfirst : ((Node.itemNodes (prefixItems (start :: starts))).map (·.node)) =
        .scalar start.toList (scalarStyle start.toList) none ::
          (Node.itemNodes (prefixItems starts)).map (·.node) := rfl
    rw [hfirst, List.mapM_cons, Node.text?, String.ofList_toList, ih]
    rfl

/-! ## The load helper -/

/-- The tokens of one name of the helper. -/
def nameTokens (label value : String) : List Token :=
  entryTokens label [.scalar value.toList (scalarStyle value.toList)]

/-- The tokens of the helper, up to its last name. -/
def helperTokens (h : LoadHelper) : List Token :=
  nameTokens "module" h.module ++ nameTokens "name" h.name ++ nameTokens "method" h.method

/-- The entries of the helper. -/
def helperEntries (h : LoadHelper) : List (Text × Node.Measured) :=
  [("module", h.module), ("name", h.name), ("method", h.method)].map fun p =>
    (p.1.toList, .scalar p.2.toList (scalarStyle p.2.toList) none)

theorem writeHelperName_eq (label value : String) : writeHelperName label value =
    List.replicate 2 ' ' ++ (label.toList ++ ':' :: ' ' :: Written.scalar nestedIndent value.toList) := by
  simp [writeHelperName, String.toList_append]

theorem readsAs_name {label : String} (hl : isLabel label.toList = true)
    (henters : Enters 2 indents opening [2, 0]) (hu : Follows 3 u) (value : String) :
    ReadsAs indents (writeHelperName label value) u (opening ++ nameTokens label value) [2, 0] := by
  rw [writeHelperName_eq]
  exact .entry hl henters rfl (.scalar hu value.toList)

theorem readsAs_helper (hu : Follows 3 u) (h : LoadHelper) :
    ReadsAs [0] ("load_helper".toList ++ ':' :: '\n' :: writeHelper h) u
      (entryTokens "load_helper" (.blockMapping :: helperTokens h)) [2, 0] := by
  have hlabel : isLabel "load_helper".toList = true := by decide
  have hname : isLabel "name".toList = true := by decide
  have hmethod : isLabel "method".toList = true := by decide
  have hline : ∀ label value w, isLabel label.toList = true →
      Follows 3 (writeHelperName label value ++ w) := by
    intro label value w hl
    rw [writeHelperName_eq, List.append_assoc, List.append_assoc]
    exact follows_label hl (by decide) _
  have hnames : ReadsAs [0] (writeHelper h) u (.blockMapping :: helperTokens h) [2, 0] :=
    .append (.append (readsAs_name (by decide) (.deeper (by simp)) (hline _ _ _ hname) h.module)
      (readsAs_name hname .same (hline _ _ _ hmethod) h.name)) (readsAs_name hmethod .same hu h.method)
  exact readsAs_setting hlabel .same rfl (.below hnames)

/-- The helper is the mapping of its names. -/
theorem isEntries_helper (h : LoadHelper) :
    Node.IsEntries (helperTokens h ++ [.blockEnd]) (helperEntries h) :=
  .scalar _ _ _ (.scalar _ _ _ (.scalar _ _ _ .nil))

/-- The helper is read back. -/
theorem ofNode?_helper (h : LoadHelper) : LoadHelper.ofNode?
    (.mapping ((helperEntries h).map fun e => (.scalar e.1 .plain none, e.2.node)) none) = some h := by
  simp [LoadHelper.ofNode?, helperEntries, Node.record?, Node.entries?, Node.text?, Table.get?,
    Node.Measured.scalar]

/-! ## The whole file -/

/-- The tokens of the settings. -/
def settingTokens (c : Config) : List Token :=
  entryTokens "version" [.scalar (Nat.toDigits 10 c.version) .plain] ++
    (entryTokens "default_image_prefixes" (prefixTokens c.defaultImagePrefixes) ++
      (entryTokens "load_helper" (.blockMapping :: helperTokens c.loadHelper) ++
        (.blockEnd :: entryTokens "resolve_bound_references"
          [.scalar (toString c.resolveBoundReferences).toList .plain])))

/-- The entries of the settings. -/
def settingEntries (c : Config) : List (Text × Node.Measured) :=
  [("version".toList, .scalar (Nat.toDigits 10 c.version) .plain none),
    ("default_image_prefixes".toList, prefixNode c.defaultImagePrefixes),
    ("load_helper".toList, .mapping (Node.entryNodes (helperEntries c.loadHelper)) none),
    ("resolve_bound_references".toList, .scalar (toString c.resolveBoundReferences).toList .plain none)]

/-- The file as entries. -/
theorem toYaml_eq (c : Config) : c.toYaml =
    ("version".toList ++ ':' :: ' ' :: (Nat.toDigits 10 c.version ++ ['\n'])) ++
      (("default_image_prefixes".toList ++ ':' :: writePrefixes c.defaultImagePrefixes) ++
        (("load_helper".toList ++ ':' :: '\n' :: writeHelper c.loadHelper) ++
          ("resolve_bound_references".toList ++ ':' :: ' ' ::
            ((toString c.resolveBoundReferences).toList ++ ['\n'])))) := by
  have hversion : "version: ".toList = "version".toList ++ [':', ' '] := by decide
  have hprefixes : "default_image_prefixes:".toList = "default_image_prefixes".toList ++ [':'] := by decide
  have hhelper : "load_helper:\n".toList = "load_helper".toList ++ [':', '\n'] := by decide
  have hresolve : "resolve_bound_references: ".toList = "resolve_bound_references".toList ++ [':', ' '] := by
    decide
  have hline : "\n".toList = ['\n'] := by decide
  simp only [toYaml, String.toList_append, hversion, hprefixes, hhelper, hresolve, hline,
    Nat.toString_eq_repr, Nat.toList_repr, List.append_assoc, List.cons_append, List.nil_append]

theorem readsAs_version (hu : Follows 1 u) (n : Nat) :
    ReadsAs [] ("version".toList ++ ':' :: ' ' :: (Nat.toDigits 10 n ++ ['\n'])) u
      (.blockMapping :: entryTokens "version" [.scalar (Nat.toDigits 10 n) .plain]) [0] := by
  have hlabel : isLabel "version".toList = true := by decide
  have henters : Enters 0 [] [.blockMapping] [0] := .deeper (by simp)
  exact readsAs_setting hlabel henters rfl (.plain (Written.allowsPlain_toDigits n) Nat.toDigits_ne_nil hu)

theorem allowsPlain_bool (b : Bool) : Written.allowsPlain (toString b).toList = true := by
  cases b <;> decide

theorem readsAs_resolve (b : Bool) :
    ReadsAs [2, 0] ("resolve_bound_references".toList ++ ':' :: ' ' :: ((toString b).toList ++ ['\n'])) []
      (.blockEnd :: entryTokens "resolve_bound_references" [.scalar (toString b).toList .plain]) [0] := by
  have hlabel : isLabel "resolve_bound_references".toList = true := by decide
  have henters : Enters 0 [2, 0] [.blockEnd] [0] := .back (by decide)
  have hne : (toString b).toList ≠ [] := by cases b <;> decide
  exact readsAs_setting hlabel henters rfl (.plain (allowsPlain_bool b) hne .nothing)

theorem readsAs_toYaml (c : Config) : ReadsAs [] c.toYaml [] (.blockMapping :: settingTokens c) [0] := by
  rw [toYaml_eq]
  refine .append (readsAs_version ?_ _) (.append (readsAs_prefixes ?_ _)
    (.append (readsAs_helper ?_ _) (readsAs_resolve _)))
  · rw [List.append_assoc]
    exact follows_setting (by decide) 0 _ _
  · rw [List.append_assoc]
    exact follows_setting (by decide) 0 _ _
  · exact follows_setting (by decide) 2 _ _

/-! ### Characters -/

theorem isPrintable_setting {label : String} (hl : isLabel label.toList = true)
    (hw : ∀ d ∈ w, Written.isPrintable d = true) :
    ∀ d ∈ label.toList ++ ':' :: w, Written.isPrintable d = true :=
  List.forall_mem_append.2 ⟨(Written.allowsPlain_spec (isLabel_spec hl).1).1,
    List.forall_mem_cons.2 ⟨rfl, hw⟩⟩

theorem isPrintable_value (hw : ∀ d ∈ w, Written.isPrintable d = true) :
    ∀ d ∈ ' ' :: w, Written.isPrintable d = true :=
  List.forall_mem_cons.2 ⟨rfl, hw⟩

theorem isPrintable_word (hw : Written.allowsPlain w = true) :
    ∀ d ∈ ' ' :: (w ++ ['\n']), Written.isPrintable d = true :=
  isPrintable_value (Written.isPrintable_append_singleton (Written.allowsPlain_spec hw).1 rfl)

theorem isPrintable_prefixes (starts : List String) :
    ∀ d ∈ writePrefixes starts, Written.isPrintable d = true := by
  cases starts with
  | nil => exact List.all_eq_true.1 (by decide)
  | cons start starts =>
    refine List.forall_mem_cons.2 ⟨rfl, fun d hd => ?_⟩
    obtain ⟨start', -, hmem⟩ := List.mem_flatMap.1 hd
    rcases List.mem_cons.1 hmem with rfl | hmem
    · rfl
    · exact isPrintable_value (Written.isPrintable_scalar _ _) d hmem

theorem isPrintable_helper (h : LoadHelper) : ∀ d ∈ writeHelper h, Written.isPrintable d = true := by
  have hname : ∀ {label : String} (value : String), isLabel label.toList = true →
      ∀ d ∈ writeHelperName label value, Written.isPrintable d = true := by
    intro label value hl
    rw [writeHelperName_eq]
    exact List.forall_mem_append.2 ⟨Written.isPrintable_spaces 2,
      isPrintable_setting hl (isPrintable_value (Written.isPrintable_scalar _ _))⟩
  exact List.forall_mem_append.2 ⟨List.forall_mem_append.2 ⟨hname _ (by decide), hname _ (by decide)⟩,
    hname _ (by decide)⟩

theorem isPrintable_toYaml (c : Config) : ∀ d ∈ c.toYaml, Written.isPrintable d = true := by
  have hversion := isPrintable_setting (show isLabel "version".toList = true by decide)
    (isPrintable_word (Written.allowsPlain_toDigits c.version))
  have hprefixes := isPrintable_setting (show isLabel "default_image_prefixes".toList = true by decide)
    (isPrintable_prefixes c.defaultImagePrefixes)
  have hbelow : ∀ d ∈ '\n' :: writeHelper c.loadHelper, Written.isPrintable d = true :=
    List.forall_mem_cons.2 ⟨rfl, isPrintable_helper c.loadHelper⟩
  have hhelper := isPrintable_setting (show isLabel "load_helper".toList = true by decide) hbelow
  have hresolve := isPrintable_setting (show isLabel "resolve_bound_references".toList = true by decide)
    (isPrintable_word (allowsPlain_bool c.resolveBoundReferences))
  rw [toYaml_eq]
  exact List.forall_mem_append.2 ⟨hversion, List.forall_mem_append.2 ⟨hprefixes,
    List.forall_mem_append.2 ⟨hhelper, hresolve⟩⟩⟩

/-! ### Reading -/

theorem tokens?_toYaml (c : Config) :
    tokens? c.toYaml = some (.blockMapping :: (settingTokens c ++ [.blockEnd])) :=
  (readsAs_toYaml c).tokens?_eq c.isPrintable_toYaml

theorem isEntries_settings (c : Config) :
    Node.IsEntries (settingTokens c ++ [.blockEnd]) (settingEntries c) := by
  have hresolve := Node.IsEntries.scalar "resolve_bound_references".toList
    (toString c.resolveBoundReferences).toList .plain .nil
  have hhelper := Node.IsEntries.cons "load_helper".toList (isEntries_helper c.loadHelper).isValue hresolve
  have hprefixes := Node.IsEntries.cons "default_image_prefixes".toList
    (isValue_prefixes c.defaultImagePrefixes) hhelper
  have hversion := Node.IsEntries.scalar "version".toList (Nat.toDigits 10 c.version) .plain hprefixes
  simpa only [settingTokens, settingEntries, entryTokens, List.append_assoc, List.cons_append,
    List.nil_append] using hversion

theorem within_settingEntries (c : Config) : ∀ e ∈ settingEntries c, e.2.Within 1 := by
  have hhelper : (Node.Measured.mapping (Node.entryNodes (helperEntries c.loadHelper)) none).Within 1 := by
    refine Node.Measured.within_mapping (fun e he => ?_) none
    simp only [Node.entryNodes, helperEntries, List.map_map, List.mem_map] at he
    obtain ⟨p, -, rfl⟩ := he
    exact ⟨Node.Measured.within_scalar _ _ _, Node.Measured.within_scalar _ _ _⟩
  have hscalar : ∀ t style, (Node.Measured.scalar t style none).Within 1 := fun t style =>
    (Node.Measured.within_scalar t style none).mono (Nat.zero_le 1)
  simp only [settingEntries, List.forall_mem_cons]
  exact ⟨hscalar _ _, within_prefixNode _, hhelper, hscalar _ _, List.forall_mem_nil _⟩

/-- The node of the file. -/
def settingNode (c : Config) : Node :=
  .mapping ((settingEntries c).map fun e => (.scalar e.1 .plain none, e.2.node)) none

theorem parse?_toYaml (c : Config) : parse? c.toYaml = some (settingNode c) := by
  rw [parse?, tokens?_toYaml]
  exact (isEntries_settings c).ofTokens?_eq (by decide) (within_settingEntries c)

theorem optional?_version {n : Nat} (hn : (n : Int) ≤ maxNat32) :
    (Node.scalar (Nat.toDigits 10 n) .plain none).optional? Node.nat32? = some (some n) := by
  have hread : (Node.scalar (Nat.toDigits 10 n) .plain none).nat32? = some n := by
    simp [Node.nat32?, Node.typedText?, Implicit.nat?_toDigits, hn]
  simp [Node.optional?, Implicit.isNull_toDigits, hread]

theorem optional?_prefixes (starts : List String) :
    (prefixNode starts).node.optional? (fun n => n.items?.bind fun items => items.mapM Node.text?) =
      some (some starts) :=
  congrArg (Option.map some) (mapM_text?_prefixes starts)

theorem optional?_helper (h : LoadHelper) :
    (Node.Measured.mapping (Node.entryNodes (helperEntries h)) none).node.optional? LoadHelper.ofNode? =
      some (some h) :=
  congrArg (Option.map some) (ofNode?_helper h)

theorem optional?_resolve (b : Bool) :
    (Node.scalar (toString b).toList .plain none).optional? Node.bool? = some (some b) := by
  cases b <;> decide

/-- The settings by name. -/
def settingFields (c : Config) : Table Node :=
  (settingEntries c).map fun e => (String.ofList e.1, e.2.node)

theorem record?_settingNode (c : Config) : (settingNode c).record? settingNames = some c.settingFields := by
  simp [settingNode, settingFields, settingEntries, Node.record?, Node.entries?, Node.text?, settingNames,
    Node.Measured.scalar]

theorem setting?_eq {α : Type} {name : String} {fields : Table Node} {reader : Node → Option α} {n : Node}
    {v : Option α} (hread : n.optional? reader = some v) (h : Table.get? name fields = some n) :
    setting? name reader fields = some v := by
  rw [setting?, h]
  exact hread

/-- Every setting is read back from the node. -/
theorem ofNode?_settingNode (c : Config) (hversion : (c.version : Int) ≤ maxNat32) :
    Given.ofNode? (settingNode c) = some ⟨some c.version, some c.defaultImagePrefixes, some c.loadHelper,
      some c.resolveBoundReferences⟩ := by
  have hnumber : setting? "version" Node.nat32? c.settingFields = some (some c.version) :=
    setting?_eq (optional?_version hversion)
      (by simp [settingFields, settingEntries, Table.get?, Node.Measured.scalar])
  have hprefixes : setting? "default_image_prefixes" (fun n => n.items?.bind fun items =>
      items.mapM Node.text?) c.settingFields = some (some c.defaultImagePrefixes) :=
    setting?_eq (optional?_prefixes c.defaultImagePrefixes)
      (by simp [settingFields, settingEntries, Table.get?])
  have hhelper : setting? "load_helper" LoadHelper.ofNode? c.settingFields = some (some c.loadHelper) :=
    setting?_eq (optional?_helper c.loadHelper) (by simp [settingFields, settingEntries, Table.get?])
  have hresolve : setting? "resolve_bound_references" Node.bool? c.settingFields =
      some (some c.resolveBoundReferences) :=
    setting?_eq (optional?_resolve c.resolveBoundReferences)
      (by simp [settingFields, settingEntries, Table.get?, Node.Measured.scalar])
  rw [Given.ofNode?, record?_settingNode]
  simp only [Option.bind_eq_bind, Option.bind_some, hnumber, hprefixes, hhelper, hresolve, Option.pure_def]

/-- Settings with all that can be given are checked and taken. -/
theorem ofGiven_eq (c : Config) : ofGiven ⟨some c.version, some c.defaultImagePrefixes, some c.loadHelper,
    some c.resolveBoundReferences⟩ = c.validate.map fun _ => c := by
  simp only [ofGiven, Option.getD_some]
  cases c.validate <;> rfl

/-- Reading the file that is written for some settings comes to checking them: what the check lets pass is
    read back as it was, and what it does not fails with the fault that the check finds. A version is a
    number of 32 bits. -/
theorem ofYaml_toYaml (c : Config) (hversion : (c.version : Int) ≤ maxNat32) :
    ofYaml c.toYaml = c.validate.map fun _ => c := by
  rw [ofYaml, parse?_toYaml, Option.bind_some, ofNode?_settingNode c hversion]
  exact ofGiven_eq c

/-- Texts that look like marks of the format are read back as texts. -/
theorem ofYaml_toYaml_marks : ((1 : Nat) : Int) ≤ maxNat32 ∧
    ofYaml (toYaml ⟨1, ["- a\nb: #", "true", "[]"], .standard, true⟩) =
      .ok ⟨1, ["- a\nb: #", "true", "[]"], .standard, true⟩ :=
  ⟨by decide, (ofYaml_toYaml _ (by decide)).trans rfl⟩

end Config

end Redeploy
