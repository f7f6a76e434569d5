import Redeploy.Block.Slug
import Redeploy.Proofs.Text.Pieces

set_option autoImplicit false

/-! # The words of a slug

What the slug of a class is made of, told of a name with its places counted: what stands at a place of
the name and next to it tells what is written for it (`written`), and the name in lowercase words is what
is written for its places in a row (`kebabCase_eq_flatMap`). So nothing is lost but capitals and
underscores (`filter_kebabCase`), and where there are none of these nothing changes
(`kebabAfter_eq_self`). The classes of characters are those of ASCII here, and the tables for all other
characters are needed for one fact only: no character but a hyphen has a hyphen in its lowercase form
(`hyphen_not_mem_lowercase`). -/

namespace Redeploy

/-! ## ASCII characters -/

/-- The characters that are ASCII, for which the classes of characters are those of the core library. -/
def IsAscii (c : Char) : Prop := c.toNat < 128

/-- What holds of the ASCII characters one by one holds of all of them. -/
theorem forall_of_isAscii {P : Char → Prop} (h : ∀ n ∈ List.range 128, P (Char.ofNat n)) {c : Char}
    (hc : IsAscii c) : P c := by
  have hcode := h c.toNat (List.mem_range.2 hc)
  rwa [Char.ofNat_toNat] at hcode

theorem isUppercase_of_isAscii {c : Char} (hc : IsAscii c) : isUppercase c = c.isUpper :=
  forall_of_isAscii (P := fun c => isUppercase c = c.isUpper) (by decide +kernel) hc

theorem isLowercase_of_isAscii {c : Char} (hc : IsAscii c) : isLowercase c = c.isLower :=
  forall_of_isAscii (P := fun c => isLowercase c = c.isLower) (by decide +kernel) hc

theorem isAsciiDigit_of_isAscii {c : Char} (hc : IsAscii c) : isAsciiDigit c = c.isDigit :=
  forall_of_isAscii (P := fun c => isAsciiDigit c = c.isDigit) (by decide +kernel) hc

theorem lowercase_of_isAscii {c : Char} (hc : IsAscii c) : lowercase c = [c.toLower] :=
  forall_of_isAscii (P := fun c => lowercase c = [c.toLower]) (by decide +kernel) hc

/-- The lowercase form of an ASCII character. -/
theorem toLower_of_isAscii {c : Char} (hc : IsAscii c) :
    IsAscii c.toLower ∧ c.toLower.isUpper = false ∧ (c.toLower = '_' ↔ c = '_') :=
  forall_of_isAscii (P := fun c => IsAscii c.toLower ∧ c.toLower.isUpper = false ∧
    (c.toLower = '_' ↔ c = '_')) (by unfold IsAscii; decide +kernel) hc

theorem toLower_eq_self {c : Char} (hc : IsAscii c) (h : c.isUpper = false) : c.toLower = c :=
  forall_of_isAscii (P := fun c => c.isUpper = false → c.toLower = c) (by decide +kernel) hc h

theorem toNat_ofNat (n : Nat) : (Char.ofNat n).toNat = n ∨ (Char.ofNat n).toNat = 0 := by
  by_cases hn : n.isValidChar
  · exact .inl (by rw [Char.ofNat, dif_pos hn]; rfl)
  · exact .inr (by rw [Char.ofNat, dif_neg hn]; rfl)

/-- No character but a hyphen has a hyphen in its lowercase form. -/
theorem hyphen_not_mem_lowercase {c : Char} (hc : c ≠ '-') : '-' ∉ lowercase c := by
  have hruns : ∀ run ∈ Unicode.lowerMapRuns, (46 : Int) ≤ run.1 + run.2.2.2 := by decide +kernel
  by_cases hascii : IsAscii c
  · exact forall_of_isAscii (P := fun c => c ≠ '-' → '-' ∉ lowercase c) (by decide +kernel) hascii hc
  unfold lowercase
  simp only [show ¬ c.toNat < 128 from hascii, if_false]
  split
  · decide
  · split
    · next first last step distance hrun =>
      have hdistance := hruns _ (List.mem_of_find?_eq_some hrun)
      have hfirst := List.find?_some hrun
      simp only [Bool.and_eq_true, decide_eq_true_eq] at hdistance hfirst
      intro hmem
      have hcode : 45 = (Char.ofNat (c.toNat + distance).toNat).toNat :=
        congrArg Char.toNat (List.mem_singleton.1 hmem)
      have := toNat_ofNat (c.toNat + distance).toNat
      omega
    · simpa using hc.symm

namespace Slug

/-! ## What is written for a place of a name -/

/-- Whether a word starts at a place of a name: at a capital behind a lowercase letter or a digit, and
    at a capital between another capital and a lowercase letter. -/
def isWordStart (name : Text) (i : Nat) : Bool :=
  match name[i]?, i with
  | some c, i + 1 =>
    c.isUpper && name[i]?.any fun prev =>
      prev.isLower || prev.isDigit || (prev.isUpper && name[i + 2]?.any Char.isLower)
  | _, _ => false

/-- What is written for a place of a name: a hyphen for an underscore, and any other character in
    lowercase, behind another hyphen where a word starts. -/
def written (name : Text) (i : Nat) : Text :=
  match name[i]? with
  | none => []
  | some c =>
    if c = '_' then ['-'] else if isWordStart name i then ['-', c.toLower] else [c.toLower]

section

variable {name before t : Text} {c : Char}

theorem isWordStart_append (hname : ∀ d ∈ before ++ c :: t, IsAscii d) :
    isWordStart (before ++ c :: t) before.length = before.getLast?.any (startsWord · c t.head?) := by
  have hhere : (before ++ c :: t)[before.length]? = some c := by simp
  have hnext : t.head?.any isLowercase = t.head?.any Char.isLower := by
    cases t with
    | nil => rfl
    | cons d t => exact isLowercase_of_isAscii (hname d (by simp))
  rcases List.eq_nil_or_concat before with rfl | ⟨before, p, rfl⟩
  · simp [isWordStart]
  · have hprev : (before ++ [p] ++ c :: t)[before.length]? = some p := by simp
    have hfront : (before ++ [p] ++ c :: t)[before.length + 2]? = t.head? := by
      cases t <;> simp
    have hc : IsAscii c := hname c (by simp)
    have hp : IsAscii p := hname p (by simp)
    rw [List.concat_eq_append] at hhere ⊢
    rw [List.length_append, List.length_singleton] at hhere ⊢
    simp only [isWordStart, hhere, hprev, hfront, startsWord, hnext, isUppercase_of_isAscii hc,
      isUppercase_of_isAscii hp, isLowercase_of_isAscii hp, isAsciiDigit_of_isAscii hp,
      List.getLast?_append, List.getLast?_singleton, Option.some_or, Option.any_some]

/-- What stands for a character between its neighbours is what is written for its place. -/
theorem kebabChar_eq_written (hname : ∀ d ∈ before ++ c :: t, IsAscii d) :
    kebabChar before.getLast? c t.head? = written (before ++ c :: t) before.length := by
  have hhere : (before ++ c :: t)[before.length]? = some c := by simp
  simp only [kebabChar, written, hhere, isWordStart_append hname,
    lowercase_of_isAscii (hname c (by simp))]

theorem kebabAfter_eq_flatMap (hname : ∀ d ∈ before ++ t, IsAscii d) :
    kebabAfter before.getLast? t =
      (List.range t.length).flatMap fun i => written (before ++ t) (before.length + i) := by
  induction t generalizing before with
  | nil => rfl
  | cons c t ih =>
    have hsplit : before ++ c :: t = before ++ [c] ++ t := by simp
    have hrest := @ih (before ++ [c]) (hsplit ▸ hname)
    rw [List.getLast?_append, List.getLast?_singleton, Option.some_or, ← hsplit,
      List.length_append, List.length_singleton] at hrest
    rw [kebabAfter, kebabChar_eq_written hname, hrest, List.length_cons, List.range_succ_eq_map,
      List.flatMap_cons, List.flatMap_map]
    simp only [Nat.add_zero, Nat.succ_eq_add_one, Nat.add_assoc, Nat.add_comm 1]

/-- The slug of a name is what is written for its places in a row. -/
theorem kebabCase_eq_flatMap (hname : ∀ d ∈ name, IsAscii d) :
    kebabCase name = (List.range name.length).flatMap (written name) := by
  have hrow := @kebabAfter_eq_flatMap [] name hname
  simpa [kebabCase] using hrow

end

/-! ## What is kept -/

section

variable {prev next : Option Char} {name : Text} {c d : Char}

/-- Of what stands for a character, all but hyphens is its lowercase form. -/
theorem filter_kebabChar (prev next : Option Char) (c : Char) :
    (kebabChar prev c next).filter (· != '-') =
      if c != '_' && c != '-' then lowercase c else [] := by
  have hlower : c ≠ '-' → (lowercase c).filter (· != '-') = lowercase c := by
    intro hc
    rw [List.filter_eq_self]
    intro d hd
    exact bne_iff_ne.2 fun heq => hyphen_not_mem_lowercase hc (heq ▸ hd)
  unfold kebabChar
  by_cases hunder : c = '_'
  · simp [hunder]
  rw [if_neg hunder]
  by_cases hhyphen : c = '-'
  · subst hhyphen
    simp [startsWord, isUppercase, lowercase]
  · split <;> simp [hunder, hhyphen, hlower]

theorem filter_kebabAfter (prev : Option Char) (name : Text) :
    (kebabAfter prev name).filter (· != '-') =
      (name.filter fun c => c != '_' && c != '-').flatMap lowercase := by
  induction name generalizing prev with
  | nil => rfl
  | cons c name ih =>
    rw [kebabAfter, List.filter_append, filter_kebabChar, ih, List.filter_cons]
    split <;> simp

/-- Without its hyphens, the slug of a name is the name in lowercase without underscores and hyphens. -/
theorem filter_kebabCase (name : Text) : (kebabCase name).filter (· != '-') =
    (name.filter fun c => c != '_' && c != '-').flatMap lowercase :=
  filter_kebabAfter none name

theorem mem_kebabChar (h : d ∈ kebabChar prev c next) : d = '-' ∨ (c ≠ '_' ∧ d ∈ lowercase c) := by
  unfold kebabChar at h
  split at h
  · exact .inl (List.mem_singleton.1 h)
  · next hc =>
    split at h
    · rcases List.mem_cons.1 h with rfl | h
      · exact .inl rfl
      · exact .inr ⟨hc, h⟩
    · exact .inr ⟨hc, h⟩

theorem mem_kebabAfter (h : d ∈ kebabAfter prev name) :
    d = '-' ∨ ∃ c ∈ name, c ≠ '_' ∧ d ∈ lowercase c := by
  induction name generalizing prev with
  | nil => simp [kebabAfter] at h
  | cons c name ih =>
    rw [kebabAfter, List.mem_append] at h
    rcases h with h | h
    · exact (mem_kebabChar h).imp_right fun h => ⟨c, List.mem_cons_self .., h⟩
    · refine (ih h).imp_right ?_
      rintro ⟨c', hc', h⟩
      exact ⟨c', List.mem_cons_of_mem c hc', h⟩

/-- A text without capitals and underscores. -/
def IsLowered (t : Text) : Prop :=
  ∀ c ∈ t, IsAscii c ∧ c.isUpper = false ∧ c ≠ '_'

theorem isLowered_kebabCase (hname : ∀ c ∈ name, IsAscii c) : IsLowered (kebabCase name) := by
  intro d hd
  rcases mem_kebabAfter hd with rfl | ⟨c, hc, hunder, hd⟩
  · exact ⟨by unfold IsAscii; decide, by decide, by decide⟩
  · rw [lowercase_of_isAscii (hname c hc)] at hd
    obtain rfl := List.mem_singleton.1 hd
    obtain ⟨hascii, hupper, hiff⟩ := toLower_of_isAscii (hname c hc)
    exact ⟨hascii, hupper, fun heq => hunder (hiff.1 heq)⟩

theorem kebabAfter_eq_self (h : IsLowered name) (prev : Option Char) :
    kebabAfter prev name = name := by
  induction name generalizing prev with
  | nil => rfl
  | cons c name ih =>
    obtain ⟨hascii, hupper, hunder⟩ := h c (List.mem_cons_self ..)
    have hnot : prev.any (startsWord · c name.head?) = false := by
      cases prev <;> simp [startsWord, isUppercase_of_isAscii hascii, hupper]
    rw [kebabAfter, kebabChar, if_neg hunder, hnot, if_neg Bool.false_ne_true,
      lowercase_of_isAscii hascii, toLower_eq_self hascii hupper,
      ih fun d hd => h d (List.mem_cons_of_mem c hd)]
    rfl

end

/-! ## Dotted paths -/

/-- A name without points is what a path ends with. -/
inductive IsLastSegment (name : String) : String → Prop
  /-- The path is the name. -/
  | alone (h : '.' ∉ name.toList) : IsLastSegment name name
  /-- The name stands behind the last point. -/
  | behind (qualifier : String) (h : '.' ∉ name.toList) :
    IsLastSegment name (qualifier ++ "." ++ name)

theorem IsLastSegment.ofClass_eq {name path : String} (h : IsLastSegment name path) :
    ofClass path = ofClassName name := by
  have hlast : (pathSegments path).getLast? = some name := by
    cases h with
    | alone h => simp [pathSegments, Text.splitOn_of_not_mem h]
    | behind qualifier h =>
      have hpath : (qualifier ++ "." ++ name).toList = qualifier.toList ++ '.' :: name.toList := by
        simp
      rw [pathSegments, hpath, Text.splitOn_append_cons, Text.splitOn_of_not_mem h]
      simp
  rw [ofClass, hlast, Option.getD_some]

theorem exists_isLastSegment (path : String) : ∃ name, IsLastSegment name path := by
  by_cases hpoint : '.' ∈ path.toList
  · obtain ⟨last, before, heq, hlast⟩ := List.eq_append_cons_of_mem (List.mem_reverse.2 hpoint)
    have hpath : path = String.ofList before.reverse ++ "." ++ String.ofList last.reverse := by
      rw [← String.toList_inj, ← List.reverse_inj, heq]
      simp
    rw [hpath]
    exact ⟨_, .behind _ (by simpa using hlast)⟩
  · exact ⟨path, .alone hpoint⟩

/-- The slug of a class that has none of its own keeps all but hyphens and underscores of its name. -/
theorem filter_ofClassName {name : String} (h : name ∉ knownClasses.map Prod.fst) :
    (ofClassName name).toList.filter (· != '-') =
      (name.toList.filter fun c => c != '_' && c != '-').flatMap lowercase := by
  have hunknown : (knownClasses.find? fun known => known.1 == name) = none := by
    rw [List.find?_eq_none]
    intro known hknown heq
    exact h (beq_iff_eq.1 heq ▸ List.mem_map_of_mem hknown)
  rw [ofClassName, hunknown, String.toList_ofList, filter_kebabCase]

/-! ## The slug of a class -/

/-- The slug of an ASCII name has no capitals and no underscores; it is the name in lowercase but for
    underscores, hyphens and the hyphens that are written in front of words, and nothing else is written;
    and what is a slug already stays as it is. The slug of a class given by any path at all is told by the
    last segment of the path, and keeps all letters and digits of it unless the class has a slug of its
    own. -/
theorem words_of_class {name : Text} (hname : ∀ c ∈ name, c.toNat < 128) :
    (∀ c ∈ kebabCase name, c.isUpper = false ∧ c ≠ '_') ∧
    (kebabCase name).filter (· != '-') =
      (name.filter fun c => c != '_' && c != '-').map Char.toLower ∧
    kebabCase name = (List.range name.length).flatMap (written name) ∧
    kebabCase (kebabCase name) = kebabCase name ∧
    ∀ path, ∃ last, IsLastSegment last path ∧
      (∀ path', IsLastSegment last path' → ofClass path' = ofClass path) ∧
      (last ∉ knownClasses.map Prod.fst → (ofClass path).toList.filter (· != '-') =
        (last.toList.filter fun c => c != '_' && c != '-').flatMap lowercase) := by
  refine ⟨fun c hc => (isLowered_kebabCase hname c hc).2, ?_, kebabCase_eq_flatMap hname,
    kebabAfter_eq_self (isLowered_kebabCase hname) none, fun path => ?_⟩
  · rw [filter_kebabCase, List.map_eq_flatMap, List.flatMap_def, List.flatMap_def]
    refine congrArg List.flatten (List.map_congr_left fun c hc => ?_)
    exact lowercase_of_isAscii (hname c (List.mem_filter.1 hc).1)
  · obtain ⟨last, hlast⟩ := exists_isLastSegment path
    refine ⟨last, hlast, fun path' hpath' => ?_, fun hunknown => ?_⟩
    · rw [hlast.ofClass_eq, hpath'.ofClass_eq]
    · rw [hlast.ofClass_eq, filter_ofClassName hunknown]

/-- A run of capitals is one word up to the last of them, a word starts at a capital behind a digit, and
    none does behind a hyphen or an underscore. -/
theorem words_of_acronym :
    (∀ c ∈ "HTTPServer_v2Beta-X".toList, c.toNat < 128) ∧
    kebabCase "HTTPServer_v2Beta-X".toList = "http-server-v2-beta-x".toList ∧
    kebabCase (kebabCase "HTTPServer_v2Beta-X".toList) = kebabCase "HTTPServer_v2Beta-X".toList ∧
    (kebabCase "HTTPServer_v2Beta-X".toList).filter (· != '-') = "httpserverv2betax".toList ∧
    ∃ last, IsLastSegment last "blocks.HTTPServer" ∧
      ∀ path, IsLastSegment last path → ofClass path = "http-server" := by
  have hall : ("HTTPServer_v2Beta-X".toList.all fun c => c.toNat < 128) = true := by decide
  have hname : ∀ c ∈ "HTTPServer_v2Beta-X".toList, c.toNat < 128 := by
    intro c hc
    exact of_decide_eq_true (List.all_eq_true.1 hall c hc)
  obtain ⟨-, hkept, -, hidempotent, hpath⟩ := words_of_class hname
  obtain ⟨last, hlast, hsame, -⟩ := hpath "blocks.HTTPServer"
  refine ⟨hname, by decide +kernel, hidempotent, hkept, last, hlast, fun path h => ?_⟩
  rw [hsame path h]
  decide +kernel

end Slug

end Redeploy
