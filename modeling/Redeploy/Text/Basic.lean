import Redeploy.Text.CharClass

set_option autoImplicit false

/-! # Texts and byte offsets

A text is a list of characters. Positions in it are byte offsets of its UTF-8 form, since that is
what every span and every edit of a script counts in. An offset inside a character is no position:
`splitAt?` answers `none` there, so a cut can neither lose nor tear a character, and the two parts
of a cut always put the text together again. -/

namespace Redeploy

/-- A text: its characters in order. -/
abbrev Text := List Char

namespace Text

/-! ## Sizes and cuts -/

/-- The length of a text in bytes of UTF-8. -/
def size (t : Text) : Nat :=
  t.foldr (fun c n => c.utf8Size + n) 0

@[simp] theorem size_nil : size [] = 0 := rfl

@[simp] theorem size_cons (c : Char) (t : Text) : size (c :: t) = c.utf8Size + size t := rfl

@[simp] theorem size_append (s t : Text) : size (s ++ t) = size s + size t := by
  induction s with
  | nil => simp
  | cons c s ih => rw [List.cons_append, size_cons, size_cons, ih, Nat.add_assoc]

/-- Cut a text at a byte offset; `none` past the end and inside a character. -/
def splitAt? : Text → Nat → Option (Text × Text)
  | t, 0 => some ([], t)
  | [], _ + 1 => none
  | c :: t, n + 1 =>
    if c.utf8Size ≤ n + 1 then
      (splitAt? t (n + 1 - c.utf8Size)).map fun parts => (c :: parts.1, parts.2)
    else none

/-- Cutting after a first part gives that part and the rest. -/
theorem splitAt?_append (s t : Text) : splitAt? (s ++ t) s.size = some (s, t) := by
  induction s with
  | nil => cases t <;> rfl
  | cons c s ih =>
    have hc : 0 < c.utf8Size := c.utf8Size_pos
    obtain ⟨n, hn⟩ : ∃ n, size (c :: s) = n + 1 := ⟨size (c :: s) - 1, by simp; omega⟩
    have hle : c.utf8Size ≤ n + 1 := by rw [← hn]; simp
    have hsub : n + 1 - c.utf8Size = size s := by rw [← hn]; simp
    rw [hn, List.cons_append, splitAt?, if_pos hle, hsub, ih]
    rfl

/-- The parts of a cut make up the text, and the first one ends at the offset. -/
theorem eq_append_of_splitAt? {t a b : Text} {n : Nat} (h : splitAt? t n = some (a, b)) :
    t = a ++ b ∧ a.size = n := by
  induction t generalizing n a b with
  | nil =>
    cases n with
    | zero => simp only [splitAt?, Option.some.injEq, Prod.mk.injEq] at h; simp [← h.1, ← h.2]
    | succ n => simp [splitAt?] at h
  | cons c t ih =>
    cases n with
    | zero => simp only [splitAt?, Option.some.injEq, Prod.mk.injEq] at h; simp [← h.1, ← h.2]
    | succ n =>
      rw [splitAt?] at h
      split at h
      · next hle =>
        obtain ⟨⟨x, y⟩, hxy, hab⟩ := Option.map_eq_some_iff.1 h
        simp only [Prod.mk.injEq] at hab
        obtain ⟨ht, hs⟩ := ih hxy
        rw [← hab.1, ← hab.2, ht]
        exact ⟨rfl, by simp [hs]; omega⟩
      · simp at h

/-- The part of a text from one byte offset to another; `none` if the offsets are inverted, out of
    range or inside a character. -/
def slice? (t : Text) (start stop : Nat) : Option Text :=
  if start ≤ stop then
    (t.splitAt? start).bind fun parts => (parts.2.splitAt? (stop - start)).map (·.1)
  else none

/-- The part of a text between two byte offsets, and nothing where there is no such part. -/
def slice (t : Text) (start stop : Nat) : Text :=
  (t.slice? start stop).getD []

/-- The rest of a text from a byte offset on, and nothing where there is no such rest. -/
def dropBytes (t : Text) (n : Nat) : Text :=
  ((t.splitAt? n).map (·.2)).getD []

/-! ## Lines -/

/-- The first line of a text, without the line feed that ends it. -/
def firstLine (t : Text) : Text :=
  t.takeWhile (· != '\n')

/-- The offset just past the line feed that ends the line an offset is on; the end of the text if
    no line feed follows. -/
def lineEnd (t : Text) (offset : Nat) : Nat :=
  let rest := t.dropBytes offset
  if rest.contains '\n' then offset + size rest.firstLine + 1 else t.size

/-! ## Searching -/

/-- Whether a text holds only blank characters. -/
def isBlank (t : Text) : Bool :=
  t.all isBlankChar

/-- The text without the blank characters it starts with. -/
def trimStart (t : Text) : Text :=
  t.dropWhile isBlankChar

/-- What follows the first occurrence of a word; `none` if the word does not occur. -/
def afterFirst? (word : Text) : Text → Option Text
  | [] => if word.isEmpty then some [] else none
  | c :: t => if word.isPrefixOf (c :: t) then some ((c :: t).drop word.length)
    else afterFirst? word t

/-- The pieces of a text between the characters of a class: always at least one piece. -/
def splitWhere (p : Char → Bool) : Text → List Text
  | [] => [[]]
  | c :: t =>
    match splitWhere p t with
    | [] => [[]]
    | piece :: pieces => if p c then [] :: piece :: pieces else (c :: piece) :: pieces

/-- The pieces of a text between the occurrences of a character. -/
def splitOn (sep : Char) (t : Text) : List Text :=
  splitWhere (fun c => c == sep) t

/-- The parts of a text before and after the first occurrence of a character. -/
def splitFirst? (sep : Char) : Text → Option (Text × Text)
  | [] => none
  | c :: t =>
    if c = sep then some ([], t)
    else (splitFirst? sep t).map fun parts => (c :: parts.1, parts.2)

end Text

end Redeploy
