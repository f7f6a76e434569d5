import Redeploy.Proofs.Yaml.Scalar
import Redeploy.Proofs.Yaml.Word

set_option autoImplicit false

/-! # Marks of a block

The keys of a mapping, the dashes of a sequence that is not indented, and the brackets of an empty one
are read as the tokens they are. A key stands in an open block, opens a block, or closes the block
before it (`Layout.Enters`). -/

namespace Redeploy.Yaml

open Written

variable {i j k : Nat} {t u w : Text} {indents indents' indents'' outer : List Nat}
  {tokens opening ts us : List Token}

namespace Layout

/-! ## Blocks and keys -/

/-- What becomes of the open blocks where an entry of a mapping starts at a column, and the tokens that
    say so. -/
inductive Enters (k : Nat) : List Nat → List Token → List Nat → Prop
  | same {outer : List Nat} : Enters k (k :: outer) [] (k :: outer)
  | deeper {indents : List Nat} (h : ∀ n ∈ indents.head?, n < k) :
    Enters k indents [.blockMapping] (k :: indents)
  | back {n : Nat} {outer : List Nat} (h : k < n) : Enters k (n :: k :: outer) [.blockEnd] (k :: outer)

/-- The layout behind the token of a key. -/
def keyed (indents : List Nat) (t : Text) (tokens : List Token) (g : Glyph) : Layout :=
  (block indents false (.scalar t .plain :: tokens)).withKey (possibleKey indents true tokens g)

/-- The tokens of a key are put in before its text. -/
theorem keyed_startValue (tokens : List Token) (g d : Glyph) :
    (keyed indents t tokens g).startValue d =
      some (if (block indents true tokens).isDeeper g.column then
        block (g.column :: indents) false (.value :: .scalar t .plain :: .key :: .blockMapping :: tokens)
      else block indents false (.value :: .scalar t .plain :: .key :: tokens)) := by
  have hkey : (keyed indents t tokens g).insertAt tokens.length .key =
      (block indents false (.scalar t .plain :: .key :: tokens)).withKey
        (possibleKey indents true tokens g) := by
    have hone : tokens.length + 1 - tokens.length = 1 := by omega
    simp [keyed, insertAt, block, withKey, hone]
  have hdeeper : ((keyed indents t tokens g).insertAt tokens.length .key).isDeeper g.column =
    (block indents true tokens).isDeeper g.column := rfl
  have hposition : (keyed indents t tokens g).startValue d =
      some (({ ((keyed indents t tokens g).insertAt tokens.length .key).openBlock g.column tokens.length
        .blockMapping with key := none }.allowKey false).push .value) := rfl
  have hflow : ((keyed indents t tokens g).insertAt tokens.length .key).inFlow = false := rfl
  rw [hposition, openBlock, hflow, hdeeper, hkey]
  cases (block indents true tokens).isDeeper g.column with
  | false => rfl
  | true =>
    have htwo : tokens.length + 1 + 1 - tokens.length = 2 := by omega
    simp [insertAt, block, withKey, htwo, push, allowKey]

theorem Enters.exists_closeTo (h : Enters k indents opening indents') (tokens : List Token) :
    ∃ indents₁ tokens₁, (block indents true tokens).closeTo k = block indents₁ true tokens₁ ∧
      (∀ n ∈ indents₁.head?, n ≤ k) ∧ ∀ g d : Glyph, g.column = k →
        (keyed indents₁ t tokens₁ g).startValue d =
          some (block indents' false (.value :: .scalar t .plain :: .key :: (opening ++ tokens))) := by
  have hsame : ∀ outer T, (block (k :: outer) true T).isDeeper k = false := fun _ _ =>
    decide_eq_false (Nat.not_succ_le_self k)
  cases h with
  | same =>
    refine ⟨_, _, block_closeTo (Nat.le_refl k), by simp, fun g d hg => ?_⟩
    rw [keyed_startValue, hg, hsame]
    rfl
  | deeper h =>
    have hle : ∀ n ∈ indents.head?, n ≤ k := fun n hn => Nat.le_of_lt (h n hn)
    refine ⟨_, _, closeTo_eq_self rfl hle, hle, fun g d hg => ?_⟩
    have hdeeper : (block indents true tokens).isDeeper k = true := by
      cases indents with
      | nil => rfl
      | cons n outer => exact decide_eq_true (h n rfl)
    rw [keyed_startValue, hg, hdeeper]
    rfl
  | @back n outer h =>
    refine ⟨k :: outer, .blockEnd :: tokens, ?_, by simp, fun g d hg => ?_⟩
    · simp [closeTo, block, inFlow, closeDeeper, h]
    · rw [keyed_startValue, hg, hsame]
      rfl

end Layout

/-- Whether a text can be the name of a setting, which is written as it is. -/
def isLabel (t : Text) : Bool :=
  t.all isNameChar && t.head?.any isAsciiLetter && t.length ≤ maxKeyLength

theorem isLabel_spec (h : isLabel t = true) : allowsPlain t = true ∧ (∀ c ∈ t, isNameChar c = true) ∧
    t.length ≤ maxKeyLength ∧ ∃ c r, t = c :: r ∧ isAsciiLetter c = true := by
  simp only [isLabel, Bool.and_eq_true, List.all_eq_true, decide_eq_true_eq] at h
  obtain ⟨⟨hname, hletter⟩, hlength⟩ := h
  cases t with
  | nil => cases hletter
  | cons c r =>
    refine ⟨allowsPlain_of_name hname ?_, hname, hlength, c, r, rfl, hletter⟩
    rintro d hd rfl
    obtain rfl := Option.some.inj hd
    cases hletter

/-- The line of a key does not lie as deep as what is within its block. -/
theorem follows_label {n : Nat} (ht : isLabel t = true) (hk : k < n) (u : Text) :
    Follows n (List.replicate k ' ' ++ (t ++ u)) := by
  obtain ⟨hplain, -, -, c, r, rfl, -⟩ := isLabel_spec ht
  obtain ⟨hblank, hbreak, -⟩ := allowsPlain_start hplain
  exact .line hk hblank hbreak

namespace Layout

theorem keyed_dropDistantKeys {g d : Glyph} (hline : g.line = d.line)
    (hcolumn : d.column ≤ g.column + maxKeyLength) :
    (keyed indents t tokens g).dropDistantKeys d = some (keyed indents t tokens g) := by
  have hreaches : PossibleKey.reaches ⟨indents.head? == some g.column, tokens.length, g.line, g.column⟩ d =
      true := by
    simp [PossibleKey.reaches, hline, hcolumn]
  have hreaching : reachingKey d (keyed indents t tokens g).key =
      some (keyed indents t tokens g).key := by
    simp [keyed, withKey, possibleKey, reachingKey, hreaches]
  rw [dropDistantKeys, hreaching]
  rfl

/-- The colon behind a key. -/
theorem Leads.colon {g : Glyph} {m : Nat} {s : Layout} (hm : 0 < m) (hlength : m ≤ maxKeyLength)
    (hhead : ∀ n ∈ indents.head?, n ≤ g.column)
    (hvalue : ∀ d, (keyed indents t tokens g).startValue d = some s)
    (hu : atGap (glyphsFrom g.line (g.column + m + 1) u) = true) :
    Leads (keyed indents t tokens g) (glyphsFrom g.line (g.column + m) (':' :: u))
      s (glyphsFrom g.line (g.column + m + 1) u) := by
  have hclose : (keyed indents t tokens g).closeTo (g.column + m) = keyed indents t tokens g :=
    closeTo_eq_self rfl fun n hn => Nat.le_trans (hhead n hn) (Nat.le_add_right ..)
  have hcolumn : g.column + m ≠ 0 := by omega
  have hmarker := fun mark => atMarker_of_column (g := ⟨':', g.line, g.column + m⟩) mark hcolumn
    (glyphsFrom g.line (g.column + m + 1) u)
  rw [glyphsFrom_cons (by rfl)]
  refine .token rfl rfl (show ':' ≠ '#' by decide)
    (keyed_dropDistantKeys rfl (Nat.add_le_add_left hlength _)) ?_ (fun _ => rfl) (Nat.le_refl _)
  rw [hclose]
  simp [readToken, hmarker, hu, hvalue]

/-- A key opens an entry of its mapping. -/
theorem Leads.key (ht : isLabel t = true) (henters : Enters k indents opening indents')
    (hu : atGap (glyphsFrom i (k + t.length + 1) u) = true) :
    Leads (block indents true tokens) (glyphsFrom i 0 (List.replicate k ' ' ++ (t ++ ':' :: u)))
      (block indents' false (.value :: .scalar t .plain :: .key :: (opening ++ tokens)))
      (glyphsFrom i (k + t.length + 1) u) := by
  obtain ⟨hplain, hname, hlength, c, r, rfl, hletter⟩ := isLabel_spec ht
  obtain ⟨hblank, hbreak, hmark, hstart⟩ := allowsPlain_start hplain
  obtain ⟨indents₁, tokens₁, hclose, hhead, hvalue⟩ := henters.exists_closeTo (t := c :: r) tokens
  have hspace : ' ' ∉ c :: r := fun hmem => absurd (hname ' ' hmem) (by decide)
  have hread := Plain.read?_key hplain (List.cons_ne_nil c r) hspace (block indents₁ true tokens₁).inner hu
  have hmarker : atDocumentMarker (⟨c, i, k⟩ :: glyphsFrom i (k + 1) (r ++ ':' :: u)) = false := by
    have hne : ∀ d, isAsciiLetter d = false → c ≠ d := by
      rintro d hd rfl
      simp [hd] at hletter
    rw [atDocumentMarker, atMarker_eq_false (.inr (.inl (hne _ (by decide)))),
      atMarker_eq_false (.inr (.inl (hne _ (by decide))))]
    rfl
  have hstarts := (hstart i k (':' :: u)).startsHere hblank hbreak
  rw [List.cons_append, glyphsFrom_cons hbreak] at hread
  have htext : ((block indents true tokens).closeTo k).readToken ⟨c, i, k⟩
      (glyphsFrom i (k + 1) (r ++ ':' :: u)) =
        some (keyed indents₁ (c :: r) tokens₁ ⟨c, i, k⟩, glyphsFrom i (k + (c :: r).length) (':' :: u)) := by
    rw [hclose, (hstart i k (':' :: u)).readToken rfl hmarker, readPlain]
    have hflow : (block indents₁ true tokens₁).inFlow = false := rfl
    simp only [hflow, hstarts, hread, block_node, Bool.not_true, Bool.false_eq_true, if_false,
      Option.bind_eq_bind, Option.bind_some, Option.pure_def]
    rfl
  have hcolon := Leads.colon (g := ⟨c, i, k⟩) (Nat.succ_pos r.length) hlength hhead
    (fun d => hvalue ⟨c, i, k⟩ d rfl) hu
  refine (Leads.spaces _ i 0 k _).trans ?_
  rw [Nat.zero_add, List.cons_append, glyphsFrom_cons hbreak]
  refine Leads.trans (.token hblank hbreak hmark (block_dropDistantKeys _) htext (fun _ => rfl) ?_) hcolon
  simp [length_glyphsFrom]

/-! ## Dashes -/

/-- A dash opens an item of a sequence that lies no deeper than its mapping. -/
theorem Leads.dash (k i : Nat) (u : Text) : Leads (block (k :: outer) true tokens)
    (glyphsFrom i 0 (List.replicate k ' ' ++ '-' :: ' ' :: u)) (block (k :: outer) true (.dash :: tokens))
    (glyphsFrom i (k + 2) u) := by
  have hnext : glyphsFrom i (k + 1) (' ' :: u) = ⟨' ', i, k + 1⟩ :: glyphsFrom i (k + 2) u :=
    glyphsFrom_cons rfl ..
  have hmarker : atMarker '-' (⟨'-', i, k⟩ :: glyphsFrom i (k + 1) (' ' :: u)) = false := by
    rw [hnext]
    exact atMarker_eq_false (.inr (.inr (by simp)))
  have hmarker' : atMarker '.' (⟨'-', i, k⟩ :: glyphsFrom i (k + 1) (' ' :: u)) = false :=
    atMarker_eq_false (.inr (.inl (show '-' ≠ '.' by decide)))
  have hgap : atGap (glyphsFrom i (k + 1) (' ' :: u)) = true := by
    rw [hnext]
    rfl
  have hentry : (block (k :: outer) true tokens).startEntry ⟨'-', i, k⟩ .blockSequence .dash true =
      some (block (k :: outer) true (.dash :: tokens)) := by
    have hdeeper : (block (k :: outer) true tokens).isDeeper k = false :=
      decide_eq_false (Nat.not_succ_le_self k)
    rw [startEntry, openBlock, hdeeper, Bool.and_false]
    rfl
  refine (Leads.spaces _ i 0 k _).trans (.trans ?_ (Leads.space _ i (k + 1) u))
  rw [Nat.zero_add, glyphsFrom_cons (by rfl)]
  refine .token rfl rfl (show '-' ≠ '#' by decide) (block_dropDistantKeys _) ?_ (fun _ => rfl)
    (Nat.le_refl _)
  rw [block_closeTo (Nat.le_refl k)]
  simp [readToken, hmarker, hmarker', hgap, hentry]

/-! ## Brackets -/

/-- A sequence without items. -/
theorem Leads.brackets {n : Nat} (hn : n < j) (i : Nat) (u : Text) : Leads (block (n :: outer) false tokens)
    (glyphsFrom i j ('[' :: ']' :: '\n' :: u))
    (block (n :: outer) true (.closeBracket :: .openBracket :: tokens)) (glyphsFrom (i + 1) 0 u) := by
  have hmarker := fun c mark gs => atMarker_of_column (g := ⟨c, i, j⟩) mark (Nat.ne_zero_of_lt hn) gs
  have hmarker' := fun c mark gs => atMarker_of_column (g := ⟨c, i, j + 1⟩) mark (Nat.succ_ne_zero j) gs
  let s : Layout := ⟨.openBracket :: tokens, tokens.length + 1, n :: outer, true, none, [none]⟩
  have hopen : Leads (block (n :: outer) false tokens) (glyphsFrom i j ('[' :: ']' :: '\n' :: u)) s
      (glyphsFrom i (j + 1) (']' :: '\n' :: u)) := by
    rw [glyphsFrom_cons (by rfl)]
    refine .token rfl rfl (show '[' ≠ '#' by decide) (block_dropDistantKeys _) ?_ (fun _ => rfl)
      (Nat.le_refl _)
    rw [block_closeTo (Nat.le_of_lt hn)]
    simp [readToken, hmarker]
    rfl
  have hclose : Leads s (glyphsFrom i (j + 1) (']' :: '\n' :: u))
      (block (n :: outer) false (.closeBracket :: .openBracket :: tokens))
      (glyphsFrom i (j + 2) ('\n' :: u)) := by
    have hkeys : s.dropDistantKeys ⟨']', i, j + 1⟩ = some s := rfl
    rw [glyphsFrom_cons (by rfl)]
    refine .token rfl rfl (show ']' ≠ '#' by decide) hkeys ?_ (fun _ => rfl) (Nat.le_refl _)
    simp [readToken, hmarker']
    rfl
  refine hopen.trans (hclose.trans ((Alike.break rfl i (j + 2) u).leads ?_))
  simp only [length_glyphsFrom, List.length_cons]
  omega

/-! ## Whole lines -/

/-- Lines that are read as tokens, wherever they stand; the open blocks may be others behind them. -/
def ReadsAs (indents : List Nat) (t u : Text) (ts : List Token) (indents' : List Nat) : Prop :=
  ∀ i tokens, ∃ j, Leads (block indents true tokens) (glyphsFrom i 0 (t ++ u))
    (block indents' true (ts.reverse ++ tokens)) (glyphsFrom j 0 u)

/-- What stands behind the colon of a key and is read as tokens. -/
def ValueReadsAs (n : Nat) (outer : List Nat) (t u : Text) (ts : List Token) (indents' : List Nat) : Prop :=
  ∀ i j tokens, n < j → ∃ i', Leads (block (n :: outer) false tokens) (glyphsFrom i j (t ++ u))
    (block indents' true (ts.reverse ++ tokens)) (glyphsFrom i' 0 u)

theorem ReadsAs.nil (indents : List Nat) (u : Text) : ReadsAs indents [] u [] indents :=
  fun i _ => ⟨i, 0, Nat.le_of_eq (Nat.zero_add _), fun _ => rfl⟩

theorem ReadsAs.append (h : ReadsAs indents t (w ++ u) ts indents')
    (h' : ReadsAs indents' w u us indents'') : ReadsAs indents (t ++ w) u (ts ++ us) indents'' := by
  intro i tokens
  obtain ⟨j, hleads⟩ := h i tokens
  obtain ⟨j', hleads'⟩ := h' j (ts.reverse ++ tokens)
  refine ⟨j', ?_⟩
  rw [List.append_assoc, List.reverse_append, List.append_assoc]
  exact hleads.trans hleads'

/-- An entry of a mapping is a key and its value. -/
theorem ReadsAs.entry (ht : isLabel t = true) (henters : Enters k indents opening (k :: outer))
    (hw : w.head?.any (fun c => isBlank c || isBreak c) = true)
    (hvalue : ValueReadsAs k outer w u ts indents') :
    ReadsAs indents (List.replicate k ' ' ++ (t ++ ':' :: w)) u
      (opening ++ .key :: .scalar t .plain :: .value :: ts) indents' := by
  intro i tokens
  obtain ⟨j, hleads⟩ := hvalue i (k + t.length + 1)
    (.value :: .scalar t .plain :: .key :: (opening ++ tokens)) (by omega)
  have hgap : atGap (glyphsFrom i (k + t.length + 1) (w ++ u)) = true := by
    cases w with
    | nil => cases hw
    | cons c w => exact hw
  have hopening : opening.reverse = opening := by
    cases henters <;> rfl
  refine ⟨j, ?_⟩
  have htext : List.replicate k ' ' ++ (t ++ ':' :: w) ++ u =
      List.replicate k ' ' ++ (t ++ ':' :: (w ++ u)) := by
    simp
  have htokens : (opening ++ .key :: .scalar t .plain :: .value :: ts).reverse ++ tokens =
      ts.reverse ++ .value :: .scalar t .plain :: .key :: (opening ++ tokens) := by
    simp [hopening]
  rw [htext, htokens]
  exact (Leads.key ht henters hgap).trans hleads

/-- A scalar behind a key. -/
theorem ValueReadsAs.scalar {n : Nat} (hu : Follows (n + 1) u) (t : Text) :
    ValueReadsAs n outer (' ' :: Written.scalar (n + 2) t) u [.scalar t (scalarStyle t)] (n :: outer) := by
  intro i j tokens hj
  obtain ⟨i', hleads⟩ := exists_leads_scalar (Nat.lt_succ_of_lt hj) hu i t
  exact ⟨i', (Leads.space _ i j _).trans hleads⟩

/-- A text that needs no quotes behind a key. -/
theorem ValueReadsAs.plain {n : Nat} (h : allowsPlain t = true) (ht : t ≠ []) (hu : Follows (n + 1) u) :
    ValueReadsAs n outer (' ' :: (t ++ ['\n'])) u [.scalar t .plain] (n :: outer) := by
  intro i j tokens hj
  have htext : ' ' :: (t ++ ['\n']) ++ u = ' ' :: (t ++ '\n' :: u) := by simp
  rw [htext]
  exact ⟨i + 1, (Leads.space _ i j _).trans (.plain h ht (Nat.lt_succ_of_lt hj) hu i)⟩

/-- A sequence without items behind a key. -/
theorem ValueReadsAs.brackets (n : Nat) (outer : List Nat) (u : Text) :
    ValueReadsAs n outer " []\n".toList u [.openBracket, .closeBracket] (n :: outer) := by
  intro i j tokens hj
  exact ⟨i + 1, (Leads.space _ i j _).trans (.brackets (Nat.lt_succ_of_lt hj) i u)⟩

/-- A value on the lines below its key. -/
theorem ValueReadsAs.below {n : Nat} (h : ReadsAs (n :: outer) t u ts indents') :
    ValueReadsAs n outer ('\n' :: t) u ts indents' := by
  intro i j tokens _
  obtain ⟨i', hleads⟩ := h (i + 1) tokens
  refine ⟨i', .trans ((Alike.break rfl i j (t ++ u)).leads ?_) hleads⟩
  simp only [length_glyphsFrom, List.length_cons]
  omega

/-- A scalar that is the item of a sequence. -/
theorem ReadsAs.item {n : Nat} (hu : Follows (n + 1) u) (t : Text) : ReadsAs (n :: outer)
    (List.replicate n ' ' ++ '-' :: ' ' :: scalar (n + 2) t) u [.dash, .scalar t (scalarStyle t)]
      (n :: outer) := by
  intro i tokens
  obtain ⟨j, hleads⟩ := exists_leads_scalar (show n < n + 2 by omega) hu i t
  have htext : List.replicate n ' ' ++ '-' :: ' ' :: scalar (n + 2) t ++ u =
      List.replicate n ' ' ++ '-' :: ' ' :: (scalar (n + 2) t ++ u) := by
    simp
  rw [htext]
  exact ⟨j, (Leads.dash n i _).trans hleads⟩

/-- The tokens of a whole text: the blocks that are open at its end are closed. -/
theorem ReadsAs.tokens?_eq (h : ReadsAs [] t [] ts indents) (ht : ∀ c ∈ t, isPrintable c = true) :
    tokens? t = some (ts ++ List.replicate indents.length .blockEnd) := by
  obtain ⟨j, hleads⟩ := h 0 []
  rw [List.append_nil, List.append_nil] at hleads
  have hread := hleads.readAll_eq
  rw [tokens?, glyphs?_of_isPrintable ht]
  refine hread.trans ?_
  have hclose : (block indents true ts.reverse).closeAll.dropKey =
      some (block indents true ts.reverse).closeAll := rfl
  have htokens : (block indents true ts.reverse).closeAll.tokens =
      List.replicate indents.length .blockEnd ++ ts.reverse := rfl
  rw [hclose, Option.map_some, htokens]
  simp

end Layout

end Redeploy.Yaml
