import Mathlib.Computability.Language
import SiqiAuth.Lib.Text

/-!
# What a pattern matches

A `LIKE` pattern is a list of pieces, each of which stands for a language; the texts that it
matches are the product of these languages.  Between two `%`, a text without special characters
finds the texts that contain it, and no text with one does.

## Main definitions

* `Piece`, `pieces` — a pattern, read.
* `Piece.texts`, `texts` — the texts that a piece, and that a pattern, stands for.
* `like_iff` — `LIKE` matches these.
* `Contains` — a text is contained in another, character by character.
* `Plain` — a text without special characters.
* `like_contains_iff` — a pattern made of a text searches for it exactly if the text is plain.
-/

namespace SiqiAuth.Lib

/-- What a pattern is made of. -/
inductive Piece
  | run
  | one
  | char (e : Char)
  deriving DecidableEq, Repr

/-- The pieces of a pattern. -/
def pieces : List Char → List Piece
  | [] => []
  | '%' :: p => .run :: pieces p
  | '_' :: p => .one :: pieces p
  | '\\' :: e :: p => .char e :: pieces p
  | e :: p => .char e :: pieces p

theorem pieces_cons {e : Char} (hrun : e ≠ '%') (hone : e ≠ '_') (hescape : e ≠ '\\')
    (p : List Char) : pieces (e :: p) = .char e :: pieces p :=
  pieces.eq_5 e p hrun hone fun _ _ he _ => hescape he

/-- The texts of one character that satisfies `P`. -/
def letter (P : Char → Prop) : Language Char := {t | ∃ a, t = [a] ∧ P a}

variable (same : Char → Char → Bool)

/-- The texts that a piece stands for. -/
def Piece.texts : Piece → Language Char
  | run => ⊤
  | one => letter fun _ => True
  | char e => letter fun a => same e a = true

/-- The texts that a list of pieces stands for. -/
def texts (ps : List Piece) : Language Char := (ps.map (Piece.texts same)).prod

theorem texts_nil : texts same [] = 1 := rfl

theorem texts_cons (piece : Piece) (ps : List Piece) :
    texts same (piece :: ps) = piece.texts same * texts same ps := List.prod_cons

theorem texts_append (ps qs : List Piece) :
    texts same (ps ++ qs) = texts same ps * texts same qs := by
  rw [texts, List.map_append, List.prod_append]
  rfl

variable {same} {s t : List Char}

/-- A text that starts with a character, and what follows. -/
theorem cons_mem_letter_mul {l : Language Char} {P : Char → Prop} {a : Char} :
    a :: t ∈ letter P * l ↔ P a ∧ t ∈ l := by
  rw [Language.mem_mul]
  constructor
  · rintro ⟨w, ⟨b, rfl, hb⟩, u, hu, heq⟩
    obtain ⟨rfl, rfl⟩ := List.cons.inj heq
    exact ⟨hb, hu⟩
  · intro ⟨ha, ht⟩
    exact ⟨[a], ⟨a, rfl, ha⟩, t, ht, rfl⟩

theorem nil_notMem_letter_mul {l : Language Char} {P : Char → Prop} : [] ∉ letter P * l := by
  rintro ⟨w, ⟨b, rfl, -⟩, u, -, heq⟩
  cases heq

theorem mem_top_mul_iff {l : Language Char} : t ∈ ⊤ * l ↔ ∃ u, u <:+ t ∧ u ∈ l := by
  rw [Language.mem_mul]
  constructor
  · rintro ⟨w, -, u, hu, rfl⟩
    exact ⟨u, List.suffix_append w u, hu⟩
  · rintro ⟨u, ⟨w, rfl⟩, hu⟩
    exact ⟨w, trivial, u, hu, rfl⟩

/-- **`LIKE` matches the texts that the pattern stands for.** -/
theorem like_iff (p t : List Char) : like same p t = true ↔ t ∈ texts same (pieces p) := by
  induction p using pieces.induct generalizing t with
  | case1 => cases t <;> simp [like, pieces, texts_nil, Language.mem_one]
  | case2 p ih =>
      rw [like, pieces, texts_cons, Piece.texts, mem_top_mul_iff, List.any_eq_true]
      simp only [List.mem_tails, ih]
  | case3 p ih =>
      rw [pieces, texts_cons, Piece.texts]
      cases t with
      | nil => exact iff_of_false Bool.false_ne_true nil_notMem_letter_mul
      | cons a t => rw [like, cons_mem_letter_mul, true_and, ← ih]
  | case4 e p ih =>
      rw [pieces, texts_cons, Piece.texts]
      cases t with
      | nil => exact iff_of_false Bool.false_ne_true nil_notMem_letter_mul
      | cons a t => rw [like, cons_mem_letter_mul, Bool.and_eq_true, ih]
  | case5 e p hrun hone hescape ih =>
      have hpieces : pieces (e :: p) = .char e :: pieces p := by
        simp only [pieces]
      rw [hpieces, texts_cons, Piece.texts]
      cases t with
      | nil => exact iff_of_false (by simp [like]) nil_notMem_letter_mul
      | cons a t =>
          have hlike : like same (e :: p) (a :: t) = (same e a && like same p t) := by
            simp only [like]
          rw [hlike, cons_mem_letter_mul, Bool.and_eq_true, ih]

/-! ## Searching -/

/-- Some characters of `t` that stand together are equal to those of `s`. -/
def Contains (same : Char → Char → Bool) (s t : List Char) : Prop :=
  ∃ w, w <:+: t ∧ List.Forall₂ (fun e a => same e a = true) s w

instance (s t : List Char) : Decidable (Contains same s t) :=
  decidable_of_iff (∃ u ∈ t.tails, ∃ w ∈ u.inits, List.Forall₂ (fun e a => same e a = true) s w) <| by
    simp only [Contains, List.mem_tails, List.mem_inits, List.infix_iff_prefix_suffix]
    constructor
    · intro ⟨u, hu, w, hw, h⟩
      exact ⟨w, ⟨u, hw, hu⟩, h⟩
    · intro ⟨w, ⟨u, hw, hu⟩, h⟩
      exact ⟨u, hu, w, hw, h⟩

/-- The text has none of the characters that a pattern takes for something else. -/
def Plain (s : List Char) : Prop := ∀ a ∈ s, a ≠ '%' ∧ a ≠ '_' ∧ a ≠ '\\'

instance (s : List Char) : Decidable (Plain s) :=
  List.decidableBAll (fun a => a ≠ '%' ∧ a ≠ '_' ∧ a ≠ '\\') s

theorem pieces_plain (hs : Plain s) (p : List Char) :
    pieces (s ++ p) = s.map .char ++ pieces p := by
  induction s with
  | nil => rfl
  | cons a s ih =>
      obtain ⟨hrun, hone, hescape⟩ := hs a List.mem_cons_self
      have htail : Plain s := fun b hb => hs b (List.mem_cons_of_mem _ hb)
      rw [List.cons_append, pieces_cons hrun hone hescape, ih htail]
      rfl

theorem mem_texts_char {w : List Char} :
    w ∈ texts same (s.map .char) ↔ List.Forall₂ (fun e a => same e a = true) s w := by
  induction s generalizing w with
  | nil => simp [texts_nil, Language.mem_one]
  | cons e s ih =>
      rw [List.map_cons, texts_cons, Piece.texts]
      cases w with
      | nil => exact iff_of_false nil_notMem_letter_mul (by simp)
      | cons a w => rw [cons_mem_letter_mul, ih, List.forall₂_cons]

theorem contains_iff_mem : Contains same s t ↔ t ∈ ⊤ * (texts same (s.map .char) * ⊤) := by
  rw [mem_top_mul_iff]
  simp only [Contains, Language.mem_mul, mem_texts_char, List.infix_iff_prefix_suffix]
  constructor
  · rintro ⟨w, ⟨u, ⟨v, rfl⟩, hu⟩, hw⟩
    exact ⟨w ++ v, hu, w, hw, v, trivial, rfl⟩
  · rintro ⟨u, hu, w, hw, v, -, rfl⟩
    exact ⟨w, ⟨w ++ v, List.prefix_append w v, hu⟩, hw⟩

/-- A plain text between two `%` is searched for. -/
theorem like_plain (hs : Plain s) (t : List Char) :
    like same ('%' :: (s ++ ['%'])) t = true ↔ Contains same s t := by
  have hlast : texts same (pieces ['%']) = ⊤ := by
    rw [pieces, pieces, texts_cons, texts_nil, mul_one]
    rfl
  rw [like_iff, contains_iff_mem, pieces, texts_cons, pieces_plain hs, texts_append, hlast]
  rfl

/-! ## What special characters change -/

/-- The shortest text that a list of pieces stands for, with `a` for any one character. -/
def shortest (a : Char) : List Piece → List Char
  | [] => []
  | .run :: ps => shortest a ps
  | .one :: ps => a :: shortest a ps
  | .char e :: ps => e :: shortest a ps

theorem shortest_mem (hsame : ∀ e, same e e = true) (a : Char) (ps : List Piece) :
    shortest a ps ∈ texts same ps := by
  induction ps with
  | nil => exact Language.nil_mem_one
  | cons piece ps ih =>
      rw [texts_cons]
      cases piece with
      | run => exact mem_top_mul_iff.mpr ⟨_, List.suffix_refl _, ih⟩
      | one => exact ⟨[a], ⟨a, rfl, trivial⟩, _, ih, rfl⟩
      | char e => exact ⟨[e], ⟨e, rfl, hsame e⟩, _, ih, rfl⟩

/-- A character that is special nowhere, or is an escape character that escapes the closing
`%`. -/
theorem shortest_cons {e : Char} {p : List Char} (hrun : e ≠ '%') (hone : e ≠ '_')
    (hescape : ∀ e' p', e = '\\' → p = e' :: p' → False) (a : Char) :
    (e = '\\' ∧ p = [] ∧ shortest a (pieces (e :: p ++ ['%'])) = ['%']) ∨ (e ≠ '\\' ∧
      shortest a (pieces (e :: p ++ ['%'])) = e :: shortest a (pieces (p ++ ['%']))) := by
  by_cases he : e = '\\'
  · subst he
    cases p with
    | nil => exact Or.inl ⟨rfl, rfl, by simp [pieces, shortest]⟩
    | cons e' p' => exact (hescape e' p' rfl rfl).elim
  · refine Or.inr ⟨he, ?_⟩
    rw [List.cons_append, pieces_cons hrun hone he, shortest]

theorem length_shortest_le (a : Char) (s : List Char) :
    (shortest a (pieces (s ++ ['%']))).length ≤ s.length := by
  induction s using pieces.induct with
  | case1 => simp [pieces, shortest]
  | case2 p ih => simp only [List.cons_append, pieces, shortest, List.length_cons]; omega
  | case3 p ih => simp only [List.cons_append, pieces, shortest, List.length_cons]; omega
  | case4 e p ih => simp only [List.cons_append, pieces, shortest, List.length_cons]; omega
  | case5 e p hrun hone hescape ih =>
      rcases shortest_cons hrun hone hescape a with ⟨-, rfl, hshort⟩ | ⟨-, hshort⟩
      · rw [hshort]
        exact Nat.le_refl 1
      · rw [hshort, List.length_cons, List.length_cons]
        omega

/-- A text that is equal to the shortest one that it searches for is plain. -/
theorem plain_of_shortest {a : Char} (hone : same '_' a = false) (hescape : same '\\' '%' = false)
    (h : List.Forall₂ (fun e a => same e a = true) s (shortest a (pieces (s ++ ['%'])))) :
    Plain s := by
  have hlength := h.length_eq
  induction s using pieces.induct with
  | case1 => exact fun b hb => absurd hb List.not_mem_nil
  | case2 p ih =>
      have hle := length_shortest_le a p
      simp only [List.cons_append, pieces, shortest, List.length_cons] at hlength
      omega
  | case3 p ih =>
      simp only [List.cons_append, pieces, shortest, List.forall₂_cons] at h
      simp [hone] at h
  | case4 e p ih =>
      have hle := length_shortest_le a p
      simp only [List.cons_append, pieces, shortest, List.length_cons] at hlength
      omega
  | case5 e p hrun' hone' hescape' ih =>
      rcases shortest_cons hrun' hone' hescape' a with ⟨rfl, rfl, hshort⟩ | ⟨he, hshort⟩
      · rw [hshort, List.forall₂_cons, hescape] at h
        exact absurd h.1 Bool.false_ne_true
      · rw [hshort, List.forall₂_cons] at h
        intro b hb
        rcases List.mem_cons.mp hb with rfl | hb
        · exact ⟨hrun', hone', he⟩
        · exact ih h.2 h.2.length_eq b hb

/-- The special characters of a pattern are compared like others: `\` is not `%`, and `_` is not
equal to all characters. -/
structure Collation.TellsSpecial (c : Collation) : Prop where
  escape : c.sameChar '\\' '%' = false
  one : ∃ a, c.sameChar '_' a = false

/-- **A pattern made of a text searches for it exactly if the text is plain.** -/
theorem like_contains_iff {c : Collation} (hc : c.TellsSpecial) (s : List Char) :
    (∀ t, like c.sameChar ('%' :: (s ++ ['%'])) t = true ↔ Contains c.sameChar s t) ↔ Plain s := by
  obtain ⟨a, hone⟩ := hc.one
  constructor
  · intro h
    have hmatch :
        like c.sameChar ('%' :: (s ++ ['%'])) (shortest a (pieces (s ++ ['%']))) = true := by
      rw [like_iff, pieces]
      exact shortest_mem c.sameChar_refl a (.run :: pieces (s ++ ['%']))
    obtain ⟨w, hw, hequal⟩ := (h _).mp hmatch
    -- The window is all of the text, which is not longer than `s`.
    have hle := length_shortest_le a s
    rw [hequal.length_eq] at hle
    rw [hw.eq_of_length_le hle] at hequal
    exact plain_of_shortest hone hc.escape hequal
  · exact fun hs t => like_plain hs t

end SiqiAuth.Lib
