import Mathlib.Data.String.Basic

/-!
# Character columns

How a relational server treats text: a `VARCHAR` column keeps a value up to its width,
a collation decides which strings are equal, `LIKE` matches patterns character by
character, `GROUP_CONCAT` joins the strings of a group and cuts the result, and a C++
stream cuts such a string apart again.

## Main definitions

* `varchar` — what a `VARCHAR` column keeps of a value.
* `Collation` — the equality of a character column.
* `Collation.binary` — the collation in which only identical strings are equal.
* `Collation.caseInsensitive` — one in which capital and small letters are equal.
* `Collation.ignoring` — one in which some characters have no weight.
* `like` — `LIKE` patterns.
* `groupConcat` — `GROUP_CONCAT`.
* `getlines` — reading a string with `std::getline` until it is exhausted.
-/

namespace SiqiAuth.Lib

/-! ## Widths -/

/-- What a `VARCHAR` column of the width keeps of a value.  When all that exceeds the width
are spaces they are cut off, whatever the SQL mode; another value that is longer than the
column is left as it is, and refused. -/
def varchar (width : ℕ) (s : String) : String :=
  if width < s.length ∧ (s.toList.drop width).all (· == ' ') then
    String.ofList (s.toList.take width)
  else s

variable {width : ℕ}

theorem varchar_of_le {s : String} (h : s.length ≤ width) : varchar width s = s := by
  rw [varchar, if_neg fun hlong => Nat.not_lt.mpr h hlong.1]

theorem map_varchar_of_le {s : Option String} (h : ∀ x ∈ s, x.length ≤ width) :
    s.map (varchar width) = s := by
  cases s with
  | none => rfl
  | some s => exact congrArg some (varchar_of_le (h s rfl))

/-- What is kept is kept as it is. -/
@[simp] theorem varchar_varchar (width : ℕ) (s : String) :
    varchar width (varchar width s) = varchar width s := by
  by_cases h : width < s.length ∧ (s.toList.drop width).all (· == ' ')
  · refine varchar_of_le ?_
    rw [varchar, if_pos h]
    simp
  · have hkept : varchar width s = s := if_neg h
    rw [hkept, hkept]

example : varchar 3 "ab  " = "ab " := by decide

/-! ## Collations -/

/-- When a column takes two values to be equal.  Nothing is assumed of whole strings
but that this is an equivalence: `Collation.binary` and the case-insensitive
collations are instances alike. -/
structure Collation where
  /-- Equality of whole strings, as `=` and the unique keys test it. -/
  same : String → String → Bool
  same_refl : ∀ s, same s s = true
  same_symm : ∀ s t, same s t = same t s
  same_trans : ∀ s t u, same s t = true → same t u = true → same s u = true
  /-- Equality of single characters, as `LIKE` tests it. -/
  sameChar : Char → Char → Bool
  sameChar_refl : ∀ c, sameChar c c = true
  /-- Equality of a number with a string, which the server converts to a number. -/
  sameNumber : ℤ → String → Bool

namespace Collation

attribute [simp] same_refl sameChar_refl

/-- The collation of identical strings. -/
def binary : Collation where
  same s t := decide (s = t)
  same_refl := by simp
  same_symm s t := by simp [eq_comm]
  same_trans := by simp
  sameChar a b := decide (a = b)
  sameChar_refl := by simp
  sameNumber n s := decide (toString n = s)

/-- A collation that does not tell capital letters from small ones. -/
def caseInsensitive : Collation where
  same s t := decide (s.toList.map Char.toLower = t.toList.map Char.toLower)
  same_refl := by simp
  same_symm s t := by simp [eq_comm]
  same_trans s t u hst htu := by
    simp only [decide_eq_true_eq] at hst htu ⊢
    rw [hst, htu]
  sameChar a b := decide (a.toLower = b.toLower)
  sameChar_refl := by simp
  sameNumber n s := decide (toString n = s)

/-- A collation in which the characters that satisfy `p` have no weight. -/
def ignoring (p : Char → Bool) : Collation where
  same s t := decide ((s.toList.filter fun a => !p a) = t.toList.filter fun a => !p a)
  same_refl := by simp
  same_symm s t := by simp [eq_comm]
  same_trans s t u hst htu := by
    simp only [decide_eq_true_eq] at hst htu ⊢
    rw [hst, htu]
  sameChar a b := decide (a = b)
  sameChar_refl := by simp
  sameNumber n s := decide (toString n = s)

variable (c : Collation) {s t u : String}

theorem same_comm (h : c.same s t = true) : c.same t s = true := by
  rw [c.same_symm]
  exact h

/-- Equal strings compare alike with any third. -/
theorem same_congr_left (h : c.same s t = true) (u : String) : c.same s u = c.same t u := by
  rw [Bool.eq_iff_iff]
  exact ⟨c.same_trans _ _ _ (c.same_comm h), c.same_trans _ _ _ h⟩

theorem same_congr_right (h : c.same s t = true) (u : String) : c.same u s = c.same u t := by
  rw [c.same_symm u s, c.same_symm u t]
  exact c.same_congr_left h u

@[simp] theorem same_binary : binary.same s t = decide (s = t) := rfl

end Collation

/-! ## Patterns -/

/-- `s LIKE p`: `%` stands for any run of characters, `_` for one, and `\` makes the
next character literal. -/
def like (sameChar : Char → Char → Bool) : List Char → List Char → Bool
  | [], s => s.isEmpty
  | '%' :: p, s => s.tails.any (like sameChar p)
  | '_' :: p, s =>
      match s with
      | [] => false
      | _ :: s => like sameChar p s
  | '\\' :: e :: p, s =>
      match s with
      | [] => false
      | a :: s => sameChar e a && like sameChar p s
  | e :: p, s =>
      match s with
      | [] => false
      | a :: s => sameChar e a && like sameChar p s

/-! ## Concatenation and splitting -/

/-- As many leading characters as fit in `n` bytes of UTF-8. -/
def takeBytes : ℕ → List Char → List Char
  | _, [] => []
  | n, a :: s => if a.utf8Size ≤ n then a :: takeBytes (n - a.utf8Size) s else []

/-- `group_concat_max_len`, at its default. -/
def groupConcatMaxLen : ℕ := 1024

/-- `GROUP_CONCAT` over the values of a group that are not `NULL`; `NULL` when there
are none. -/
def groupConcat : List String → Option String
  | [] => none
  | values => some (String.ofList (takeBytes groupConcatMaxLen (",".intercalate values).toList))

/-- The pieces `std::getline` reads off `s` up to `sep`, `piece` being what has been
read of the current one.  An empty piece at the end of the stream is a failed read. -/
def getlinesFrom (sep : Char) : List Char → List Char → List String
  | piece, [] => if piece.isEmpty then [] else [String.ofList piece.reverse]
  | piece, a :: s =>
      if a = sep then String.ofList piece.reverse :: getlinesFrom sep [] s
      else getlinesFrom sep (a :: piece) s

/-- Reading `s` with `std::getline(ss, item, sep)` until it fails. -/
def getlines (sep : Char) (s : String) : List String := getlinesFrom sep [] s.toList

example : getlines ',' "a,b,," = ["a", "b", ""] := by decide

end SiqiAuth.Lib
