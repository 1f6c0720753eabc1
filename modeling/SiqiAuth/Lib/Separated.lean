import Mathlib.Algebra.BigOperators.Group.List.Basic
import Mathlib.Algebra.GroupWithZero.Nat
import SiqiAuth.Lib.Text

/-!
# Reading back a joined list

A list of strings is joined with a separator, cut at a number of bytes, and read back up to
the separator.  What is read has no separator in it and takes no more room than what was
written, so the list comes back just when it does so for a plain reason: no string contains
the separator, and together they fit.

## Main definitions

* `byteLength` — the length in UTF-8.
* `Readable` — strings that can be joined and read back.
* `readBack_perm_iff` — strings that are not empty are read back just when they are readable.
-/

namespace SiqiAuth.Lib

/-- The length of a string in UTF-8, in bytes. -/
def byteLength (s : List Char) : ℕ := (s.map Char.utf8Size).sum

@[simp] theorem byteLength_nil : byteLength [] = 0 := rfl

@[simp] theorem byteLength_cons (a : Char) (s : List Char) :
    byteLength (a :: s) = a.utf8Size + byteLength s := by
  simp [byteLength]

@[simp] theorem byteLength_append (s t : List Char) :
    byteLength (s ++ t) = byteLength s + byteLength t := by
  simp [byteLength]

@[simp] theorem byteLength_reverse (s : List Char) : byteLength s.reverse = byteLength s := by
  simp [byteLength, List.sum_reverse]

/-! ## Cutting -/

theorem takeBytes_of_le {n : ℕ} {s : List Char} (h : byteLength s ≤ n) : takeBytes n s = s := by
  induction s generalizing n with
  | nil => cases n <;> rfl
  | cons a s ih =>
      rw [byteLength_cons] at h
      have ha : a.utf8Size ≤ n := by omega
      have hs : byteLength s ≤ n - a.utf8Size := by omega
      rw [takeBytes, if_pos ha, ih hs]

theorem byteLength_takeBytes_le (n : ℕ) (s : List Char) : byteLength (takeBytes n s) ≤ n := by
  induction s generalizing n with
  | nil => cases n <;> simp [takeBytes]
  | cons a s ih =>
      rw [takeBytes]
      split
      · have hs := ih (n - a.utf8Size)
        rw [byteLength_cons]
        omega
      · simp

/-! ## Reading -/

section Reading
variable {sep : Char}

/-- No piece contains the separator. -/
theorem notMem_of_mem_getlinesFrom {piece s : List Char} (hpiece : sep ∉ piece) {k : String}
    (h : k ∈ getlinesFrom sep piece s) : sep ∉ k.toList := by
  induction s generalizing piece with
  | nil =>
      rw [getlinesFrom] at h
      split at h
      · simp at h
      · rw [List.mem_singleton] at h
        simpa [h] using hpiece
  | cons a s ih =>
      rw [getlinesFrom] at h
      split at h
      · rcases List.mem_cons.mp h with rfl | h
        · simpa using hpiece
        · exact ih (by simp) h
      · rename_i ha
        exact ih (by simp [hpiece, Ne.symm ha]) h

/-- The pieces and their separators take no more room than what is read. -/
theorem sum_byteLength_getlinesFrom_le (sep : Char) (piece s : List Char) :
    ((getlinesFrom sep piece s).map fun k => byteLength k.toList).sum +
      (getlinesFrom sep piece s).length ≤ byteLength piece + byteLength s + 1 := by
  induction s generalizing piece with
  | nil =>
      rw [getlinesFrom]
      split
      · simp
      · simp
  | cons a s ih =>
      rw [getlinesFrom]
      split
      · have hrest := ih []
        have hsize := a.utf8Size_pos
        simp only [List.map_cons, List.sum_cons, List.length_cons, String.toList_ofList,
          byteLength_reverse, byteLength_cons, byteLength_nil] at hrest ⊢
        omega
      · have hrest := ih (a :: piece)
        simp only [byteLength_cons] at hrest ⊢
        omega

/-- Characters other than the separator are collected. -/
theorem getlinesFrom_append {piece k s : List Char} (h : sep ∉ k) :
    getlinesFrom sep piece (k ++ s) = getlinesFrom sep (k.reverse ++ piece) s := by
  induction k generalizing piece with
  | nil => rfl
  | cons a k ih =>
      rw [List.mem_cons, not_or] at h
      rw [List.cons_append, getlinesFrom, if_neg (Ne.symm h.1), ih h.2]
      simp

/-- Strings without the separator, none empty, are read back. -/
theorem getlinesFrom_intercalate {keys : List String} (hsep : ∀ k ∈ keys, sep ∉ k.toList)
    (hne : ∀ k ∈ keys, k ≠ "") :
    getlinesFrom sep [] ([sep].intercalate (keys.map String.toList)) = keys := by
  induction keys with
  | nil => rfl
  | cons k keys ih =>
      rw [List.forall_mem_cons] at hsep hne
      have hrest := ih hsep.2 hne.2
      cases keys with
      | nil =>
          have hread : getlinesFrom sep [] (k.toList ++ []) = _ := getlinesFrom_append hsep.1
          have hk : k.toList ≠ [] := by simpa using hne.1
          rw [List.append_nil] at hread
          simp [hread, getlinesFrom, hk]
      | cons k' keys =>
          rw [List.map_cons, List.map_cons, List.intercalate_cons_cons, ← List.map_cons,
            List.append_assoc, getlinesFrom_append hsep.1, List.singleton_append, getlinesFrom,
            if_pos rfl, hrest]
          simp

end Reading

/-! ## Joined, cut and read back -/

theorem byteLength_intercalate {keys : List String} (h : keys ≠ []) :
    byteLength ([','].intercalate (keys.map String.toList)) + 1 =
      (keys.map fun k => byteLength k.toList).sum + keys.length := by
  induction keys with
  | nil => exact absurd rfl h
  | cons k keys ih =>
      cases keys with
      | nil => simp
      | cons k' keys =>
          have hrest := ih (List.cons_ne_nil _ _)
          have hcomma : byteLength [','] = 1 := by decide
          simp only [List.map_cons, List.intercalate_cons_cons, byteLength_append, hcomma,
            List.sum_cons, List.length_cons] at hrest ⊢
          omega

/-- No string contains a comma, and joined with commas they fit into a concatenation. -/
def Readable (keys : List String) : Prop :=
  (∀ k ∈ keys, ',' ∉ k.toList) ∧
    (keys.map fun k => byteLength k.toList).sum + keys.length ≤ groupConcatMaxLen + 1

instance (keys : List String) : Decidable (Readable keys) := inferInstanceAs (Decidable (_ ∧ _))

theorem Readable.perm {keys keys' : List String} (h : Readable keys) (hperm : keys'.Perm keys) :
    Readable keys' := by
  refine ⟨fun k hk => h.1 k (hperm.subset hk), ?_⟩
  rw [(hperm.map _).sum_eq, hperm.length_eq]
  exact h.2

/-- **A concatenation is read back, up to the order, just when its strings are readable**, if
none of them is empty. -/
theorem readBack_perm_iff {keys keys' : List String} (hne : ∀ k ∈ keys, k ≠ "")
    (hperm : keys'.Perm keys) :
    (getlines ',' ((groupConcat keys').getD "")).Perm keys ↔ Readable keys := by
  by_cases hnil : keys' = []
  · subst hnil
    obtain rfl : keys = [] := hperm.symm.eq_nil
    simp [groupConcat, getlines, getlinesFrom, Readable]
  · have hgroup : (groupConcat keys').getD "" = String.ofList
        (takeBytes groupConcatMaxLen ([','].intercalate (keys'.map String.toList))) := by
      cases keys' with
      | nil => exact absurd rfl hnil
      | cons k keys' => simp [groupConcat]
    rw [getlines, hgroup, String.toList_ofList]
    constructor
    · intro hread
      refine ⟨fun k hk => notMem_of_mem_getlinesFrom (by simp) (hread.symm.subset hk), ?_⟩
      have hcut := byteLength_takeBytes_le groupConcatMaxLen
        ([','].intercalate (keys'.map String.toList))
      generalize takeBytes groupConcatMaxLen _ = s at hread hcut
      have hroom := sum_byteLength_getlinesFrom_le ',' [] s
      rw [(hread.map _).sum_eq, hread.length_eq, byteLength_nil] at hroom
      omega
    · intro hreadable
      obtain ⟨hcomma, hroom⟩ := hreadable.perm hperm
      have hlength := byteLength_intercalate hnil
      rw [takeBytes_of_le (by omega),
        getlinesFrom_intercalate hcomma fun k hk => hne k (hperm.subset hk)]
      exact hperm

end SiqiAuth.Lib
