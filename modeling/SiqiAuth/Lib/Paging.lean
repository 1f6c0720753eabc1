import Mathlib.Algebra.GroupWithZero.Nat
import Mathlib.Data.List.Lattice
import Mathlib.Data.List.Nodup
import Mathlib.Data.List.Pairwise
import Mathlib.Data.List.Perm.Basic
import SiqiAuth.Lib.Query

/-!
# Reading a sorted answer page by page

A server that sorts by a key may deliver rows of equal keys in any order, and choose anew
for each page that is asked for.  The pages still fit together when no such tie lies across
the border of two pages, and only then.

A page starts at an offset, which the client may have computed wrongly, or be refused.  Of
rows that are all different, a page that starts elsewhere than it should is the right one
only if both are empty.

## Main definitions

* `exists_arrange_eq` — every order of the rows is reached.
* `InOrder` — an order that the server may choose.
* `TieAt` — rows of one key stand on both sides of a border.
* `pageAt`, `Fetches` — a page, and that it holds the rows it should.
* `complete_iff` — when the pages hold every row once, whatever the server chooses.
-/

namespace SiqiAuth.Lib

universe u v
variable {α : Type u} {β : Type v}

/-- Every order of the rows is reached. -/
theorem exists_arrange_eq {xs ys : List α} (h : ys.Perm xs) : ∃ picks, arrange picks xs = ys := by
  induction ys generalizing xs with
  | nil =>
      obtain rfl := h.symm.eq_nil
      exact ⟨[], rfl⟩
  | cons y ys ih =>
      obtain ⟨l, r, rfl⟩ := List.append_of_mem (h.subset List.mem_cons_self)
      have hrot : (l ++ y :: r).rotate l.length = y :: (r ++ l) := by
        simp [List.rotate_append_length_eq]
      have hrest : ys.Perm (r ++ l) :=
        (List.Perm.cons_inv (h.trans List.perm_middle)).trans List.perm_append_comm
      obtain ⟨picks, hpicks⟩ := ih hrest
      refine ⟨l.length :: picks, ?_⟩
      rw [arrange, hrot]
      simp only [hpicks]

/-- What is read of the rows comes in the order of the rows. -/
theorem map_arrange (f : α → β) (picks : List ℕ) (xs : List α) :
    (arrange picks xs).map f = arrange picks (xs.map f) := by
  induction picks generalizing xs with
  | nil => rfl
  | cons n picks ih =>
      rw [arrange, arrange, ← List.map_rotate]
      cases xs.rotate n with
      | nil => rfl
      | cons x rest => simp [ih]

theorem orderByDesc_perm (key : α → ℤ) (xs : List α) : (orderByDesc key xs).Perm xs :=
  List.perm_insertionSort _ _

theorem map_orderByDesc {f : α → β} {key : α → ℤ} {key' : β → ℤ} (hkey : ∀ x, key' (f x) = key x)
    (xs : List α) : (orderByDesc key xs).map f = orderByDesc key' (xs.map f) := by
  refine List.map_insertionSort _ _ f xs fun a _ b _ => ?_
  rw [hkey, hkey]

/-! ## Orders -/

section Orders
variable (key : α → ℤ) {xs o o' : List α} {m : ℕ}

/-- The rows, sorted by key from the greatest. -/
structure InOrder (xs o : List α) : Prop where
  perm : o.Perm xs
  sorted : o.Pairwise fun a b => key b ≤ key a

theorem inOrder_orderByDesc (h : o.Perm xs) : InOrder key xs (orderByDesc key o) where
  perm := (orderByDesc_perm key o).trans h
  sorted := by
    have htotal : Std.Total fun a b : α => key b ≤ key a := ⟨fun a b => le_total (key b) (key a)⟩
    have htrans : IsTrans α fun a b => key b ≤ key a := ⟨fun _ _ _ hab hbc => hbc.trans hab⟩
    exact List.pairwise_insertionSort _ _

/-- Sorted rows are left as they are. -/
theorem orderByDesc_of_sorted (h : o.Pairwise fun a b => key b ≤ key a) :
    orderByDesc key o = o :=
  List.Pairwise.insertionSort_eq h

/-- Rows of different keys are sorted in one way. -/
theorem InOrder.eq_of_nodup {key : α → ℤ} (h : InOrder key xs o) (h' : InOrder key xs o')
    (hxs : (xs.map key).Nodup) : o = o' := by
  refine List.Perm.eq_of_pairwise ?_ h.sorted h'.sorted (h.perm.trans h'.perm.symm)
  intro a b ha hb hba hab
  exact List.inj_on_of_nodup_map hxs (h.perm.subset ha) (h'.perm.subset hb) (le_antisymm hab hba)

/-- Rows of one key stand on both sides of the border before position `m`. -/
def TieAt (xs : List α) (m : ℕ) : Prop :=
  ∃ k : ℤ, (xs.countP fun x => decide (k < key x)) < m ∧
    m < xs.countP fun x => decide (k ≤ key x)

/-- Rows of different keys are never tied. -/
theorem not_tieAt_of_nodup (h : (xs.map key).Nodup) : ¬ TieAt key xs m := by
  have hcount : ∀ (l : List α) (k : ℤ), (l.countP fun x => decide (k ≤ key x)) =
      (l.countP fun x => decide (k < key x)) + (l.map key).count k := by
    intro l k
    induction l with
    | nil => rfl
    | cons x l ih =>
        simp only [List.countP_cons, List.map_cons, List.count_cons, decide_eq_true_eq,
          beq_iff_eq, ih]
        split_ifs <;> omega
  rintro ⟨k, hbefore, hafter⟩
  have hone := List.nodup_iff_count_le_one.mp h k
  have hk := hcount xs k
  omega

variable {key}

/-- The rows above a key come first. -/
theorem take_countP (hsorted : o.Pairwise fun a b => key b ≤ key a) (k : ℤ) :
    o.take (o.countP fun x => decide (k < key x)) = o.filter fun x => decide (k < key x) := by
  induction o with
  | nil => rfl
  | cons x o ih =>
      rw [List.pairwise_cons] at hsorted
      by_cases hx : k < key x
      · simp [hx, ih hsorted.2]
      · have hnone : ∀ y ∈ o, ¬ k < key y := by
          intro y hy
          have hle := hsorted.1 y hy
          omega
        have hcount : o.countP (fun y => decide (k < key y)) = 0 := by
          simpa [List.countP_eq_zero] using hnone
        have hfilter : o.filter (fun y => decide (k < key y)) = [] := by
          simpa [List.filter_eq_nil_iff] using hnone
        simp [hx, hcount, hfilter]

/-- And the others after them. -/
theorem drop_countP (hsorted : o.Pairwise fun a b => key b ≤ key a) (k : ℤ) :
    o.drop (o.countP fun x => decide (k < key x)) = o.filter fun x => decide (key x ≤ k) := by
  induction o with
  | nil => rfl
  | cons x o ih =>
      rw [List.pairwise_cons] at hsorted
      by_cases hx : k < key x
      · simp [hx, ih hsorted.2]
      · have hall : ∀ y ∈ o, key y ≤ k := by
          intro y hy
          have hle := hsorted.1 y hy
          omega
        have hcount : o.countP (fun y => decide (k < key y)) = 0 := by
          simpa [List.countP_eq_zero] using hall
        have hfilter : o.filter (fun y => decide (key y ≤ k)) = o := by
          simpa [List.filter_eq_self] using hall
        have hle : key x ≤ k := by omega
        simp [hx, hle, hcount, hfilter]

/-- Where a position stands to the keys. -/
theorem lt_countP_iff (hsorted : o.Pairwise fun a b => key b ≤ key a) {i : ℕ} (hi : i < o.length)
    (k : ℤ) : i < (o.countP fun x => decide (k < key x)) ↔ k < key o[i] := by
  constructor
  · intro hlt
    have hmem : o[i] ∈ o.take (o.countP fun x => decide (k < key x)) :=
      List.mem_take_iff_getElem.mpr ⟨i, by omega, rfl⟩
    rw [take_countP hsorted, List.mem_filter] at hmem
    exact of_decide_eq_true hmem.2
  · intro hkey
    by_contra hle
    have hmem : o[i] ∈ o.drop (o.countP fun x => decide (k < key x)) :=
      List.mem_drop_iff_getElem.mpr
        ⟨i - o.countP (fun x => decide (k < key x)), by omega, by congr 1; omega⟩
    rw [drop_countP hsorted, List.mem_filter] at hmem
    have hle := of_decide_eq_true hmem.2
    omega

theorem InOrder.countP_eq (h : InOrder key xs o) (k : ℤ) :
    (o.countP fun x => decide (k < key x)) = xs.countP fun x => decide (k < key x) :=
  h.perm.countP_eq _

/-- Without a tie, the border stands where the rows above some key end. -/
theorem exists_key_of_not_tieAt (h : InOrder key xs o) (htie : ¬ TieAt key xs m)
    (hm : m < o.length) : ∃ k : ℤ, m = xs.countP fun x => decide (k < key x) := by
  refine ⟨key o[m], ?_⟩
  by_contra hne
  refine htie ⟨key o[m], ?_, ?_⟩
  · have hlt := lt_countP_iff h.sorted hm (key o[m])
    rw [h.countP_eq] at hlt
    have hnot := fun hlt' => lt_irrefl _ (hlt.mp hlt')
    omega
  · have hlt := (lt_countP_iff h.sorted hm (key o[m] - 1)).mpr (by omega)
    rw [h.countP_eq] at hlt
    simpa only [Int.sub_one_lt_iff] using hlt

/-- Without a tie, what comes after a border does not depend on the order. -/
theorem drop_perm (h : InOrder key xs o) (h' : InOrder key xs o') (htie : ¬ TieAt key xs m) :
    (o.drop m).Perm (o'.drop m) := by
  have hsame : o.Perm o' := h.perm.trans h'.perm.symm
  have hlength := hsame.length_eq
  by_cases hm : m < o.length
  · obtain ⟨k, rfl⟩ := exists_key_of_not_tieAt h htie hm
    have hdrop := drop_countP h.sorted k
    have hdrop' := drop_countP h'.sorted k
    rw [h.countP_eq] at hdrop
    rw [h'.countP_eq] at hdrop'
    rw [hdrop, hdrop']
    exact hsame.filter _
  · rw [List.drop_eq_nil_of_le (by omega), List.drop_eq_nil_of_le (by omega)]

/-- With a tie, two orders put one row before the border and after it. -/
theorem exists_swap (h : InOrder key xs o) (htie : TieAt key xs m) : ∃ o' x, InOrder key xs o' ∧
    0 < m ∧ o[m - 1]? = some x ∧ o'[m]? = some x := by
  obtain ⟨k, hbefore, hafter⟩ := htie
  have hcount : (xs.countP fun x => decide (k ≤ key x)) =
      o.countP fun x => decide (k - 1 < key x) := by
    have hsame : ∀ x, decide (k ≤ key x) = decide (k - 1 < key x) :=
      fun x => decide_eq_decide.mpr Int.sub_one_lt_iff.symm
    simp only [h.countP_eq, hsame]
  have hbound : (o.countP fun x => decide (k - 1 < key x)) ≤ o.length := List.countP_le_length
  have hkey : ∀ i (hi : i < o.length), (xs.countP fun x => decide (k < key x)) ≤ i →
      (i < xs.countP fun x => decide (k ≤ key x)) → key o[i] = k := by
    intro i hi hle hlt
    rw [hcount] at hlt
    rw [← h.countP_eq] at hle
    have hlow := (lt_countP_iff h.sorted hi (k - 1)).mp hlt
    have hhigh := mt (lt_countP_iff h.sorted hi k).mpr (by omega)
    omega
  obtain ⟨j, rfl⟩ : ∃ j, m = j + 1 := ⟨m - 1, by omega⟩
  have hj : j + 1 < o.length := by omega
  have hsplit : o = o.take j ++ o[j] :: o[j + 1] :: o.drop (j + 2) := by
    rw [List.getElem_cons_drop, List.getElem_cons_drop, List.take_append_drop]
  have hkeys : key o[j] = key o[j + 1] := by
    rw [hkey j (by omega) (by omega) (by omega), hkey (j + 1) hj (by omega) hafter]
  have hlength : (o.take j).length = j := by simp; omega
  refine ⟨o.take j ++ o[j + 1] :: o[j] :: o.drop (j + 2), o[j], ⟨?_, ?_⟩, by omega, ?_, ?_⟩
  · refine List.Perm.trans ?_ h.perm
    conv_rhs => rw [hsplit]
    exact (List.Perm.swap _ _ _).append_left _
  · have hsorted : (o.map key).Pairwise fun k k' => k' ≤ k := List.pairwise_map.mpr h.sorted
    have hmap : o.map key = (o.take j ++ o[j + 1] :: o[j] :: o.drop (j + 2)).map key :=
      calc o.map key
          = (o.take j ++ o[j] :: o[j + 1] :: o.drop (j + 2)).map key := congrArg _ hsplit
        _ = (o.take j ++ o[j + 1] :: o[j] :: o.drop (j + 2)).map key := by
          simp only [List.map_append, List.map_cons, hkeys]
    rw [hmap] at hsorted
    exact List.pairwise_map.mp hsorted
  · simp
  · rw [List.getElem?_append_right (by omega), hlength]
    simp

end Orders

/-! ## Pages -/

/-- A page from an offset on, and nothing when the offset is refused. -/
def pageAt (size : ℕ) (xs : List α) : Option ℕ → List α
  | none => []
  | some offset => (xs.drop offset).take size

/-- What is fetched at `offset` of `n` rows is what stands from position `start` on: it is fetched
from there, or there is nothing in either place. -/
def Fetches (n start : ℕ) (offset : Option ℕ) : Prop :=
  offset = some start ∨ n ≤ start ∧ ∀ w ∈ offset, n ≤ w

instance (n start : ℕ) (offset : Option ℕ) : Decidable (Fetches n start offset) :=
  inferInstanceAs (Decidable (_ ∨ _ ∧ ∀ w ∈ offset, _))

section Pages
variable {xs : List α} {size start : ℕ} {offset : Option ℕ}

theorem map_pageAt (f : α → β) (size : ℕ) (xs : List α) (offset : Option ℕ) :
    (pageAt size xs offset).map f = pageAt size (xs.map f) offset := by
  cases offset with
  | none => rfl
  | some w => simp [pageAt, List.map_take, List.map_drop]

theorem pageAt_eq_nil_iff (hsize : 0 < size) :
    pageAt size xs offset = [] ↔ ∀ w ∈ offset, xs.length ≤ w := by
  cases offset with
  | none => simp [pageAt]
  | some w =>
      have hne : size ≠ 0 := by omega
      simp [pageAt, List.take_eq_nil_iff, hne]

theorem getElem?_pageAt {w i : ℕ} (hi : i < size) :
    (pageAt size xs (some w))[i]? = xs[w + i]? := by
  rw [pageAt, List.getElem?_take_of_lt hi, List.getElem?_drop]

/-- **Of rows that are all different, a page is the right one exactly if it fetches the rows it
should.** -/
theorem pageAt_eq_iff (hxs : xs.Nodup) (hsize : 0 < size) :
    pageAt size xs offset = pageAt size xs (some start) ↔ Fetches xs.length start offset := by
  constructor
  · intro heq
    by_cases hstart : xs.length ≤ start
    · have hnil : pageAt size xs (some start) = [] :=
        (pageAt_eq_nil_iff hsize).mpr (by simpa using hstart)
      exact Or.inr ⟨hstart, (pageAt_eq_nil_iff hsize).mp (heq.trans hnil)⟩
    · cases offset with
      | none =>
          have hnil := (pageAt_eq_nil_iff hsize).mp heq.symm
          simp [hstart] at hnil
      | some w =>
          have hfirst := congrArg (fun l : List α => l[0]?) heq
          simp only [getElem?_pageAt hsize, Nat.add_zero] at hfirst
          rw [(List.getElem?_inj (by omega) hxs).mp hfirst.symm]
          exact Or.inl rfl
  · rintro (rfl | ⟨hstart, hoffset⟩)
    · rfl
    · rw [(pageAt_eq_nil_iff hsize).mpr hoffset,
        (pageAt_eq_nil_iff hsize).mpr (by simpa using hstart)]

theorem mem_pageAt {x : α} {w : ℕ} : x ∈ pageAt size xs (some w) ↔
    ∃ i, w ≤ i ∧ i < w + size ∧ xs[i]? = some x := by
  rw [List.mem_iff_getElem?]
  constructor
  · rintro ⟨i, hi⟩
    by_cases hlt : i < size
    · rw [getElem?_pageAt hlt] at hi
      exact ⟨w + i, by omega, by omega, hi⟩
    · rw [pageAt, List.getElem?_take_eq_none (by omega)] at hi
      cases hi
  · rintro ⟨i, hle, hlt, hi⟩
    refine ⟨i - w, ?_⟩
    rw [getElem?_pageAt (by omega), Nat.add_sub_cancel' hle, hi]

/-- Pages that follow one another are a beginning of the rows. -/
theorem flatMap_pageAt (size : ℕ) (xs : List α) (n : ℕ) :
    (List.range n).flatMap (fun p => pageAt size xs (some (p * size))) = xs.take (n * size) := by
  induction n with
  | zero => simp
  | succ n ih =>
      rw [List.range_succ, List.flatMap_append, ih, Nat.succ_mul, List.take_add]
      simp [pageAt]

/-- So their lengths add up to the number of rows, in whatever orders they are read. -/
theorem sum_length_pageAt {o : ℕ → List α} {n : ℕ} (ho : ∀ p, (o p).length = n) (size m : ℕ) :
    ((List.range m).map fun p => (pageAt size (o p) (some (p * size))).length).sum =
      min (m * size) n := by
  induction m with
  | zero => simp
  | succ m ih =>
      have hlast : (pageAt size (o m) (some (m * size))).length = min size (n - m * size) := by
        simp [pageAt, ho]
      rw [List.range_succ, List.map_append, List.sum_append, ih, Nat.succ_mul]
      simp only [List.map_cons, List.map_nil, List.sum_singleton, hlast]
      omega

end Pages

/-! ## All pages together -/

section Complete
variable {key : α → ℤ} {xs o o' : List α} {size n : ℕ} {offset : ℕ → Option ℕ} {bound : ℕ}

/-- Without a tie at either border, a page holds the same rows in every order. -/
theorem pageAt_perm {m : ℕ} (h : InOrder key xs o) (h' : InOrder key xs o')
    (hstart : ¬ TieAt key xs m) (hend : ¬ TieAt key xs (m + size)) :
    (pageAt size o (some m)).Perm (pageAt size o' (some m)) := by
  have hsplit : ∀ l : List α, l.drop m = pageAt size l (some m) ++ l.drop (m + size) := by
    intro l
    rw [← List.drop_drop]
    exact (List.take_append_drop size (l.drop m)).symm
  have hdrop := drop_perm h h' hstart
  rw [hsplit o, hsplit o'] at hdrop
  refine (List.perm_append_right_iff (l := o'.drop (m + size))).mp (List.Perm.trans ?_ hdrop)
  exact (drop_perm h h' hend).symm.append_left _

/-- The pages, each of an order of its own, hold every row once. -/
def Complete (key : α → ℤ) (xs : List α) (size n : ℕ) (offset : ℕ → Option ℕ) : Prop :=
  ∀ o : ℕ → List α, (∀ p, InOrder key xs (o p)) →
    ((List.range n).flatMap fun p => pageAt size (o p) (offset p)).Perm xs

theorem complete_of_fetches (hsize : 0 < size) (hn : xs.length ≤ n * size)
    (hfetches : ∀ p < n, Fetches xs.length (p * size) (offset p))
    (htie : ∀ p, ¬ TieAt key xs (p * size)) : Complete key xs size n offset := by
  intro o ho
  have hpage : ∀ p ∈ List.range n, (pageAt size (o p) (offset p)).Perm
      (pageAt size (orderByDesc key xs) (some (p * size))) := by
    intro p hp
    have hfetch : pageAt size (o p) (offset p) = pageAt size (o p) (some (p * size)) := by
      rcases hfetches p (List.mem_range.mp hp) with hoffset | ⟨hstart, hoffset⟩
      · rw [hoffset]
      · rw [← (ho p).perm.length_eq] at hstart hoffset
        rw [(pageAt_eq_nil_iff hsize).mpr hoffset,
          (pageAt_eq_nil_iff hsize).mpr (by simpa using hstart)]
    rw [hfetch]
    refine pageAt_perm (ho p) (inOrder_orderByDesc key (List.Perm.refl xs)) (htie p) ?_
    rw [← Nat.succ_mul]
    exact htie (p + 1)
  refine (List.Perm.flatMap_left _ hpage).trans ?_
  have hperm := (inOrder_orderByDesc key (List.Perm.refl xs)).perm
  rw [flatMap_pageAt, List.take_of_length_le (by rw [hperm.length_eq]; exact hn)]
  exact hperm

/-- No row is on two of the pages. -/
theorem Complete.eq_of_mem (h : Complete key xs size n offset) (hxs : xs.Nodup)
    {o : ℕ → List α} (ho : ∀ p, InOrder key xs (o p)) {p q : ℕ} (hp : p < n) (hq : q < n) {x : α}
    (hx : x ∈ pageAt size (o p) (offset p)) (hx' : x ∈ pageAt size (o q) (offset q)) : p = q := by
  by_contra hne
  have hnodup := (h o ho).nodup_iff.mpr hxs
  have hsymm : Std.Symm (Function.onFun List.Disjoint fun p => pageAt size (o p) (offset p)) :=
    ⟨fun _ _ hdisjoint => List.Disjoint.symm hdisjoint⟩
  exact (List.nodup_flatMap.mp hnodup).2.forall (List.mem_range.mpr hp) (List.mem_range.mpr hq) hne
    hx hx'

/-- No tie lies across a border. -/
theorem Complete.not_tieAt (h : Complete key xs size n offset) (hxs : xs.Nodup)
    (hsize : 0 < size) (hn : xs.length ≤ n * size)
    (hfetches : ∀ p < n, Fetches xs.length (p * size) (offset p)) (p : ℕ) :
    ¬ TieAt key xs (p * size) := by
  intro htie
  have ho := inOrder_orderByDesc key (List.Perm.refl xs)
  generalize orderByDesc key xs = o at ho
  obtain ⟨o', x, ho', hpos, hbefore, hafter⟩ := exists_swap ho htie
  have hlength : o'.length = xs.length := ho'.perm.length_eq
  obtain ⟨hlt, -⟩ := List.getElem?_eq_some_iff.mp hafter
  have hp : p < n := by
    by_contra hle
    have hmul : n * size ≤ p * size := Nat.mul_le_mul_right size (by omega)
    omega
  obtain ⟨q, rfl⟩ : ∃ q, p = q + 1 := ⟨p - 1, by
    have hne : p ≠ 0 := by
      rintro rfl
      simp at hpos
    omega⟩
  have hsucc : (q + 1) * size = q * size + size := Nat.succ_mul q size
  have hget : ∀ r < n, r * size < xs.length → offset r = some (r * size) := by
    intro r hr hstart
    rcases hfetches r hr with hoffset | ⟨hle, -⟩
    · exact hoffset
    · omega
  -- Page `q` is read in the one order, and page `q + 1` in the other.
  have horder : ∀ r, InOrder key xs (if r = q then o else o') := by
    intro r
    split
    · exact ho
    · exact ho'
  have hsame : q = q + 1 := by
    refine h.eq_of_mem hxs horder (by omega) hp (x := x) ?_ ?_
    · rw [if_pos rfl, hget q (by omega) (by omega), mem_pageAt]
      exact ⟨(q + 1) * size - 1, by omega, by omega, hbefore⟩
    · rw [if_neg (by omega), hget (q + 1) hp (by omega), mem_pageAt]
      exact ⟨(q + 1) * size, by omega, by omega, hafter⟩
  omega

variable (hgood : ∀ p, p * size < bound → offset p = some (p * size))
  (hbad : ∀ p, bound ≤ p * size → ∀ w ∈ offset p, w < bound)
include hgood hbad

/-- An offset beyond the bound fetches nothing. -/
theorem Complete.length_le (h : Complete key xs size n offset) (hxs : xs.Nodup) (hsize : 0 < size)
    {p w : ℕ} (hp : p < n) (hbound : bound ≤ p * size) (hw : w ∈ offset p) : xs.length ≤ w := by
  by_contra hlt
  have ho := inOrder_orderByDesc key (List.Perm.refl xs)
  generalize orderByDesc key xs = o at ho
  have hlength : o.length = xs.length := ho.perm.length_eq
  have hsmall := hbad p hbound w hw
  have hdiv : w / size * size ≤ w := Nat.div_mul_le_self w size
  have hmod : w < w / size * size + size := by
    have hsum := Nat.div_add_mod' w size
    have hrem := Nat.mod_lt w hsize
    omega
  have hless : w / size < p := by
    by_contra hle
    have hmul : p * size ≤ w / size * size := Nat.mul_le_mul_right size (by omega)
    omega
  have hoffset : offset p = some w := hw
  -- The row there is on the page where it should be as well.
  have hsame : w / size = p := by
    refine h.eq_of_mem hxs (fun _ => ho) (by omega) hp (x := o[w]) ?_ ?_
    · rw [hgood (w / size) (by omega), mem_pageAt]
      exact ⟨w, hdiv, hmod, List.getElem?_eq_getElem (by omega)⟩
    · rw [hoffset, mem_pageAt]
      exact ⟨w, le_refl _, by omega, List.getElem?_eq_getElem (by omega)⟩
  omega

theorem Complete.fetches (h : Complete key xs size n offset) (hxs : xs.Nodup) (hsize : 0 < size)
    {p : ℕ} (hp : p < n) : Fetches xs.length (p * size) (offset p) := by
  by_cases hbound : p * size < bound
  · exact Or.inl (hgood p hbound)
  · refine Or.inr ⟨?_, fun w hw => h.length_le hgood hbad hxs hsize hp (by omega) hw⟩
    by_contra hlt
    have ho := inOrder_orderByDesc key (List.Perm.refl xs)
    have hall := h (fun _ => orderByDesc key xs) fun _ => ho
    generalize orderByDesc key xs = o at ho hall
    have hlength : o.length = xs.length := ho.perm.length_eq
    have hrow : o[p * size] ∈ xs := ho.perm.subset (List.getElem_mem (by omega))
    obtain ⟨q, hq, hmem⟩ := List.mem_flatMap.mp (hall.symm.subset hrow)
    rw [List.mem_range] at hq
    cases hoffset : offset q with
    | none => simp [hoffset, pageAt] at hmem
    | some w =>
        rw [hoffset, mem_pageAt] at hmem
        obtain ⟨i, hle, hupper, hi⟩ := hmem
        obtain ⟨hlt', hi⟩ := List.getElem?_eq_some_iff.mp hi
        obtain rfl : i = p * size := (ho.perm.nodup_iff.mpr hxs).getElem_inj_iff.mp hi
        by_cases hgoodq : q * size < bound
        · rw [hgood q hgoodq, Option.some.injEq] at hoffset
          have hqp : q ≤ p := by
            by_contra hnot
            have hmul : (p + 1) * size ≤ q * size := Nat.mul_le_mul_right size (by omega)
            have hsucc : (p + 1) * size = p * size + size := Nat.succ_mul p size
            omega
          have hpq : p ≤ q := by
            by_contra hnot
            have hmul : (q + 1) * size ≤ p * size := Nat.mul_le_mul_right size (by omega)
            have hsucc : (q + 1) * size = q * size + size := Nat.succ_mul q size
            omega
          obtain rfl : q = p := by omega
          omega
        · have hend := h.length_le hgood hbad hxs hsize hq (by omega) hoffset
          omega

/-- **When the pages hold every row once**, whatever orders the server chooses: exactly if each
fetches the rows it should, and no tie lies across a border.  Below a bound the offsets are
what they should be, and beyond it they come out below it. -/
theorem complete_iff (hxs : xs.Nodup) (hsize : 0 < size) (hn : xs.length ≤ n * size) :
    Complete key xs size n offset ↔
      (∀ p < n, Fetches xs.length (p * size) (offset p)) ∧ ∀ p, ¬ TieAt key xs (p * size) := by
  constructor
  · intro h
    have hfetches : ∀ p < n, Fetches xs.length (p * size) (offset p) :=
      fun p hp => h.fetches hgood hbad hxs hsize hp
    exact ⟨hfetches, h.not_tieAt hxs hsize hn hfetches⟩
  · rintro ⟨hfetches, htie⟩
    exact complete_of_fetches hsize hn hfetches htie

end Complete
end SiqiAuth.Lib
