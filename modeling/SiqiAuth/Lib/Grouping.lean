import Mathlib.Data.List.Dedup
import Mathlib.Data.Quot
import SiqiAuth.Lib.Query
import SiqiAuth.Lib.Text

/-!
# Outer joins, `DISTINCT` and `GROUP BY`

What the rows of an outer join are, and which rows `DISTINCT` keeps.  `DISTINCT` compares
with a test; when that test is equality of some value of the rows, it keeps one row for each
value.

## Main definitions

* `mem_leftJoin`, `nodup_leftJoin` — the rows of an outer join.
* `mem_map_distinct`, `nodup_map_distinct` — the values that `DISTINCT` keeps.
* `Collation.Value` — strings, as a column compares them.
-/

namespace SiqiAuth.Lib

universe u v w
variable {α : Type u} {β : Type v} {ι : Type w}

/-! ## Outer joins -/

section LeftJoin
variable {xs : List α} {ys : List β} {on : α → β → Bool}

/-- The rows that an outer join makes of one row. -/
def partnered (ys : List β) (on : α → β → Bool) (x : α) : List (α × Option β) :=
  match ys.filter (on x) with
  | [] => [(x, none)]
  | partners => partners.map fun y => (x, some y)

theorem mem_partnered {x : α} {z : α × Option β} : z ∈ partnered ys on x ↔ z.1 = x ∧
    ((∃ y ∈ ys, on x y = true ∧ z.2 = some y) ∨ z.2 = none ∧ ∀ y ∈ ys, on x y = false) := by
  obtain ⟨x', y'⟩ := z
  unfold partnered
  split
  case h_1 hnil =>
    have hnone : ∀ y ∈ ys, on x y = false := by simpa [List.filter_eq_nil_iff] using hnil
    simp only [List.mem_singleton, Prod.mk.injEq]
    refine and_congr_right fun _ => ⟨fun hy' => Or.inr ⟨hy', hnone⟩, ?_⟩
    rintro (⟨y, hy, hon, -⟩ | ⟨hy', -⟩)
    · simp [hnone y hy] at hon
    · exact hy'
  case h_2 partners hne =>
    obtain ⟨y₀, hy₀⟩ := List.exists_mem_of_ne_nil _ hne
    rw [List.mem_filter] at hy₀
    simp only [List.mem_map, List.mem_filter, Prod.mk.injEq]
    constructor
    · rintro ⟨y, ⟨hy, hon⟩, rfl, rfl⟩
      exact ⟨rfl, Or.inl ⟨y, hy, hon, rfl⟩⟩
    · rintro ⟨rfl, ⟨y, hy, hon, rfl⟩ | ⟨-, hnone⟩⟩
      · exact ⟨y, ⟨hy, hon⟩, rfl, rfl⟩
      · simp [hnone y₀ hy₀.1] at hy₀

/-- A row of an outer join: a row with a partner, or one that has none. -/
theorem mem_leftJoin {z : α × Option β} : z ∈ leftJoin xs ys on ↔ z.1 ∈ xs ∧
    ((∃ y ∈ ys, on z.1 y = true ∧ z.2 = some y) ∨ z.2 = none ∧ ∀ y ∈ ys, on z.1 y = false) := by
  have hmem : z ∈ leftJoin xs ys on ↔ ∃ x ∈ xs, z ∈ partnered ys on x := List.mem_flatMap
  simp only [hmem, mem_partnered]
  constructor
  · rintro ⟨x, hx, rfl, h⟩
    exact ⟨hx, h⟩
  · rintro ⟨hx, h⟩
    exact ⟨z.1, hx, rfl, h⟩

/-- Every row is kept. -/
theorem exists_mem_leftJoin {x : α} : (∃ y, (x, y) ∈ leftJoin xs ys on) ↔ x ∈ xs := by
  simp only [mem_leftJoin]
  constructor
  · rintro ⟨y, hx, -⟩
    exact hx
  · intro hx
    by_cases h : ∃ y ∈ ys, on x y = true
    · obtain ⟨y, hy, hon⟩ := h
      exact ⟨some y, hx, Or.inl ⟨y, hy, hon, rfl⟩⟩
    · refine ⟨none, hx, Or.inr ⟨rfl, fun y hy => ?_⟩⟩
      by_contra hon
      exact h ⟨y, hy, by simpa using hon⟩

theorem nodup_leftJoin (hx : xs.Nodup) (hy : ys.Nodup) (on : α → β → Bool) :
    (leftJoin xs ys on).Nodup := by
  have hpartnered : ∀ x, (partnered ys on x).Nodup := by
    intro x
    unfold partnered
    split
    · exact List.nodup_singleton _
    · exact (hy.filter _).map fun y y' h => Option.some.inj (Prod.mk.inj h).2
  refine List.nodup_flatMap.mpr ⟨fun x _ => hpartnered x, hx.imp fun {x x'} hne => ?_⟩
  intro z hz hz'
  exact hne ((mem_partnered.mp hz).1.symm.trans (mem_partnered.mp hz').1)

end LeftJoin

/-! ## `DISTINCT` -/

section Distinct
variable {same : α → α → Bool} {q : α → ι} {xs ys : List α} {x : α}

theorem mem_of_mem_distinct (h : x ∈ distinct same xs) : x ∈ xs := by
  induction xs with
  | nil => exact h
  | cons y ys ih =>
      rcases List.mem_cons.mp h with rfl | h
      · exact List.mem_cons_self
      · exact List.mem_cons_of_mem _ (ih (List.mem_filter.mp h).1)

theorem distinct_sublist (same : α → α → Bool) (xs : List α) : (distinct same xs).Sublist xs := by
  induction xs with
  | nil => exact List.Sublist.refl _
  | cons x xs ih => exact (List.filter_sublist.trans ih).cons_cons x

/-- Rows that are told apart and come first are kept, and of the others those unlike them. -/
theorem distinct_append (h : xs.Pairwise fun x y => same x y = false) (ys : List α) :
    distinct same (xs ++ ys) =
      xs ++ (distinct same ys).filter fun y => xs.all fun x => !same x y := by
  induction xs with
  | nil => simp
  | cons x xs ih =>
      rw [List.pairwise_cons] at h
      have hxs : xs.filter (fun y => !same x y) = xs := by
        refine List.filter_eq_self.mpr fun y hy => ?_
        rw [h.1 y hy, Bool.not_false]
      rw [List.cons_append, distinct, ih h.2, List.filter_append, hxs, List.filter_filter,
        List.cons_append]
      simp only [List.all_cons]

variable (hq : ∀ x y, same x y = true ↔ q x = q y)
include hq

/-- `DISTINCT` keeps a row for every value. -/
theorem mem_map_distinct {k : ι} : k ∈ (distinct same xs).map q ↔ k ∈ xs.map q := by
  induction xs with
  | nil => rfl
  | cons x xs ih =>
      simp only [List.mem_map] at ih
      simp only [distinct, List.map_cons, List.mem_cons, List.mem_map, List.mem_filter,
        Bool.not_eq_true', Bool.eq_false_iff, ne_eq, hq, ← ih]
      constructor
      · rintro (rfl | ⟨y, ⟨hy, -⟩, rfl⟩)
        · exact Or.inl rfl
        · exact Or.inr ⟨y, hy, rfl⟩
      · rintro (rfl | ⟨y, hy, rfl⟩)
        · exact Or.inl rfl
        · by_cases hxy : q x = q y
          · exact Or.inl hxy.symm
          · exact Or.inr ⟨y, ⟨hy, hxy⟩, rfl⟩

/-- And no more than one. -/
theorem nodup_map_distinct (xs : List α) : ((distinct same xs).map q).Nodup := by
  induction xs with
  | nil => exact List.nodup_nil
  | cons x xs ih =>
      rw [distinct, List.map_cons, List.nodup_cons]
      constructor
      · intro h
        obtain ⟨y, hy, hxy⟩ := List.mem_map.mp h
        have hne := (List.mem_filter.mp hy).2
        rw [(hq x y).mpr hxy.symm] at hne
        cases hne
      · exact ih.sublist (List.filter_sublist.map q)

/-- The values are the same in whatever order the rows come. -/
theorem map_distinct_perm (h : xs.Perm ys) :
    ((distinct same xs).map q).Perm ((distinct same ys).map q) := by
  refine (List.perm_ext_iff_of_nodup (nodup_map_distinct hq xs) (nodup_map_distinct hq ys)).mpr ?_
  intro k
  rw [mem_map_distinct hq, mem_map_distinct hq]
  exact (h.map q).mem_iff

/-- Of rows that the test tells apart, `DISTINCT` keeps each. -/
theorem distinct_perm_of_injOn {ys : List α} (hys : ys.Nodup) (hmem : ∀ x, x ∈ xs ↔ x ∈ ys)
    (hinj : ∀ x ∈ ys, ∀ y ∈ ys, q x = q y → x = y) : (distinct same xs).Perm ys := by
  refine (List.perm_ext_iff_of_nodup (nodup_map_distinct hq xs).of_map hys).mpr fun x => ?_
  constructor
  · intro hx
    exact (hmem x).mp (mem_of_mem_distinct hx)
  · intro hx
    obtain ⟨y, hy, hxy⟩ := List.mem_map.mp
      ((mem_map_distinct hq).mpr (List.mem_map_of_mem (f := q) ((hmem x).mpr hx)))
    have hy' := (hmem y).mp (mem_of_mem_distinct hy)
    rwa [← hinj y hy' x hx hxy]

end Distinct

/-- The same of what rows say, each by a text of its own. -/
theorem distinct_perm_map {κ : Type w} {name : β → κ} {same : κ → κ → Bool} {q : κ → ι}
    (hq : ∀ x y, same x y = true ↔ q x = q y) {xs : List κ} {ys : List β} (hys : ys.Nodup)
    (hmem : ∀ k, k ∈ xs ↔ ∃ y ∈ ys, name y = k)
    (hname : ∀ y ∈ ys, ∀ z ∈ ys, same (name y) (name z) = true → y = z) :
    (ys.map name).Nodup ∧ (distinct same xs).Perm (ys.map name) := by
  have hnodup : (ys.map name).Nodup := by
    refine hys.map_on fun y hy z hz h => hname y hy z hz ?_
    rw [hq, h]
  refine ⟨hnodup, distinct_perm_of_injOn hq hnodup (by simpa using hmem) ?_⟩
  intro k hk k' hk' h
  obtain ⟨y, hy, rfl⟩ := List.mem_map.mp hk
  obtain ⟨z, hz, rfl⟩ := List.mem_map.mp hk'
  rw [hname y hy z hz ((hq _ _).mpr h)]

/-- Of rows that are told apart by what is read of them, nothing is read twice. -/
theorem nodup_filterMap_of_inj {f : α → Option β} {xs : List α} (h : xs.Nodup)
    (hf : ∀ x ∈ xs, ∀ y ∈ xs, ∀ b, f x = some b → f y = some b → x = y) :
    (xs.filterMap f).Nodup := by
  refine List.pairwise_filterMap.mpr (h.imp_of_mem ?_)
  intro x y hx hy hne b hb b' hb' hbb
  exact hne (hf x hx y hy b hb (hbb ▸ hb'))

theorem mem_groups {same : α → α → Bool} {xs ys : List α} {x : α} :
    (x, ys) ∈ groups same xs ↔ x ∈ distinct same xs ∧ ys = xs.filter (same x) := by
  simp only [groups, List.mem_map, Prod.mk.injEq]
  constructor
  · rintro ⟨y, hy, rfl, rfl⟩
    exact ⟨hy, rfl⟩
  · rintro ⟨hx, rfl⟩
    exact ⟨x, hx, rfl, rfl⟩

/-- A list with all the values of another is as long as that only if it has no more. -/
theorem length_eq_iff_subset {xs ys : List α} (hys : ys.Nodup) (hsub : ys ⊆ xs)
    (hxs : xs.Nodup) : xs.length = ys.length ↔ xs ⊆ ys := by
  have hsubperm := List.subperm_of_subset hys hsub
  constructor
  · intro h
    exact (hsubperm.perm_of_length_le (by omega)).symm.subset
  · intro h
    have hle := (List.subperm_of_subset hxs h).length_le
    have hge := hsubperm.length_le
    omega

/-! ## Values of a column -/

namespace Collation
variable (c : Collation)

/-- The equality of a column. -/
def setoid : Setoid String where
  r s t := c.same s t = true
  iseqv := ⟨c.same_refl, c.same_comm, c.same_trans _ _ _⟩

/-- Strings, as the column compares them. -/
def Value : Type := Quotient c.setoid

/-- What a string is to the column. -/
def value (s : String) : c.Value := Quotient.mk c.setoid s

theorem same_iff_value (s t : String) : c.same s t = true ↔ c.value s = c.value t :=
  (Quotient.eq (r := c.setoid)).symm

end Collation
end SiqiAuth.Lib
