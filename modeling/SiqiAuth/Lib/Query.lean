import Mathlib.Data.List.Rotate
import Mathlib.Data.List.Sort

/-!
# Relational queries over lists of rows

The evaluation of a `SELECT` as list processing: nested-loop joins, the row order
a server is free to choose, sorting and paging.

A server answers a query in whatever order suits it.  `arrange` reads that choice
off a list of numbers supplied from outside, so a query is a function of its rows
and of that list, and `arrange_perm` is all that may be concluded about the order.

## Main definitions

* `join`, `leftJoin` — nested-loop joins.
* `arrange` — the rows in an order dictated from outside.
* `distinct`, `groups`, `orderByDesc`, `page` — `DISTINCT`, `GROUP BY`, `ORDER BY` and
  `LIMIT … OFFSET`.
* `mem_join`, `join_filter_filter` — membership in a join, and restriction of its
  operands.
-/

namespace SiqiAuth.Lib

universe u v
variable {α : Type u} {β : Type v}

/-! ## Joins -/

/-- `xs JOIN ys ON on`, the left operand in the outer loop. -/
def join (xs : List α) (ys : List β) (on : α → β → Bool) : List (α × β) :=
  xs.flatMap fun x => (ys.filter (on x)).map fun y => (x, y)

/-- `xs LEFT JOIN ys ON on`: a left row with no partner is kept once, unpartnered. -/
def leftJoin (xs : List α) (ys : List β) (on : α → β → Bool) : List (α × Option β) :=
  xs.flatMap fun x =>
    match ys.filter (on x) with
    | [] => [(x, none)]
    | partners => partners.map fun y => (x, some y)

@[simp] theorem mem_join {xs : List α} {ys : List β} {on : α → β → Bool} {z : α × β} :
    z ∈ join xs ys on ↔ z.1 ∈ xs ∧ z.2 ∈ ys ∧ on z.1 z.2 = true := by
  obtain ⟨x, y⟩ := z
  simp only [join, List.mem_flatMap, List.mem_map, List.mem_filter, Prod.mk.injEq]
  constructor
  · rintro ⟨_, hx, _, ⟨hy, hon⟩, rfl, rfl⟩
    exact ⟨hx, hy, hon⟩
  · rintro ⟨hx, hy, hon⟩
    exact ⟨x, hx, y, ⟨hy, hon⟩, rfl, rfl⟩

theorem nodup_join {xs : List α} {ys : List β} (hx : xs.Nodup) (hy : ys.Nodup)
    (on : α → β → Bool) : (join xs ys on).Nodup := by
  refine List.nodup_flatMap.mpr ⟨fun x _ => ?_, hx.imp fun hne => ?_⟩
  · exact (hy.filter _).map fun y y' h => (Prod.mk.inj h).2
  · intro z hz hz'
    obtain ⟨y, -, rfl⟩ := List.mem_map.mp hz
    obtain ⟨y', -, h⟩ := List.mem_map.mp hz'
    exact hne (Prod.mk.inj h).1.symm

/-- Joining restricted operands restricts the join. -/
theorem join_filter_filter (xs : List α) (ys : List β) (on : α → β → Bool) (p : α → Bool)
    (q : β → Bool) :
    join (xs.filter p) (ys.filter q) on =
      (join xs ys on).filter fun z => p z.1 && q z.2 := by
  induction xs with
  | nil => rfl
  | cons x xs ih =>
      have hcons : ∀ (l : List α) (m : List β), join (x :: l) m on =
          (m.filter (on x)).map (fun y => (x, y)) ++ join l m on := fun _ _ => rfl
      rw [hcons, List.filter_append, ← ih, List.filter_map]
      by_cases hp : p x = true
      · rw [List.filter_cons_of_pos hp, hcons, List.filter_filter, List.filter_filter]
        congr 2
        refine List.filter_congr fun y _ => ?_
        simp [hp, Bool.and_comm]
      · have hnil : List.filter ((fun z : α × β => p z.1 && q z.2) ∘ fun y => (x, y))
            (ys.filter (on x)) = [] := by
          rw [List.filter_eq_nil_iff]
          intro y _
          simp [hp]
        rw [List.filter_cons_of_neg hp, hnil]
        rfl

/-! ## The order of the answer -/

/-- The rows in the order that `picks` dictates: each number says how far to step
through the rows not yet delivered before taking one.  Every order is reached by
some list of numbers. -/
def arrange : List ℕ → List α → List α
  | [], xs => xs
  | n :: picks, xs =>
      match xs.rotate n with
      | [] => []
      | x :: rest => x :: arrange picks rest

/-- The order of an answer is all that is open. -/
theorem arrange_perm (picks : List ℕ) (xs : List α) : (arrange picks xs).Perm xs := by
  induction picks generalizing xs with
  | nil => exact List.Perm.refl _
  | cons n picks ih =>
      have hrot : (xs.rotate n).Perm xs := List.rotate_perm xs n
      unfold arrange
      split
      case h_1 hnil => rw [hnil] at hrot; exact hrot
      case h_2 x rest hcons =>
        rw [hcons] at hrot
        exact ((ih rest).cons x).trans hrot

@[simp] theorem mem_arrange {picks : List ℕ} {xs : List α} {x : α} :
    x ∈ arrange picks xs ↔ x ∈ xs :=
  (arrange_perm picks xs).mem_iff

@[simp] theorem length_arrange (picks : List ℕ) (xs : List α) :
    (arrange picks xs).length = xs.length :=
  (arrange_perm picks xs).length_eq

/-- Of rows that are all the same, every order delivers the same one first. -/
theorem head?_eq_of_perm {xs ys : List α} (h : xs.Perm ys) (hys : ∀ x ∈ ys, ∀ y ∈ ys, x = y) :
    xs.head? = ys.head? := by
  cases ys with
  | nil => rw [h.eq_nil]
  | cons y ys =>
      cases xs with
      | nil => exact absurd h.symm.eq_nil (List.cons_ne_nil y ys)
      | cons x xs =>
          have hx : x ∈ y :: ys := h.subset List.mem_cons_self
          rw [List.head?_cons, List.head?_cons, hys x hx y List.mem_cons_self]

/-- Of rows that are all the same, any one is the first. -/
theorem head?_of_mem {xs : List α} {x : α} (hx : x ∈ xs) (hxs : ∀ y ∈ xs, ∀ z ∈ xs, y = z) :
    xs.head? = some x := by
  cases xs with
  | nil => simp at hx
  | cons y ys => rw [List.head?_cons, hxs y List.mem_cons_self x hx]

/-! ## Grouping, sorting and paging -/

/-- `DISTINCT`: of the rows that `same` equates, the first. -/
def distinct (same : α → α → Bool) : List α → List α
  | [] => []
  | x :: xs => x :: (distinct same xs).filter fun y => !same x y

/-- `GROUP BY`: a first row for each group, with the rows of its group. -/
def groups (same : α → α → Bool) (xs : List α) : List (α × List α) :=
  (distinct same xs).map fun x => (x, xs.filter (same x))

/-- `ORDER BY key DESC`.  Rows equal under `key` keep the order they arrive in. -/
def orderByDesc (key : α → ℤ) (xs : List α) : List α :=
  xs.insertionSort fun a b => key b ≤ key a

/-- `LIMIT limit OFFSET offset`, for arguments the server accepts. -/
def page (limit offset : ℤ) (xs : List α) : List α :=
  (xs.drop offset.toNat).take limit.toNat

end SiqiAuth.Lib
