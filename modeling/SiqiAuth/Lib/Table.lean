import Mathlib.Data.List.Nodup
import Mathlib.Data.List.Pairwise

/-!
# Auto-increment tables with unique keys

A `Table` is a list of rows together with the counter its next row is numbered
from.  The invariants a relational engine maintains are fields: every row number
is below the counter, no two rows share a number, and no two rows clash under the
table's unique keys.  A row number is therefore never issued twice, whatever has
been deleted in between.

## Main definitions

* `Schema α` — how a row of type `α` is numbered, and which rows clash.
* `Table S` — the rows, the counter and the engine's invariants.
* `Table.insert`, `Table.delete`, `Table.update` — the three writes.
* `Table.mem_insert_iff`, `Table.mem_delete` — the rows after a write.
* `Table.written` — the same table with its rows written out, for evaluating.
-/

namespace SiqiAuth.Lib

universe u

/-- How the rows of a table are numbered, and which pairs the unique keys forbid. -/
structure Schema (α : Type u) where
  /-- The automatically issued row number. -/
  id : α → ℕ
  /-- Whether two rows agree on some unique key. -/
  clash : α → α → Bool
  clash_symm : ∀ r s, clash r s = clash s r

/-- A table: its rows in insertion order and the number its next row receives. -/
@[ext] structure Table {α : Type u} (S : Schema α) where
  rows : List α
  next : ℕ
  /-- Row numbers were all issued before the counter's present value. -/
  lt_next : ∀ r ∈ rows, S.id r < next
  /-- Row numbers are distinct. -/
  ids_nodup : (rows.map S.id).Nodup
  /-- No two rows clash. -/
  unique : rows.Pairwise fun r s => S.clash r s = false

namespace Table

variable {α : Type u} {S : Schema α}

instance : Membership α (Table S) := ⟨fun t r => r ∈ t.rows⟩

@[simp] theorem mem_rows (t : Table S) (r : α) : r ∈ t.rows ↔ r ∈ t := Iff.rfl

instance decidableMem [DecidableEq α] (t : Table S) (r : α) : Decidable (r ∈ t) :=
  inferInstanceAs (Decidable (r ∈ t.rows))

instance decidableBEx (t : Table S) (p : α → Prop) [DecidablePred p] :
    Decidable (∃ r ∈ t, p r) :=
  inferInstanceAs (Decidable (∃ r ∈ t.rows, p r))

instance decidableBAll (t : Table S) (p : α → Prop) [DecidablePred p] :
    Decidable (∀ r ∈ t, p r) :=
  inferInstanceAs (Decidable (∀ r ∈ t.rows, p r))

/-- The table as created, numbering from one. -/
def empty : Table S := ⟨[], 1, by simp, by simp, by simp⟩

@[simp] theorem rows_empty : (empty : Table S).rows = [] := rfl
@[simp] theorem notMem_empty (r : α) : ¬ r ∈ (empty : Table S) := List.not_mem_nil

@[simp] theorem id_lt_next {t : Table S} {r : α} (h : r ∈ t) : S.id r < t.next :=
  t.lt_next r h

/-- A row is determined by its number. -/
theorem eq_of_id {t : Table S} {r s : α} (hr : r ∈ t) (hs : s ∈ t) (h : S.id r = S.id s) :
    r = s :=
  List.inj_on_of_nodup_map t.ids_nodup hr hs h

theorem nodup_rows (t : Table S) : t.rows.Nodup := List.Nodup.of_map _ t.ids_nodup

/-- Rows that clash are one row. -/
theorem eq_of_clash {t : Table S} {r s : α} (hr : r ∈ t) (hs : s ∈ t)
    (h : S.clash r s = true) : r = s := by
  by_contra hne
  have hsymm : Std.Symm fun r s => S.clash r s = false :=
    ⟨fun r s hrs => (S.clash_symm s r).trans hrs⟩
  rw [t.unique.forall hr hs hne] at h
  exact Bool.false_ne_true h

/-! ## Insertion -/

/-- Insert the row that `mk` builds from the number it is issued; `none` when a
unique key refuses it, and then no number is consumed. -/
def insert (t : Table S) (mk : ℕ → α) (hmk : ∀ n, S.id (mk n) = n) : Option (Table S) :=
  if h : ∀ r ∈ t.rows, S.clash r (mk t.next) = false then
    some
      { rows := t.rows ++ [mk t.next]
        next := t.next + 1
        lt_next := by
          intro r hr
          rcases List.mem_append.mp hr with hr | hr
          · exact Nat.lt_succ_of_lt (t.lt_next r hr)
          · rw [List.mem_singleton.mp hr, hmk]
            exact Nat.lt_succ_self _
        ids_nodup := by
          rw [List.map_append, List.map_singleton, hmk]
          refine List.Nodup.append t.ids_nodup (List.nodup_singleton _) ?_
          intro n hn hn'
          obtain ⟨r, hr, rfl⟩ := List.mem_map.mp hn
          exact absurd (List.mem_singleton.mp hn') (Nat.ne_of_lt (t.lt_next r hr))
        unique := by
          refine List.pairwise_append.mpr ⟨t.unique, List.pairwise_singleton _ _, ?_⟩
          intro r hr s hs
          rw [List.mem_singleton.mp hs]
          exact h r hr }
  else none

/-- An insertion appends the new row, advances the counter, and clashed with
nothing. -/
theorem insert_eq_some {t t' : Table S} {mk : ℕ → α} {hmk : ∀ n, S.id (mk n) = n}
    (h : t.insert mk hmk = some t') :
    t'.rows = t.rows ++ [mk t.next] ∧ t'.next = t.next + 1 ∧
      ∀ r ∈ t, S.clash r (mk t.next) = false := by
  unfold insert at h
  split at h
  case isTrue hc => cases h; exact ⟨rfl, rfl, hc⟩
  case isFalse => cases h

theorem insert_eq_none {t : Table S} {mk : ℕ → α} {hmk : ∀ n, S.id (mk n) = n} :
    t.insert mk hmk = none ↔ ∃ r ∈ t, S.clash r (mk t.next) = true := by
  unfold insert
  split
  case isTrue hc =>
    refine iff_of_false (by simp) ?_
    rintro ⟨r, hr, hclash⟩
    rw [hc r hr] at hclash
    exact Bool.false_ne_true hclash
  case isFalse hc =>
    refine iff_of_true rfl ?_
    push Not at hc
    obtain ⟨r, hr, hclash⟩ := hc
    exact ⟨r, hr, by simpa using hclash⟩

theorem mem_insert_iff {t t' : Table S} {mk : ℕ → α} {hmk : ∀ n, S.id (mk n) = n}
    (h : t.insert mk hmk = some t') (r : α) : r ∈ t' ↔ r ∈ t ∨ r = mk t.next := by
  change r ∈ t'.rows ↔ _
  rw [(insert_eq_some h).1]
  simp

theorem mem_insert_of_mem {t t' : Table S} {mk : ℕ → α} {hmk : ∀ n, S.id (mk n) = n}
    (h : t.insert mk hmk = some t') {r : α} (hr : r ∈ t) : r ∈ t' :=
  (mem_insert_iff h _).mpr (Or.inl hr)

/-! ## Deletion -/

/-- Delete the rows satisfying `p`.  The counter keeps its value. -/
def delete (t : Table S) (p : α → Bool) : Table S where
  rows := t.rows.filter fun r => !p r
  next := t.next
  lt_next := fun r hr => t.lt_next r (List.mem_of_mem_filter hr)
  ids_nodup := t.ids_nodup.sublist (List.filter_sublist.map _)
  unique := t.unique.sublist List.filter_sublist

@[simp] theorem rows_delete (t : Table S) (p : α → Bool) :
    (t.delete p).rows = t.rows.filter fun r => !p r := rfl
@[simp] theorem next_delete (t : Table S) (p : α → Bool) : (t.delete p).next = t.next := rfl

@[simp] theorem mem_delete {t : Table S} {p : α → Bool} {r : α} :
    r ∈ t.delete p ↔ r ∈ t ∧ p r = false := by
  change r ∈ t.rows.filter _ ↔ _
  simp

/-! ## Update -/

/-- Rewrite the rows satisfying `p` by a function that leaves the row number and
the unique keys alone. -/
def update (t : Table S) (p : α → Bool) (f : α → α) (hid : ∀ r, S.id (f r) = S.id r)
    (hclash : ∀ r s, S.clash (f r) s = S.clash r s ∧ S.clash r (f s) = S.clash r s) :
    Table S where
  rows := t.rows.map fun r => if p r then f r else r
  next := t.next
  lt_next := by
    intro s hs
    obtain ⟨r, hr, rfl⟩ := List.mem_map.mp hs
    split
    · rw [hid]; exact t.lt_next r hr
    · exact t.lt_next r hr
  ids_nodup := by
    rw [List.map_map]
    have hcomp : (S.id ∘ fun r => if p r then f r else r) = S.id := by
      funext r
      simp only [Function.comp_apply]
      split
      · exact hid r
      · rfl
    rw [hcomp]
    exact t.ids_nodup
  unique := by
    refine List.pairwise_map.mpr (t.unique.imp ?_)
    intro r s h
    split <;> split <;> simp only [(hclash _ _).1, (hclash _ _).2, h]

@[simp] theorem next_update (t : Table S) (p : α → Bool) (f : α → α)
    (hid : ∀ r, S.id (f r) = S.id r)
    (hclash : ∀ r s, S.clash (f r) s = S.clash r s ∧ S.clash r (f s) = S.clash r s) :
    (t.update p f hid hclash).next = t.next := rfl

/-! ## A table written out -/

/-- The same table, with its rows and its counter written out. -/
def written (t : Table S) (rows : List α) (next : ℕ) (h : t.rows = rows ∧ t.next = next) :
    Table S where
  rows := rows
  next := next
  lt_next := by rw [← h.1, ← h.2]; exact t.lt_next
  ids_nodup := by rw [← h.1]; exact t.ids_nodup
  unique := by rw [← h.1]; exact t.unique

theorem eq_written {t : Table S} {rows : List α} {next : ℕ}
    (h : t.rows = rows ∧ t.next = next) : t = t.written rows next h :=
  Table.ext h.1 h.2

/-! ## Writes that change nothing -/

theorem delete_eq_self {t : Table S} {p : α → Bool} (h : (t.rows.filter p).length = 0) :
    t.delete p = t := by
  have hp : ∀ r ∈ t.rows, p r ≠ true :=
    List.filter_eq_nil_iff.mp (List.eq_nil_of_length_eq_zero h)
  refine Table.ext (List.filter_eq_self.mpr fun r hr => ?_) rfl
  rw [Bool.eq_false_iff.mpr (hp r hr), Bool.not_false]

theorem update_eq_self [DecidableEq α] {t : Table S} {p : α → Bool} {f : α → α}
    {hid : ∀ r, S.id (f r) = S.id r}
    {hclash : ∀ r s, S.clash (f r) s = S.clash r s ∧ S.clash r (f s) = S.clash r s}
    (h : (t.rows.filter fun r => p r && decide (f r ≠ r)).length = 0) :
    t.update p f hid hclash = t := by
  have hf : ∀ r ∈ t.rows, p r = true → f r = r := by
    intro r hr hp
    have hr' := List.filter_eq_nil_iff.mp (List.eq_nil_of_length_eq_zero h) r hr
    simpa [hp] using hr'
  have hrows : (t.rows.map fun r => if p r then f r else r) = t.rows.map id := by
    refine List.map_congr_left fun r hr => ?_
    by_cases hp : p r = true
    · rw [if_pos hp, hf r hr hp, id]
    · rw [if_neg hp, id]
  exact Table.ext (hrows.trans (List.map_id _)) rfl

/-! ## Writes that change something -/

theorem exists_insert (t : Table S) (mk : ℕ → α) (hmk : ∀ n, S.id (mk n) = n)
    (h : ∀ r ∈ t, S.clash r (mk t.next) = false) : ∃ t', t.insert mk hmk = some t' := by
  cases hins : t.insert mk hmk with
  | some t' => exact ⟨t', rfl⟩
  | none =>
      obtain ⟨r, hr, hclash⟩ := insert_eq_none.mp hins
      simp [h r hr] at hclash

theorem rows_insert_ne {t t' : Table S} {mk : ℕ → α} {hmk : ∀ n, S.id (mk n) = n}
    (h : t.insert mk hmk = some t') : t'.rows ≠ t.rows := by
  intro heq
  have hlen := congrArg List.length heq
  simp [(insert_eq_some h).1] at hlen

theorem rows_delete_ne {t : Table S} {p : α → Bool} {r : α} (hr : r ∈ t) (hp : p r = true) :
    (t.delete p).rows ≠ t.rows := by
  intro heq
  have hmem : r ∈ (t.delete p).rows := heq ▸ hr
  simp [hp] at hmem

/-- Deleting by a condition that one row alone satisfies takes that row out. -/
theorem rows_delete_eq_erase [DecidableEq α] {t : Table S} {p : α → Bool} {r : α} (hr : p r = true)
    (hp : ∀ s ∈ t, p s = true → s = r) : (t.delete p).rows = t.rows.erase r := by
  rw [rows_delete, List.Nodup.erase_eq_filter t.nodup_rows]
  refine List.filter_congr fun s hs => ?_
  by_cases hsr : s = r
  · simp [hsr, hr]
  · have hps : p s = false := by
      by_contra hne
      exact hsr (hp s hs (by simpa using hne))
    simp [hsr, hps]

/-- The rows of an update, as `rows` unfolds to them. -/
theorem rows_update_ne {t : Table S} {p : α → Bool} {f : α → α} (hid : ∀ r, S.id (f r) = S.id r)
    {r : α} (hr : r ∈ t) (hp : p r = true) (hf : f r ≠ r) :
    (t.rows.map fun r => if p r then f r else r) ≠ t.rows := by
  intro heq
  have hmem : f r ∈ t.rows.map fun r => if p r then f r else r :=
    List.mem_map.mpr ⟨r, hr, by rw [if_pos hp]⟩
  rw [heq] at hmem
  exact hf (eq_of_id hmem hr (hid r))

/-! ## Rows that a write does not concern -/

theorem filter_insert {t t' : Table S} {mk : ℕ → α} {hmk : ∀ n, S.id (mk n) = n}
    (h : t.insert mk hmk = some t') {q : α → Bool} (hq : q (mk t.next) = false) :
    t'.rows.filter q = t.rows.filter q := by
  rw [(insert_eq_some h).1, List.filter_append, List.filter_singleton, hq]
  exact List.append_nil _

theorem filter_delete {t : Table S} {p q : α → Bool} (h : ∀ r ∈ t, p r = true → q r = false) :
    (t.delete p).rows.filter q = t.rows.filter q := by
  rw [rows_delete, List.filter_filter]
  refine List.filter_congr fun r hr => ?_
  by_cases hp : p r = true
  · rw [h r hr hp, Bool.false_and]
  · rw [Bool.eq_false_iff.mpr hp, Bool.not_false, Bool.and_true]

/-- The rows of an update, as `rows` unfolds to them. -/
theorem filter_update {t : Table S} {p q : α → Bool} {f : α → α}
    (h : ∀ r ∈ t, p r = true → q r = false ∧ q (f r) = false) :
    (t.rows.map fun r => if p r then f r else r).filter q = t.rows.filter q := by
  have hmap : ∀ l : List α, (∀ r ∈ l, r ∈ t) →
      (l.map fun r => if p r then f r else r).filter q = l.filter q := by
    intro l
    induction l with
    | nil => exact fun _ => rfl
    | cons r l ih =>
        intro hl
        have ih := ih fun s hs => hl s (List.mem_cons_of_mem r hs)
        rw [List.map_cons, List.filter_cons, List.filter_cons, ih]
        by_cases hp : p r = true
        · obtain ⟨hqr, hqf⟩ := h r (hl r List.mem_cons_self) hp
          rw [if_pos hp, hqr, hqf, if_neg Bool.false_ne_true, if_neg Bool.false_ne_true]
        · rw [if_neg hp]
  exact hmap t.rows fun _ hr => hr

end Table
end SiqiAuth.Lib
