import Mathlib.Data.List.Induction
import Mathlib.Data.Set.Basic
import Mathlib.Order.Defs.LinearOrder
import SiqiAuth.Lib.Run

/-!
# A map whose values expire

A `TimedMap` holds under each key a value and the time until which it is live.  It changes when a
value is written, or when the keys in a set are removed; what it holds after a history of changes
is what the last one that touched the key has left.

## Main definitions

* `TimedMap`, `TimedMap.live` — the map, and the value that is live at a time.
* `Change`, `TimedMap.change` — the changes.
* `run_change_eq_some` — what it holds after a history.
-/

namespace SiqiAuth.Lib

variable {κ α τ : Type}

/-- Under each key a value, and the time until which it is live. -/
def TimedMap (κ α τ : Type) : Type := κ → Option (α × τ)

/-- A value is written under a key, until a time, or the keys in a set are removed. -/
inductive Change (κ α τ : Type)
  | write (key : κ) (value : α) (expiry : τ)
  | remove (keys : Set κ)

/-- The change is about a key. -/
def Change.Touches (k : κ) : Change κ α τ → Prop
  | write key _ _ => key = k
  | remove keys => k ∈ keys

namespace TimedMap

def empty : TimedMap κ α τ := fun _ => none

open scoped Classical in
/-- The map after a change. -/
noncomputable def change (m : TimedMap κ α τ) : Change κ α τ → TimedMap κ α τ
  | .write key value expiry => fun k => if key = k then some (value, expiry) else m k
  | .remove keys => fun k => if k ∈ keys then none else m k

/-- The value under a key that is live at a time. -/
def live [LinearOrder τ] (m : TimedMap κ α τ) (t : τ) (k : κ) : Option α :=
  ((m k).filter fun x => decide (t ≤ x.2)).map Prod.fst

variable {m : TimedMap κ α τ} {k : κ} {v : α} {u : τ}

theorem live_eq_some [LinearOrder τ] {t : τ} :
    m.live t k = some v ↔ ∃ u, m k = some (v, u) ∧ t ≤ u := by
  simp only [live, Option.map_eq_some_iff, Option.filter_eq_some_iff, decide_eq_true_eq]
  constructor
  · rintro ⟨⟨v', u⟩, ⟨hm, hle⟩, rfl⟩
    exact ⟨u, hm, hle⟩
  · intro ⟨u, hm, hle⟩
    exact ⟨(v, u), ⟨hm, hle⟩, rfl⟩

theorem change_of_not_touches {x : Change κ α τ} (h : ¬ x.Touches k) : m.change x k = m k := by
  cases x with
  | write key v u => exact if_neg h
  | remove keys => exact if_neg h

theorem change_eq_some {x : Change κ α τ} :
    m.change x k = some (v, u) ↔ x = .write k v u ∨ ¬ x.Touches k ∧ m k = some (v, u) := by
  by_cases h : x.Touches k
  · cases x with
    | write key v' u' =>
        obtain rfl : key = k := h
        simp [change, Change.Touches]
    | remove keys =>
        have hmem : k ∈ keys := h
        simp [change, Change.Touches, hmem]
  · have hne : x ≠ .write k v u := by
      rintro rfl
      exact h rfl
    simp [change_of_not_touches h, hne, h]

theorem live_change_write [LinearOrder τ] [DecidableEq κ] (m : TimedMap κ α τ) (t : τ) (key k : κ)
    (v : α) (u : τ) : (m.change (.write key v u)).live t k =
      if k = key then if t ≤ u then some v else none else m.live t k := by
  by_cases hk : k = key
  · subst hk
    by_cases hle : t ≤ u <;> simp [live, change, hle, Option.filter]
  · simp [live, change, hk, Ne.symm hk]

theorem live_change_remove [LinearOrder τ] (m : TimedMap κ α τ) (t : τ) (keys : Set κ) (k : κ)
    [Decidable (k ∈ keys)] :
    (m.change (.remove keys)).live t k = if k ∈ keys then none else m.live t k := by
  by_cases hk : k ∈ keys <;> simp [live, change, hk]

/-- **What the map holds is what the last change that touched the key has written.** -/
theorem run_change_eq_some {l : List (Change κ α τ)} :
    run change empty l k = some (v, u) ↔
      ∃ l₁ l₂, l = l₁ ++ .write k v u :: l₂ ∧ ∀ x ∈ l₂, ¬ x.Touches k := by
  induction l using List.reverseRecOn with
  | nil => simp [empty]
  | append_singleton l x ih =>
      rw [run_append, run_cons, run_nil, change_eq_some, ih]
      constructor
      · rintro (rfl | ⟨hx, l₁, l₂, rfl, hl₂⟩)
        · exact ⟨l, [], rfl, by simp⟩
        · refine ⟨l₁, l₂ ++ [x], by simp, fun y hy => ?_⟩
          rcases List.mem_append.mp hy with hy | hy
          · exact hl₂ y hy
          · rwa [List.mem_singleton.mp hy]
      · intro ⟨l₁, l₂, hl, hl₂⟩
        rcases l₂.eq_nil_or_concat with rfl | ⟨l₂, y, rfl⟩
        · obtain ⟨-, hx⟩ := List.append_inj' hl rfl
          exact Or.inl (List.singleton_inj.mp hx)
        · rw [List.concat_eq_append, ← List.cons_append, ← List.append_assoc] at hl
          obtain ⟨rfl, hx⟩ := List.append_inj' hl rfl
          obtain rfl := List.singleton_inj.mp hx
          exact Or.inr ⟨hl₂ _ (by simp), l₁, l₂, rfl, fun z hz => hl₂ z (by simp [hz])⟩

end TimedMap
end SiqiAuth.Lib
