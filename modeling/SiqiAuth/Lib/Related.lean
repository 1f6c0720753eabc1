import Mathlib.Data.List.Forall2
import SiqiAuth.Lib.Run

/-!
# Two runs side by side

A relational triple: two stateful programs, started in states that `P` relates, end in
states that `Q` relates, given the results that they return.

## Main definitions

* `Related P x y Q` — the triple.
* `Related.bind`, `Related.ite`, `Related.mapM` and their siblings — its rules.
* `transcript_forall₂` — two systems whose steps keep a relation of their states, run on
  lists of related inputs.
-/

namespace SiqiAuth.Lib

universe u v
variable {σ τ : Type u} {α β γ δ : Type u}

/-- From states in `P`, the programs end with results and states in `Q`. -/
def Related (P : σ → τ → Prop) (x : StateM σ α) (y : StateM τ β)
    (Q : α → β → σ → τ → Prop) : Prop :=
  ∀ s t, P s t → Q (x.run s).1 (y.run t).1 (x.run s).2 (y.run t).2

namespace Related
variable {P : σ → τ → Prop} {x : StateM σ α} {y : StateM τ β} {Q : α → β → σ → τ → Prop}

theorem pure {a : α} {b : β} (h : ∀ s t, P s t → Q a b s t) :
    Related P (Pure.pure a : StateM σ α) (Pure.pure b : StateM τ β) Q := h

theorem bind {f : α → StateM σ γ} {g : β → StateM τ δ} {Q' : γ → δ → σ → τ → Prop}
    (hxy : Related P x y Q) (hfg : ∀ a b, Related (Q a b) (f a) (g b) Q') :
    Related P (x >>= f) (y >>= g) Q' :=
  fun s t hst => hfg _ _ _ _ (hxy s t hst)

/-- What does not depend on the state may be taken out of the precondition. -/
theorem of_and {p : Prop} (h : p → Related P x y Q) : Related (fun s t => p ∧ P s t) x y Q :=
  fun s t hst => h hst.1 s t hst.2

/-- Programs that branch on the same condition. -/
theorem ite {p : Prop} [Decidable p] {x' : StateM σ α} {y' : StateM τ β}
    (h : p → Related P x y Q) (h' : ¬ p → Related P x' y' Q) :
    Related P (if p then x else x') (if p then y else y') Q := by
  by_cases hp : p
  · simp only [if_pos hp]
    exact h hp
  · simp only [if_neg hp]
    exact h' hp

/-- Loops over one list that keep `P`. -/
theorem mapM {ι : Type u} {R : α → β → Prop} {f : ι → StateM σ α} {g : ι → StateM τ β}
    (l : List ι) (h : ∀ i, Related P (f i) (g i) fun a b s t => R a b ∧ P s t) :
    Related P (l.mapM f) (l.mapM g) fun as bs s t => List.Forall₂ R as bs ∧ P s t := by
  induction l with
  | nil => exact .pure fun _ _ hst => ⟨.nil, hst⟩
  | cons i l ih =>
      rw [List.mapM_cons, List.mapM_cons]
      refine (h i).bind fun a b => .of_and fun hab => ih.bind fun as bs => ?_
      exact .pure fun _ _ hst => ⟨.cons hab hst.1, hst.2⟩

end Related

/-- Two systems whose steps on related inputs keep `R`: along two runs on lists of
related inputs, all states are in `R`. -/
theorem transcript_forall₂ {σ τ : Type u} {ι κ : Type v} (step : σ → ι → σ) (step' : τ → κ → τ)
    {R : σ → τ → Prop} {X : ι → κ → Prop}
    (hstep : ∀ s t x y, R s t → X x y → R (step s x) (step' t y)) {l : List ι} {m : List κ}
    (hlm : List.Forall₂ X l m) {s : σ} {t : τ} (hst : R s t) :
    List.Forall₂ (fun p q => R p.1 q.1 ∧ X p.2 q.2) (transcript step s l) (transcript step' t m) := by
  induction hlm generalizing s t with
  | nil => exact .nil
  | cons hxy _ ih => exact .cons ⟨hst, hxy⟩ (ih (hstep s t _ _ hst hxy))

end SiqiAuth.Lib
