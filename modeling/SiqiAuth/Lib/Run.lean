import Mathlib.Data.List.Basic

/-!
# Runs of a deterministic system

A system is a function from a state and an input to the next state.  `run` folds
it over a list of inputs, `Meets` says that a condition on state and input holds
at every step of a run, and `transcript` records each step with the state it
started from.

## Main definitions

* `run step s l` — the state after the inputs `l`.
* `Meets step C s l` — every step of the run satisfies `C`.
* `run_invariant` — an invariant kept by the steps that satisfy `C` holds after a
  run that meets `C`.
* `transcript step s l` — the steps of a run.
-/

namespace SiqiAuth.Lib

universe u v
variable {σ : Type u} {ι : Type v} (step : σ → ι → σ)

/-- The state after the inputs `l`. -/
def run (s : σ) (l : List ι) : σ := l.foldl step s

@[simp] theorem run_nil (s : σ) : run step s [] = s := rfl
@[simp] theorem run_cons (s : σ) (x : ι) (l : List ι) :
    run step s (x :: l) = run step (step s x) l := rfl

@[simp] theorem run_append (s : σ) (l m : List ι) :
    run step s (l ++ m) = run step (run step s l) m :=
  List.foldl_append

/-- Every step of the run satisfies `C`, which may speak of the state before the
step and of its input. -/
def Meets (C : σ → ι → Prop) : σ → List ι → Prop
  | _, [] => True
  | s, x :: l => C s x ∧ Meets C (step s x) l

@[simp] theorem meets_nil (C : σ → ι → Prop) (s : σ) : Meets step C s [] := trivial
@[simp] theorem meets_cons (C : σ → ι → Prop) (s : σ) (x : ι) (l : List ι) :
    Meets step C s (x :: l) ↔ C s x ∧ Meets step C (step s x) l := Iff.rfl

@[simp] theorem meets_append (C : σ → ι → Prop) (s : σ) (l m : List ι) :
    Meets step C s (l ++ m) ↔ Meets step C s l ∧ Meets step C (run step s l) m := by
  induction l generalizing s with
  | nil => simp
  | cons x l ih => simp [ih, and_assoc]

instance decidableMeets (C : σ → ι → Prop) [∀ s x, Decidable (C s x)] :
    ∀ (s : σ) (l : List ι), Decidable (Meets step C s l)
  | _, [] => isTrue trivial
  | s, x :: l =>
      have := decidableMeets C (step s x) l
      inferInstanceAs (Decidable (C s x ∧ Meets step C (step s x) l))

/-- A condition holds of every step of a run when it holds of every step from every
state. -/
theorem meets_of_forall {C : σ → ι → Prop} (h : ∀ s x, C s x) (s : σ) (l : List ι) :
    Meets step C s l := by
  induction l generalizing s with
  | nil => trivial
  | cons x l ih => exact ⟨h s x, ih _⟩

variable {step}

theorem Meets.and {C D : σ → ι → Prop} {s : σ} {l : List ι} (hC : Meets step C s l)
    (hD : Meets step D s l) : Meets step (fun s x => C s x ∧ D s x) s l := by
  induction l generalizing s with
  | nil => trivial
  | cons x l ih => exact ⟨⟨hC.1, hD.1⟩, ih hC.2 hD.2⟩

theorem Meets.mono {C D : σ → ι → Prop} {s : σ} {l : List ι} (h : Meets step C s l)
    (hCD : ∀ s x, C s x → D s x) : Meets step D s l := by
  induction l generalizing s with
  | nil => trivial
  | cons x l ih => exact ⟨hCD s x h.1, ih h.2⟩

/-- **Induction along a run.**  What holds at the start and is kept by every step
that satisfies `C` holds after a run whose steps all satisfy `C`. -/
theorem run_invariant {C : σ → ι → Prop} {P : σ → Prop}
    (hstep : ∀ s x, P s → C s x → P (step s x)) {s : σ} {l : List ι} (h0 : P s)
    (hC : Meets step C s l) : P (run step s l) := by
  induction l generalizing s with
  | nil => exact h0
  | cons x l ih => exact ih (hstep s x h0 hC.1) hC.2

/-- Induction along an arbitrary run. -/
theorem run_induction {P : σ → Prop} (hstep : ∀ s x, P s → P (step s x)) {s : σ}
    (l : List ι) (h0 : P s) : P (run step s l) :=
  run_invariant (C := fun _ _ => True) (fun s x h _ => hstep s x h) h0
    (meets_of_forall step (fun _ _ => trivial) s l)

/-- A reflexive and transitive relation that every step respects relates the ends of
every run. -/
theorem run_rel {R : σ → σ → Prop} (hrefl : ∀ s, R s s)
    (htrans : ∀ s t u, R s t → R t u → R s u) (hstep : ∀ s x, R s (step s x)) (s : σ)
    (l : List ι) : R s (run step s l) :=
  run_induction (P := R s) (fun t x h => htrans s t _ h (hstep t x)) l (hrefl s)

variable (step)

/-- The steps of a run: the state each began in, and its input. -/
def transcript : σ → List ι → List (σ × ι)
  | _, [] => []
  | s, x :: l => (s, x) :: transcript (step s x) l

@[simp] theorem transcript_nil (s : σ) : transcript step s [] = [] := rfl
@[simp] theorem transcript_append (s : σ) (l m : List ι) :
    transcript step s (l ++ m) = transcript step s l ++ transcript step (run step s l) m := by
  induction l generalizing s with
  | nil => rfl
  | cons x l ih => simp [transcript, ih]

end SiqiAuth.Lib
