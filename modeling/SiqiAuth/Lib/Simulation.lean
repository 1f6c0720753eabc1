import SiqiAuth.Lib.Run

/-!
# Runs that another system can do

Some steps of a system put something out.  When each such step does to an abstraction of
the state what the other system does with the output, and the other steps cannot be seen,
then a run does what the other system does with all the outputs, in their order.

## Main definitions

* `outputs step out s l` — the outputs of a run.
* `Simulates`, `Simulates.simulated_run` — the other system does the same with the outputs.
* `run_simulates_some` — it does with some of them, when a step with an output may be one
  that cannot be seen.
-/

namespace SiqiAuth.Lib

universe u v w
variable {σ : Type u} {ι : Type v} {ω : Type w} (step : σ → ι → σ) (out : σ → ι → Option ω)

/-- The outputs of the steps of a run, in order. -/
def outputs (s : σ) (l : List ι) : List ω := (transcript step s l).filterMap fun x => out x.1 x.2

@[simp] theorem outputs_nil (s : σ) : outputs step out s [] = [] := rfl

theorem outputs_cons (s : σ) (x : ι) (l : List ι) :
    outputs step out s (x :: l) = (out s x).toList ++ outputs step out (step s x) l := by
  simp only [outputs, transcript, List.filterMap_cons]
  cases out s x <;> rfl

@[simp] theorem outputs_append (s : σ) (l m : List ι) :
    outputs step out s (l ++ m) = outputs step out s l ++ outputs step out (run step s l) m := by
  simp [outputs]

variable {step out} {α : Type*} {f : σ → α} {g : α → ω → α} {R : α → ω → Prop}
  {I : σ → Prop} {C : σ → ι → Prop}

/-- A step without an output cannot be seen, and one with an output is a step of the other
system, of which `R` holds.  The steps are those that meet `C`, and they keep `I`. -/
structure Simulates (step : σ → ι → σ) (out : σ → ι → Option ω) {α : Type*} (f : σ → α)
    (g : α → ω → α) (R : α → ω → Prop) (I : σ → Prop) (C : σ → ι → Prop) : Prop where
  inv : ∀ s x, I s → C s x → I (step s x)
  silent : ∀ s x, I s → C s x → out s x = none → f (step s x) = f s
  seen : ∀ s x y, I s → C s x → out s x = some y → R (f s) y ∧ f (step s x) = g (f s) y

/-- **Simulation.**  A run does what the other system does with the outputs. -/
theorem Simulates.simulated_run (h : Simulates step out f g R I C) {s : σ} {l : List ι} (hI : I s)
    (hC : Meets step C s l) : Meets g R (f s) (outputs step out s l) ∧
      f (run step s l) = run g (f s) (outputs step out s l) := by
  induction l generalizing s with
  | nil => exact ⟨trivial, rfl⟩
  | cons x l ih =>
      obtain ⟨hmeets, hrun⟩ := ih (h.inv s x hI hC.1) hC.2
      rw [outputs_cons, run_cons, hrun]
      cases hout : out s x with
      | none =>
          rw [h.silent s x hI hC.1 hout] at hmeets ⊢
          exact ⟨hmeets, rfl⟩
      | some y =>
          obtain ⟨hR, hstep⟩ := h.seen s x y hI hC.1 hout
          rw [hstep] at hmeets ⊢
          exact ⟨⟨hR, hmeets⟩, rfl⟩

/-- The same of every run, when all steps are simulated. -/
theorem Simulates.simulated (h : Simulates step out f g R I fun _ _ => True) {s : σ} (hI : I s)
    (l : List ι) : Meets g R (f s) (outputs step out s l) ∧
      f (run step s l) = run g (f s) (outputs step out s l) :=
  h.simulated_run hI (meets_of_forall _ (fun _ _ => trivial) _ _)

/-- Simulation by some of the outputs, when every step either cannot be seen or is a step of
the other system with its output. -/
theorem run_simulates_some (hinv : ∀ s x, I s → C s x → I (step s x))
    (hstep : ∀ s x, I s → C s x → f (step s x) = f s ∨
      ∃ y ∈ out s x, R (f s) y ∧ f (step s x) = g (f s) y)
    {s : σ} {l : List ι} (hI : I s) (hC : Meets step C s l) :
    ∃ ys, ys.Sublist (outputs step out s l) ∧ Meets g R (f s) ys ∧
      f (run step s l) = run g (f s) ys := by
  induction l generalizing s with
  | nil => exact ⟨[], List.Sublist.refl [], trivial, rfl⟩
  | cons x l ih =>
      obtain ⟨ys, hsub, hmeets, hrun⟩ := ih (hinv s x hI hC.1) hC.2
      rw [outputs_cons, run_cons, hrun]
      obtain hsame | ⟨y, hout, hR, hnext⟩ := hstep s x hI hC.1
      · rw [hsame] at hmeets ⊢
        exact ⟨ys, hsub.trans (List.sublist_append_right _ _), hmeets, rfl⟩
      · rw [hnext] at hmeets ⊢
        rw [Option.mem_def.mp hout]
        exact ⟨y :: ys, hsub.cons_cons y, ⟨hR, hmeets⟩, rfl⟩

end SiqiAuth.Lib
