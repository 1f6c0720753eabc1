import Mathlib.Algebra.BigOperators.Group.List.Basic
import Mathlib.Algebra.Group.Prod
import Mathlib.Data.List.Induction
import Mathlib.Data.List.Nodup
import Mathlib.Data.List.Perm.Basic
import Mathlib.Logic.Function.Iterate
import SiqiAuth.Lib.Run

/-!
# Interleaved threads

A pool runs threads over one shared state.  A move of the scheduler starts a thread,
or lets one of the threads take its next atomic step.  Threads are numbered in the
order they start in, and stay in the pool when they are done.

## Main definitions

* `Pool`, `Move`, `Pool.step` — the threads, the moves of the scheduler, what a move
  does.
* `Pool.step_shared` — what happens to the shared state.
* `Pool.run_solo` — a thread that runs alone.
* `Pool.run_shared` — the invariant rule for the shared state.
* `Pool.run_later` — the invariant rule for the threads that start after some point.
* `Pool.run_ghost` — the invariant rule for what threads know of the shared state.
* `Pool.run_past` — the invariant rule for what has to do with the moves so far;
  `Pool.run_each` — the same for each thread by its number.
* `Pool.Written`, `Pool.run_log` — a log that the threads write to, and its invariant rule.
* `Pool.sum`, `Pool.run_sum` — a quantity summed over the threads, and the invariant rule
  for the shared state together with such a sum.
-/

namespace SiqiAuth.Lib

universe u
variable {σ τ ι : Type u}

/-- Threads over a shared state. -/
structure Pool (σ τ : Type u) where
  shared : σ
  threads : List τ

/-- A move of the scheduler. -/
inductive Move (ι : Type u)
  | start (q : ι)
  | advance (i : ℕ)
  deriving DecidableEq, Repr

namespace Pool
variable (init : ι → τ) (next : τ → σ → τ × σ)

/-- A thread starts, or the thread with the number takes its next step. -/
def step (p : Pool σ τ) : Move ι → Pool σ τ
  | .start q => { p with threads := p.threads ++ [init q] }
  | .advance i =>
      match p.threads[i]? with
      | none => p
      | some t => ⟨(next t p.shared).2, p.threads.set i (next t p.shared).1⟩

variable {init next} {p : Pool σ τ} {i j : ℕ} {t : τ}

theorem step_advance (h : p.threads[i]? = some t) : p.step init next (.advance i) =
    ⟨(next t p.shared).2, p.threads.set i (next t p.shared).1⟩ := by
  simp only [step, h]

/-- The shared state changes only by the next step of a thread. -/
theorem step_shared (init : ι → τ) (next : τ → σ → τ × σ) (p : Pool σ τ) (x : Move ι) :
    (p.step init next x).shared = p.shared ∨ ∃ i t, x = .advance i ∧
      p.threads[i]? = some t ∧ (p.step init next x).shared = (next t p.shared).2 := by
  cases x with
  | start q => exact Or.inl rfl
  | advance i =>
      cases h : p.threads[i]? with
      | none => exact Or.inl (by simp only [step, h])
      | some t => exact Or.inr ⟨i, t, rfl, h, by rw [step_advance h]⟩

/-- A thread of the pool after a move was in it before, has just started, or is what a
thread became by its next step. -/
theorem step_thread {x : Move ι} (h : (p.step init next x).threads[j]? = some t) :
    p.threads[j]? = some t ∨ (∃ q, x = .start q ∧ j = p.threads.length ∧ t = init q) ∨
      ∃ t', x = .advance j ∧ p.threads[j]? = some t' ∧ t = (next t' p.shared).1 := by
  cases x with
  | start q =>
      rw [step, List.getElem?_append] at h
      split at h
      case isTrue => exact Or.inl h
      case isFalse hj =>
        rw [List.getElem?_singleton] at h
        split at h
        case isTrue hj' =>
          exact Or.inr (Or.inl ⟨q, rfl, by omega, (Option.some_inj.mp h).symm⟩)
        case isFalse => cases h
  | advance i =>
      cases hi : p.threads[i]? with
      | none =>
          rw [step, hi] at h
          exact Or.inl h
      | some t' =>
          rw [step_advance hi, List.getElem?_set] at h
          split at h
          case isTrue hij =>
            subst hij
            split at h
            · exact Or.inr (Or.inr ⟨t', rfl, hi, (Option.some_inj.mp h).symm⟩)
            · cases h
          case isFalse => exact Or.inl h

/-- A thread of the pool takes its next step in a move, or stays as it is. -/
theorem getElem?_step (init : ι → τ) (next : τ → σ → τ × σ) (h : p.threads[j]? = some t)
    (x : Move ι) :
    (x = .advance j ∧ (p.step init next x).threads[j]? = some (next t p.shared).1) ∨
      (x ≠ .advance j ∧ (p.step init next x).threads[j]? = some t) := by
  obtain ⟨hj, -⟩ := List.getElem?_eq_some_iff.mp h
  cases x with
  | start q => exact Or.inr ⟨nofun, (List.getElem?_append_left hj).trans h⟩
  | advance i =>
      by_cases hij : i = j
      · subst hij
        rw [step_advance h]
        exact Or.inl ⟨rfl, List.getElem?_set_self hj⟩
      · refine Or.inr ⟨fun heq => hij (Move.advance.inj heq), ?_⟩
        cases hi : p.threads[i]? with
        | none =>
            rw [step, hi]
            exact h
        | some t' =>
            rw [step_advance hi, List.getElem?_set_ne hij]
            exact h

/-- What every step keeps of a thread holds of it after every run. -/
theorem run_stays (init : ι → τ) (next : τ → σ → τ × σ) {T : τ → Prop}
    (hnext : ∀ t s, T t → T (next t s).1)
    (l : List (Move ι)) (h : ∃ t, p.threads[j]? = some t ∧ T t) :
    ∃ t, (run (step init next) p l).threads[j]? = some t ∧ T t := by
  refine run_induction (P := fun p : Pool σ τ => ∃ t, p.threads[j]? = some t ∧ T t)
    (fun p x hp => ?_) l h
  obtain ⟨t, ht, hT⟩ := hp
  obtain ⟨-, ht'⟩ | ⟨-, ht'⟩ := getElem?_step init next ht x
  · exact ⟨_, ht', hnext t p.shared hT⟩
  · exact ⟨t, ht', hT⟩

/-- A thread that is started and then runs alone. -/
theorem run_solo (p : Pool σ τ) (q : ι) (n : ℕ) :
    run (step init next) p (.start q :: List.replicate n (.advance p.threads.length)) =
      ⟨((fun x => next x.1 x.2)^[n] (init q, p.shared)).2,
        p.threads ++ [((fun x => next x.1 x.2)^[n] (init q, p.shared)).1]⟩ := by
  have hadvance : ∀ t s, step init next ⟨s, p.threads ++ [t]⟩ (.advance p.threads.length : Move ι) =
      ⟨(next t s).2, p.threads ++ [(next t s).1]⟩ := by
    intro t s
    rw [step_advance (t := t) (by simp)]
    simp
  rw [run_cons]
  change run (step init next) ⟨p.shared, p.threads ++ [init q]⟩ _ = _
  generalize init q = t
  generalize p.shared = s
  induction n generalizing s t with
  | zero => rfl
  | succ n ih => rw [List.replicate_succ, run_cons, hadvance, ih, Function.iterate_succ_apply]

/-- What every step that meets `C` keeps of the shared state holds after a run that
meets `C`. -/
theorem run_shared {I : σ → Prop} {C : Pool σ τ → Move ι → Prop}
    (hnext : ∀ p : Pool σ τ, ∀ i t, I p.shared → p.threads[i]? = some t → C p (.advance i) →
      I (next t p.shared).2)
    {l : List (Move ι)} (hI : I p.shared) (hl : Meets (step init next) C p l) :
    I (run (step init next) p l).shared := by
  refine run_invariant (P := fun p' : Pool σ τ => I p'.shared) (fun p' x hp' hx => ?_) hI hl
  obtain hsame | ⟨i, t, rfl, hi, hshared⟩ := step_shared init next p' x
  · rw [hsame]
    exact hp'
  · rw [hshared]
    exact hnext p' i t hp' hi hx

/-- **The invariant rule for later threads.**  Let every step that meets `C` keep `I` of
the shared state and `T` of the thread that takes it, and let `T` hold of every thread
at its start.  Then in a run that meets `C`, `T` holds of all threads that started
during the run. -/
theorem run_later {I : σ → Prop} {T : τ → Prop} {C : Pool σ τ → Move ι → Prop}
    (hstart : ∀ q, T (init q))
    (hnext : ∀ p : Pool σ τ, ∀ i t, I p.shared → p.threads[i]? = some t → C p (.advance i) →
      I (next t p.shared).2 ∧ (T t → T (next t p.shared).1))
    {l : List (Move ι)} (hI : I p.shared) (hl : Meets (step init next) C p l)
    (hj : p.threads.length ≤ j) (ht : (run (step init next) p l).threads[j]? = some t) : T t := by
  have hinv : I (run (step init next) p l).shared ∧
      ∀ j t, p.threads.length ≤ j → (run (step init next) p l).threads[j]? = some t → T t := by
    refine run_invariant (P := fun p' : Pool σ τ => I p'.shared ∧
      ∀ j t, p.threads.length ≤ j → p'.threads[j]? = some t → T t) (fun p' x hp' hx => ?_)
      ⟨hI, fun j t hj ht => ?_⟩ hl
    · constructor
      · obtain hsame | ⟨i, t, rfl, hi, hshared⟩ := step_shared init next p' x
        · rw [hsame]
          exact hp'.1
        · rw [hshared]
          exact (hnext p' i t hp'.1 hi hx).1
      · intro j t hj ht
        obtain hbefore | ⟨q, -, -, rfl⟩ | ⟨t', rfl, hi, rfl⟩ := step_thread ht
        · exact hp'.2 j t hj hbefore
        · exact hstart q
        · exact (hnext p' j t' hp'.1 hi hx).2 (hp'.2 j t' hj hi)
    · rw [List.getElem?_eq_none hj] at ht
      cases ht
  exact hinv.2 j t hj ht

/-- **The invariant rule for what threads know.**  Let a ghost value go along with the shared
state, as `J` says, and let `T` say what a thread knows of both.  If every step that meets
`C` can move the ghost so that the thread knows what it should, and what the others know
stays true, then this holds after every run that meets `C`. -/
theorem run_ghost {κ : Type*} {J : κ → σ → Prop} {T : κ → σ → τ → Prop}
    {C : Pool σ τ → Move ι → Prop} (hstart : ∀ k s q, J k s → T k s (init q))
    (hnext : ∀ (p : Pool σ τ) i t k, p.threads[i]? = some t → C p (.advance i) → J k p.shared →
      T k p.shared t → ∃ k', J k' (next t p.shared).2 ∧
        T k' (next t p.shared).2 (next t p.shared).1 ∧
        ∀ t', T k p.shared t' → T k' (next t p.shared).2 t')
    {l : List (Move ι)} (hp : ∃ k, J k p.shared ∧ ∀ t ∈ p.threads, T k p.shared t)
    (hl : Meets (step init next) C p l) :
    ∃ k, J k (run (step init next) p l).shared ∧
      ∀ t ∈ (run (step init next) p l).threads, T k (run (step init next) p l).shared t := by
  refine run_invariant (P := fun p : Pool σ τ => ∃ k, J k p.shared ∧ ∀ t ∈ p.threads, T k p.shared t)
    (fun p x hp hx => ?_) hp hl
  obtain ⟨k, hJ, hT⟩ := hp
  cases x with
  | start q =>
      refine ⟨k, hJ, fun t ht => ?_⟩
      rcases List.mem_append.mp ht with ht | ht
      · exact hT t ht
      · obtain rfl := List.mem_singleton.mp ht
        exact hstart k p.shared q hJ
  | advance i =>
      cases h : p.threads[i]? with
      | none =>
          simp only [step, h]
          exact ⟨k, hJ, hT⟩
      | some t =>
          have hmem := List.mem_of_getElem? h
          obtain ⟨k', hJ', ht', hothers⟩ := hnext p i t k h hx hJ (hT t hmem)
          rw [step_advance h]
          refine ⟨k', hJ', fun u hu => ?_⟩
          rcases List.mem_or_eq_of_mem_set hu with hu | rfl
          · exact hothers u (hT u hu)
          · exact ht'

/-- **The invariant rule for the shared state and all threads**, where what threads know is not
about the shared state. -/
theorem run_threads {I : σ → Prop} {T : τ → Prop} {C : Pool σ τ → Move ι → Prop}
    (hstart : ∀ q, T (init q))
    (hnext : ∀ p : Pool σ τ, ∀ i t, I p.shared → p.threads[i]? = some t → C p (.advance i) → T t →
      I (next t p.shared).2 ∧ T (next t p.shared).1)
    {l : List (Move ι)} (hI : I p.shared) (hT : ∀ t ∈ p.threads, T t)
    (hl : Meets (step init next) C p l) :
    I (run (step init next) p l).shared ∧ ∀ t ∈ (run (step init next) p l).threads, T t := by
  have hghost : ∃ _ : Unit, I (run (step init next) p l).shared ∧
      ∀ t ∈ (run (step init next) p l).threads, T t := by
    refine run_ghost (J := fun _ => I) (T := fun _ _ => T) (fun _ _ q _ => hstart q)
      (fun p i t _ hi hC hI hT => ?_) ⟨(), hI, hT⟩ hl
    obtain ⟨hI', hT'⟩ := hnext p i t hI hi hC hT
    exact ⟨(), hI', hT', fun _ h => h⟩
  exact hghost.elim fun _ => id

/-- The rule for later threads, when the others have to be known about as well: `T` holds of
all threads, and `U` of those that start from some point on. -/
theorem run_later_of {I : σ → Prop} {T U : τ → Prop} {C : Pool σ τ → Move ι → Prop}
    (hstart : ∀ q, T (init q) ∧ U (init q))
    (hnext : ∀ p : Pool σ τ, ∀ i t, I p.shared → p.threads[i]? = some t → C p (.advance i) → T t →
      I (next t p.shared).2 ∧ T (next t p.shared).1 ∧ (U t → U (next t p.shared).1))
    {l : List (Move ι)} (hI : I p.shared) (hT : ∀ t ∈ p.threads, T t)
    (hl : Meets (step init next) C p l) (hj : p.threads.length ≤ j)
    (ht : (run (step init next) p l).threads[j]? = some t) : U t := by
  have hinv : (I (run (step init next) p l).shared ∧
      ∀ t ∈ (run (step init next) p l).threads, T t) ∧
      ∀ j t, p.threads.length ≤ j → (run (step init next) p l).threads[j]? = some t → U t := by
    refine run_invariant (P := fun p' : Pool σ τ => (I p'.shared ∧ ∀ t ∈ p'.threads, T t) ∧
      ∀ j t, p.threads.length ≤ j → p'.threads[j]? = some t → U t) (fun p' x hp' hx => ⟨?_, ?_⟩)
      ⟨⟨hI, hT⟩, fun j t hj ht => ?_⟩ hl
    · exact run_threads (p := p') (fun q => (hstart q).1) (fun p i t hI hi hC hT =>
        (hnext p i t hI hi hC hT).imp_right And.left) hp'.1.1 hp'.1.2 (l := [x]) ⟨hx, trivial⟩
    · intro j t hj ht
      obtain hbefore | ⟨q, -, -, rfl⟩ | ⟨t', rfl, hi, rfl⟩ := step_thread ht
      · exact hp'.2 j t hj hbefore
      · exact (hstart q).2
      · exact (hnext p' j t' hp'.1.1 hi hx (hp'.1.2 t' (List.mem_of_getElem? hi))).2.2
          (hp'.2 j t' hj hi)
    · rw [List.getElem?_eq_none hj] at ht
      cases ht
  exact hinv.2 j t hj ht

/-- **The invariant rule for the past.**  Let `J` say of the shared state, and `T` of a thread,
what has to do with the moves so far.  If both stay true as the past grows, a thread starts
with `T`, and every step brings about `J` and `T`, then they hold after every run. -/
theorem run_past {J : List (Move ι) → σ → Prop} {T : List (Move ι) → τ → Prop}
    (hJ : ∀ l x s, J l s → J (l ++ [x]) s) (hT : ∀ l x t, T l t → T (l ++ [x]) t)
    (hstart : ∀ l q, T (l ++ [.start q]) (init q))
    (hnext : ∀ l i t, (run (step init next) p l).threads[i]? = some t →
      J l (run (step init next) p l).shared → T l t →
        J (l ++ [.advance i]) (next t (run (step init next) p l).shared).2 ∧
          T (l ++ [.advance i]) (next t (run (step init next) p l).shared).1)
    (hp : J [] p.shared ∧ ∀ t ∈ p.threads, T [] t) (l : List (Move ι)) :
    J l (run (step init next) p l).shared ∧ ∀ t ∈ (run (step init next) p l).threads, T l t := by
  induction l using List.reverseRecOn with
  | nil => exact hp
  | append_singleton l x ih =>
      rw [run_append]
      constructor
      · obtain hsame | ⟨i, t, rfl, hi, hshared⟩ :=
          step_shared init next (run (step init next) p l) x
        · change J _ (step init next (run (step init next) p l) x).shared
          rw [hsame]
          exact hJ l x _ ih.1
        · change J _ (step init next (run (step init next) p l) (.advance i)).shared
          rw [hshared]
          exact (hnext l i t hi ih.1 (ih.2 t (List.mem_of_getElem? hi))).1
      · intro t ht
        obtain ⟨j, ht⟩ := List.mem_iff_getElem?.mp ht
        obtain hbefore | ⟨q, rfl, -, rfl⟩ | ⟨t', rfl, hi, rfl⟩ := step_thread ht
        · exact hT l x t (ih.2 t (List.mem_of_getElem? hbefore))
        · exact hstart l q
        · exact (hnext l j t' hi ih.1 (ih.2 t' (List.mem_of_getElem? hi))).2

/-- The rule for the past, of each thread by its number. -/
theorem run_each {T : List (Move ι) → ℕ → τ → Prop}
    (hT : ∀ l x i t, T l i t → T (l ++ [x]) i t)
    (hstart : ∀ l q, T (l ++ [.start q]) (run (step init next) p l).threads.length (init q))
    (hnext : ∀ l i t, (run (step init next) p l).threads[i]? = some t → T l i t →
      T (l ++ [.advance i]) i (next t (run (step init next) p l).shared).1)
    (hp : ∀ i t, p.threads[i]? = some t → T [] i t) (l : List (Move ι)) :
    ∀ i t, (run (step init next) p l).threads[i]? = some t → T l i t := by
  induction l using List.reverseRecOn with
  | nil => exact hp
  | append_singleton l x ih =>
      intro j t ht
      rw [run_append] at ht
      obtain hbefore | ⟨q, rfl, rfl, rfl⟩ | ⟨t', rfl, hi, rfl⟩ := step_thread ht
      · exact hT l x j t (ih j t hbefore)
      · exact hstart l q
      · exact hnext l j t' hi (ih j t' hi)

/-! ## A log that the threads write to -/

section Log
variable {α : Type*} {log : σ → List α} {entries₀ : List α} {p' : Pool σ τ}

/-- The log is what it was, followed by entries of distinct threads: each thread vouches for its
entry, as `V` says, and all that owe one, as `D` says, have written. -/
structure Written (log : σ → List α) (V : ℕ → τ → α → Prop) (D : τ → Prop) (entries₀ : List α)
    (p : Pool σ τ) (written : List (α × ℕ)) : Prop where
  log_eq : log p.shared = entries₀ ++ written.map Prod.fst
  nodup : (written.map Prod.snd).Nodup
  vouches : ∀ w ∈ written, ∃ t, p.threads[w.2]? = some t ∧ V w.2 t w.1
  owes : ∀ i t, p.threads[i]? = some t → D t → i ∈ written.map Prod.snd

/-- What is written next, by threads that have not written yet. -/
theorem Written.append {V V' : ℕ → τ → α → Prop} {D D' : τ → Prop} {written new : List (α × ℕ)}
    (h : Written log V D entries₀ p written)
    (hlog : log p'.shared = log p.shared ++ new.map Prod.fst) (hnodup : (new.map Prod.snd).Nodup)
    (hkept : ∀ i t e, p.threads[i]? = some t → V i t e → i ∉ new.map Prod.snd ∧
      ∃ t', p'.threads[i]? = some t' ∧ V' i t' e)
    (hnew : ∀ w ∈ new, ∃ t, p'.threads[w.2]? = some t ∧ V' w.2 t w.1)
    (howes : ∀ i t', p'.threads[i]? = some t' → D' t' →
      i ∈ new.map Prod.snd ∨ ∃ t, p.threads[i]? = some t ∧ D t) :
    Written log V' D' entries₀ p' (written ++ new) where
  log_eq := by rw [hlog, h.log_eq, List.map_append, List.append_assoc]
  nodup := by
    rw [List.map_append]
    refine h.nodup.append hnodup fun i hi hi' => ?_
    obtain ⟨w, hw, rfl⟩ := List.mem_map.mp hi
    obtain ⟨t, ht, hV⟩ := h.vouches w hw
    exact (hkept w.2 t w.1 ht hV).1 hi'
  vouches := by
    intro w hw
    rcases List.mem_append.mp hw with hw | hw
    · obtain ⟨t, ht, hV⟩ := h.vouches w hw
      exact (hkept w.2 t w.1 ht hV).2
    · exact hnew w hw
  owes := by
    intro i t' ht' hD'
    rw [List.map_append, List.mem_append]
    obtain hi | ⟨t, ht, hD⟩ := howes i t' ht' hD'
    · exact Or.inr hi
    · exact Or.inl (h.owes i t ht hD)

/-- Nothing is written. -/
theorem Written.kept {V V' : ℕ → τ → α → Prop} {D D' : τ → Prop} {written : List (α × ℕ)}
    (h : Written log V D entries₀ p written) (hlog : log p'.shared = log p.shared)
    (hkept : ∀ i t e, p.threads[i]? = some t → V i t e → ∃ t', p'.threads[i]? = some t' ∧ V' i t' e)
    (howes : ∀ (i : ℕ) t', p'.threads[i]? = some t' → D' t' → ∃ t, p.threads[i]? = some t ∧ D t) :
    Written log V' D' entries₀ p' written := by
  rw [← List.append_nil written]
  exact h.append (by simpa using hlog) List.nodup_nil
    (fun i t e ht hVt => ⟨nofun, hkept i t e ht hVt⟩) nofun
    fun i t' ht' hD' => Or.inr (howes i t' ht' hD')

/-- **The invariant rule for a log.**  Let the log grow only by a step of a thread, by an entry
that the thread vouches for from then on and did not vouch for any before; and let a thread come
to owe an entry only by such a step.  Then after every run the log has been written so. -/
theorem run_log (init : ι → τ) (next : τ → σ → τ × σ) (log : σ → List α)
    {V : List (Move ι) → ℕ → τ → α → Prop} {D : List (Move ι) → τ → Prop}
    (hV : ∀ l x i t e, V l i t e → V (l ++ [x]) i t e) (hD : ∀ l x t, D (l ++ [x]) t → D l t)
    (hstart : ∀ l q, ¬ D l (init q))
    (hnext : ∀ l i t s, (run (step init next) p l).threads[i]? = some t →
      s = (run (step init next) p l).shared →
        (log (next t s).2 = log s ∧ (∀ e, V l i t e → V (l ++ [.advance i]) i (next t s).1 e) ∧
          (D (l ++ [.advance i]) (next t s).1 → D l t)) ∨
        ∃ e, log (next t s).2 = log s ++ [e] ∧ V (l ++ [.advance i]) i (next t s).1 e ∧
          ∀ e', ¬ V l i t e')
    (hp : p.threads = []) (l : List (Move ι)) :
    ∃ written, Written log (V l) (D l) (log p.shared) (run (step init next) p l) written := by
  induction l using List.reverseRecOn with
  | nil => exact ⟨[], by simp, by simp, by simp, by simp [hp]⟩
  | append_singleton l x ih =>
      obtain ⟨written, hwritten⟩ := ih
      rw [run_append]
      change ∃ written, Written log _ _ _ (step init next (run (step init next) p l) x) written
      replace hnext := hnext l
      generalize run (step init next) p l = q at hwritten hnext
      have hstays : ∀ i t, q.threads[i]? = some t → x ≠ .advance i →
          (step init next q x).threads[i]? = some t := by
        intro i t ht hx
        obtain ⟨hx', -⟩ | ⟨-, ht'⟩ := getElem?_step init next ht x
        · exact absurd hx' hx
        · exact ht'
      -- Only by its own step does a thread come to owe an entry.
      have howes : ∀ i t', (step init next q x).threads[i]? = some t' → D (l ++ [x]) t' →
          ∃ t, q.threads[i]? = some t ∧ (D l t ∨ x = .advance i ∧ t' = (next t q.shared).1) := by
        intro i t' ht' hD'
        obtain hbefore | ⟨q', -, -, rfl⟩ | ⟨t, hx, ht, rfl⟩ := step_thread ht'
        · exact ⟨t', hbefore, Or.inl (hD l x t' hD')⟩
        · exact absurd hD' (hstart _ q')
        · exact ⟨t, ht, Or.inr ⟨hx, rfl⟩⟩
      by_cases hmoves : ∃ i t, x = .advance i ∧ q.threads[i]? = some t
      · obtain ⟨i, t, rfl, hi⟩ := hmoves
        have hstep : step init next q (.advance i) =
            ⟨(next t q.shared).2, q.threads.set i (next t q.shared).1⟩ := step_advance hi
        have hself : (step init next q (.advance i)).threads[i]? = some (next t q.shared).1 := by
          obtain ⟨-, h⟩ | ⟨h, -⟩ := getElem?_step init next hi (.advance i)
          · exact h
          · exact absurd rfl h
        obtain ⟨hsame, hvouches, howed⟩ | ⟨e, happended, hvouches, hnone⟩ :=
          hnext i t q.shared hi rfl
        · refine ⟨written, hwritten.kept ?_ (fun j t' e ht' hVt' => ?_) fun j t' ht' hD' => ?_⟩
          · rw [hstep]
            exact hsame
          · by_cases hj : j = i
            · subst hj
              obtain rfl := Option.some_inj.mp (hi.symm.trans ht')
              exact ⟨_, hself, hvouches e hVt'⟩
            · exact ⟨t', hstays j t' ht' fun h => hj (Move.advance.inj h).symm, hV l _ j t' e hVt'⟩
          · obtain ⟨t₀, ht₀, hD₀ | ⟨hj, rfl⟩⟩ := howes j t' ht' hD'
            · exact ⟨t₀, ht₀, hD₀⟩
            · obtain rfl := Move.advance.inj hj
              obtain rfl := Option.some_inj.mp (hi.symm.trans ht₀)
              exact ⟨t, hi, howed hD'⟩
        · refine ⟨written ++ [(e, i)], hwritten.append ?_ (List.nodup_singleton i)
            (fun j t' e' ht' hVt' => ?_) (fun w hw => ?_) fun j t' ht' hD' => ?_⟩
          · rw [hstep]
            exact happended
          · have hj : j ≠ i := by
              rintro rfl
              obtain rfl := Option.some_inj.mp (hi.symm.trans ht')
              exact hnone e' hVt'
            exact ⟨fun hmem => hj (List.mem_singleton.mp hmem), t',
              hstays j t' ht' fun h => hj (Move.advance.inj h).symm, hV l _ j t' e' hVt'⟩
          · obtain rfl := List.mem_singleton.mp hw
            exact ⟨_, hself, hvouches⟩
          · obtain ⟨t₀, ht₀, hD₀ | ⟨hj, -⟩⟩ := howes j t' ht' hD'
            · exact Or.inr ⟨t₀, ht₀, hD₀⟩
            · exact Or.inl (List.mem_singleton.mpr (Move.advance.inj hj).symm)
      · refine ⟨written, hwritten.kept ?_ (fun j t' e ht' hVt' => ?_) fun j t' ht' hD' => ?_⟩
        · obtain hsame | ⟨i, t, hx, hi, -⟩ := step_shared init next q x
          · rw [hsame]
          · exact absurd ⟨i, t, hx, hi⟩ hmoves
        · exact ⟨t', hstays j t' ht' fun hx => hmoves ⟨j, t', hx, ht'⟩, hV l x j t' e hVt'⟩
        · obtain ⟨t₀, ht₀, hD₀ | ⟨hx, -⟩⟩ := howes j t' ht' hD'
          · exact ⟨t₀, ht₀, hD₀⟩
          · exact absurd ⟨j, t₀, hx, ht₀⟩ hmoves

end Log

/-! ## Quantities summed over the threads -/

section Sums
variable {M : Type*} [AddCommMonoid M]

/-- What the threads have of `f`, all together. -/
def sum (f : τ → M) (p : Pool σ τ) : M := (p.threads.map f).sum

theorem sum_prodMk {N : Type*} [AddCommMonoid N] (f : τ → M) (g : τ → N) (p : Pool σ τ) :
    p.sum (fun t => (f t, g t)) = (p.sum f, p.sum g) := by
  simp only [sum]
  induction p.threads with
  | nil => rfl
  | cons t ts ih => simp [ih]

/-- What one thread has, apart from what the others have. -/
theorem exists_sum_eq (f : τ → M) (h : p.threads[i]? = some t) :
    ∃ others, p.sum f = f t + others ∧
      ∀ t' s, sum f (⟨s, p.threads.set i t'⟩ : Pool σ τ) = f t' + others := by
  obtain ⟨hi, rfl⟩ := List.getElem?_eq_some_iff.mp h
  refine ⟨((p.threads.eraseIdx i).map f).sum, ?_, fun t' s => ?_⟩
  · have hperm := (List.getElem_cons_eraseIdx_perm hi).map f
    simpa [sum] using hperm.sum_eq.symm
  · have hperm := (List.set_perm_cons_eraseIdx hi t').map f
    simpa [sum] using hperm.sum_eq

/-- **The invariant rule for a sum.**  Let `I` speak of the shared state and of what the
threads have of `f`, all together, and let a thread start with nothing.  If every step
that meets `C` keeps `I`, whatever the other threads have, then `I` holds after every run
that meets `C`. -/
theorem run_sum (init : ι → τ) (next : τ → σ → τ × σ) {f : τ → M} {I : σ → M → Prop}
    {C : Pool σ τ → Move ι → Prop} (hstart : ∀ q, f (init q) = 0)
    (hnext : ∀ (p : Pool σ τ) i t others, p.threads[i]? = some t → p.sum f = f t + others →
      C p (.advance i) → I p.shared (f t + others) →
        I (next t p.shared).2 (f (next t p.shared).1 + others))
    {l : List (Move ι)} (hI : I p.shared (p.sum f)) (hl : Meets (step init next) C p l) :
    I (run (step init next) p l).shared ((run (step init next) p l).sum f) := by
  refine run_invariant (P := fun p : Pool σ τ => I p.shared (p.sum f)) (fun p x hp hx => ?_) hI hl
  cases x with
  | start q => simpa [step, sum, hstart] using hp
  | advance i =>
      cases h : p.threads[i]? with
      | none => simpa [step, h] using hp
      | some t =>
          obtain ⟨others, hsum, hset⟩ := exists_sum_eq f h
          rw [step_advance h, hset]
          exact hnext p i t others h hsum hx (hsum ▸ hp)

end Sums

end Pool
end SiqiAuth.Lib
