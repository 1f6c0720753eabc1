import SiqiAuth.Store.HoldAndWait

/-!
# What the pool is large enough for

A function holds two connections at most.  So as long as no more functions are at work than half
the connections that can be open, none of them ever finds the pool exhausted: it gets every
connection it asks for, unless the database itself refuses.  That is so after any past, and whatever
the others meet with: what an outage has cost the pool is opened again.

## Main definitions

* `Stage.Denied` — a function waits for a connection, or has not got one.
* `Stage.engaged`, `Borrowers.engaged` — who takes part in what is lent.
* `Borrowers.HalfFree` — a function begins only while half the connections allow it.
* `Borrowers.Serves` — what a function can count on while functions begin only so.
* `pool_serves` — no function is denied that begins so.
-/

namespace SiqiAuth
open Lib

/-- A function waits for a connection, or has failed to get one. -/
def Getting.Denied : Getting → Prop
  | waiting | failed | returned none => True
  | _ => False

def Stage.Denied (stage : Stage) : Prop := ∃ g, stage.getting = some g ∧ g.Denied

/-- A connection can be had at once: one is idle, or can be opened. -/
def ConnectionPool.Available (pool : ConnectionPool) : Prop :=
  pool.idle ≠ [] ∨ pool.currentPoolSize < maxPoolSize

/-- A call that finds a connection available, and the database willing, is not denied. -/
theorem ConnectionPool.not_denied_getConnection {pool : ConnectionPool} {e : Encounter}
    {g : Getting} (he : e ≠ .refused) (hg : ¬ g.Denied) (hpool : g = .called → pool.Available) :
    ¬ (pool.getConnection e g).1.Denied := by
  cases g with
  | called =>
      cases hidle : pool.idle with
      | nil =>
          have hlt : pool.currentPoolSize < maxPoolSize := (hpool rfl).resolve_left fun h => h hidle
          simp [getConnection, hidle, hlt, Getting.Denied]
      | cons conn idle =>
          by_cases hdead : e = .dead <;> simp [getConnection, take, hidle, hdead, Getting.Denied]
  | creating | reconnecting => simp [getConnection, createConnection, he, Getting.Denied]
  | returned conn => exact hg
  | waiting | failed => exact absurd trivial hg

namespace Stage
variable {stage : Stage} {callsGetAppId : Bool} {e : Encounter} {pool : ConnectionPool}

theorem not_denied_next (he : e ≠ .refused) (h : ¬ stage.Denied)
    (hpool : stage.getting = some .called → pool.Available) :
    ¬ (stage.next callsGetAppId e pool).1.Denied := by
  rintro ⟨g', hg', hdenied⟩
  rcases stage.next_cases callsGetAppId e pool with ⟨g, hg, hnext, -⟩ | ⟨-, hcalled⟩
  · obtain rfl := Option.some_inj.mp (hnext.symm.trans hg')
    refine ConnectionPool.not_denied_getConnection he (fun hd => h ⟨g, hg, hd⟩) ?_ hdenied
    rintro rfl
    exact hpool hg
  · rw [hcalled g' hg'] at hdenied
    exact hdenied

/-- Whether a function is at work: it has asked for its first connection, and is not done. -/
def engaged : Stage → ℕ
  | guard .called | done => 0
  | _ => 1

/-- It has two connections at most. -/
theorem card_lent_add_opening_le (stage : Stage) :
    stage.lent.card + stage.opening ≤ 2 * stage.engaged := by
  have hone : ∀ g : Getting, g.lent.card + g.opening ≤ 1 := by
    intro g
    cases g with
    | returned conn => cases conn <;> simp [Getting.lent, Getting.opening]
    | _ => simp [Getting.lent, Getting.opening]
  cases stage with
  | guard g =>
      by_cases hg : g = .called
      · subst hg
        exact le_refl 0
      · have hengaged : (guard g).engaged = 1 := by
          cases g with
          | called => exact absurd rfl hg
          | _ => rfl
        have hle := hone g
        simp only [lent, opening, hengaged]
        omega
  | appIdGuard conn g =>
      have hle := hone g
      simp only [lent, opening, engaged, Multiset.card_add, Multiset.card_singleton]
      omega
  | body conn => simp [lent, opening, engaged]
  | done => simp [lent, opening, engaged]

/-- A function that asks for a connection has one at most. -/
theorem card_lent_of_called (h : stage.getting = some .called) :
    stage.lent.card + stage.opening = stage.engaged := by
  cases stage with
  | guard g =>
      obtain rfl := Option.some_inj.mp h
      rfl
  | appIdGuard conn g =>
      obtain rfl := Option.some_inj.mp h
      rfl
  | _ => cases h

/-- Only the first step of a function makes it one that is at work. -/
theorem engaged_next_le (h : stage ≠ .guard .called) :
    (stage.next callsGetAppId e pool).1.engaged ≤ stage.engaged := by
  have hone : ∀ s : Stage, s.engaged ≤ 1 := by
    intro s
    cases s with
    | guard g => cases g <;> simp [engaged]
    | _ => simp [engaged]
  have hle := hone (stage.next callsGetAppId e pool).1
  cases stage with
  | guard g =>
      cases g with
      | called => exact absurd rfl h
      | _ => exact hle
  | appIdGuard | body => exact hle
  | done => exact le_refl _

end Stage

namespace Borrowers
variable {p : Borrowers}

/-- How many functions are at work. -/
def engaged (p : Borrowers) : ℕ := p.sum fun b => b.stage.engaged

/-- A function begins only while, with it, those at work could have two connections each. -/
def HalfFree (p : Borrowers) : Move (DaoFunction × List Encounter) → Prop
  | .start _ => True
  | .advance i => ∀ b ∈ p.threads[i]?, b.stage = .guard .called →
      2 * (p.engaged + 1) ≤ maxPoolSize.toNat

instance : DecidablePred p.HalfFree
  | .start _ => isTrue trivial
  | .advance i => inferInstanceAs (Decidable (∀ b ∈ p.threads[i]?, b.stage = .guard .called →
      2 * (p.engaged + 1) ≤ maxPoolSize.toNat))

/-- What one of the threads falls short of a bound, the sum does. -/
theorem sum_add_le {f g : Borrower → ℕ} (hle : ∀ b, g b ≤ f b) {i : ℕ} {b : Borrower}
    (hi : p.threads[i]? = some b) : p.sum g + f b ≤ p.sum f + g b := by
  obtain ⟨hlt, rfl⟩ := List.getElem?_eq_some_iff.mp hi
  have hperm := List.getElem_cons_eraseIdx_perm hlt
  have hf := (hperm.map f).sum_eq
  have hg := (hperm.map g).sum_eq
  have hothers := List.sum_le_sum (l := p.threads.eraseIdx i) fun b _ => hle b
  simp only [List.map_cons, List.sum_cons] at hf hg
  simp only [Pool.sum]
  omega

/-- A function that asks for a connection finds one available. -/
theorem available {i : ℕ} {b : Borrower} (hacc : Accounted p.shared p.lent p.opening)
    (hfew : 2 * p.engaged ≤ maxPoolSize.toNat) (hi : p.threads[i]? = some b)
    (hx : p.HalfFree (.advance i)) (hcalled : b.stage.getting = some .called) :
    p.shared.Available := by
  have hcard : p.lent.card = p.sum fun b => b.stage.lent.card := by
    have hsum := map_list_sum Multiset.cardHom (p.threads.map fun b => b.stage.lent)
    rwa [List.map_map] at hsum
  have hheld : p.sum (fun b => b.stage.lent.card + b.stage.opening) = p.lent.card + p.opening := by
    rw [hcard]
    exact List.sum_map_add
  have hbound : p.sum (fun b => 2 * b.stage.engaged) = 2 * p.engaged := by
    simp only [Nat.two_mul]
    exact List.sum_map_add
  have hle := sum_add_le (p := p) (fun b => b.stage.card_lent_add_opening_le) hi
  have hone := Stage.card_lent_of_called hcalled
  have hsize := hacc.size_eq
  -- What is held leaves room for one more.
  have hlt : p.lent.card + p.opening < maxPoolSize.toNat := by
    by_cases hbegins : b.stage = .guard .called
    · have hspare := hx b (Option.mem_def.mpr hi) hbegins
      omega
    · have hengaged : 1 ≤ b.stage.engaged := by
        cases hstage : b.stage with
        | guard g =>
            rw [hstage] at hcalled hbegins
            obtain rfl := Option.some_inj.mp hcalled
            exact absurd rfl hbegins
        | appIdGuard | body => exact le_refl 1
        | done =>
            rw [hstage] at hcalled
            cases hcalled
      omega
  by_cases hidle : p.shared.idle = []
  · refine Or.inr (UInt64.lt_iff_toNat_lt.mpr ?_)
    rw [hidle, List.length_nil] at hsize
    omega
  · exact Or.inl hidle

/-- The functions at work stay as few. -/
theorem engaged_step {x : Move (DaoFunction × List Encounter)}
    (h : 2 * p.engaged ≤ maxPoolSize.toNat) (hx : p.HalfFree x) :
    2 * engaged (p.step x) ≤ maxPoolSize.toNat := by
  refine Pool.run_sum Borrower.init Borrower.next (f := fun b => b.stage.engaged)
    (I := fun _ n => 2 * n ≤ maxPoolSize.toNat) (C := HalfFree) (fun q => rfl) ?_ h (l := [x])
    ⟨hx, trivial⟩
  intro p i b others hi hsum hC hle
  by_cases hbegins : b.stage = .guard .called
  · have hspare : 2 * (engaged p + 1) ≤ maxPoolSize.toNat := hC b (Option.mem_def.mpr hi) hbegins
    have hengaged : engaged p = b.stage.engaged + others := hsum
    have hone : (b.next p.shared).1.stage.engaged ≤ 1 := by
      cases (b.next p.shared).1.stage with
      | guard g => cases g <;> simp [Stage.engaged]
      | _ => simp [Stage.engaged]
    omega
  · have hnext : (b.next p.shared).1.stage.engaged ≤ b.stage.engaged := Stage.engaged_next_le hbegins
    omega

end Borrowers

/-- What holds of the `j`-th function, which the database does not refuse, as long as functions
begin only while those at work are few: once it has begun itself, they are few. -/
structure Borrowers.Serves (p : Borrowers) (j : ℕ) : Prop where
  accounted : Accounted p.shared p.lent p.opening
  served : ∃ b, p.threads[j]? = some b ∧ (∀ e ∈ b.encounters, e ≠ .refused) ∧ ¬ b.stage.Denied ∧
    (b.stage ≠ .guard .called → 2 * p.engaged ≤ maxPoolSize.toNat)

namespace Borrowers
variable {p : Borrowers} {j : ℕ}

/-- A function that has just been called has not asked for a connection yet. -/
theorem serves_start (hacc : Accounted p.shared p.lent p.opening)
    {q : DaoFunction × List Encounter} (hq : ∀ e ∈ q.2, e ≠ .refused) :
    (p.step (.start q)).Serves p.threads.length := by
  refine ⟨accounted_run hacc [.start q], .init q, by simp [Borrowers.step, Pool.step], hq, ?_,
    fun h => absurd rfl h⟩
  rintro ⟨g, hg, hdenied⟩
  obtain rfl := Option.some_inj.mp hg
  exact hdenied

/-- What it then asks for, it gets. -/
theorem Serves.step (h : p.Serves j) {x : Move (DaoFunction × List Encounter)}
    (hx : p.HalfFree x) : (p.step x).Serves j := by
  obtain ⟨hacc, b, hb, hes, hnot, hfew⟩ := h
  refine ⟨accounted_run hacc [x], ?_⟩
  rcases Pool.getElem?_step Borrower.init Borrower.next hb x with ⟨rfl, hb'⟩ | ⟨-, hb'⟩
  · -- Its own step: the first one finds the others few, and the later ones all.
    have hfew : 2 * p.engaged ≤ maxPoolSize.toNat := by
      by_cases hbegins : b.stage = .guard .called
      · have hspare := hx b (Option.mem_def.mpr hb) hbegins
        omega
      · exact hfew hbegins
    have he : b.encounters.headD .favourable ≠ .refused := by
      cases hlist : b.encounters with
      | nil => simp
      | cons e es => exact hes e (by simp [hlist])
    exact ⟨_, hb', fun e he => hes e (List.mem_of_mem_tail he),
      Stage.not_denied_next he hnot (available hacc hfew hb hx), fun _ => engaged_step hfew hx⟩
  · exact ⟨b, hb', hes, hnot, fun hbegun => engaged_step (hfew hbegun) hx⟩

end Borrowers

/-- **No function waits while those at work are at most half the connections.**  After any run,
with any outcome of the constructor and any failures, let a function be called to which the
database refuses nothing.  If from then on a function begins only while, counting it, those at
work could have two connections each, then the one that was called never waits for a
connection, and gets each that it asks for. -/
theorem pool_serves (attempts : Fin initialPoolSize → Encounter)
    (l₁ : List (Move (DaoFunction × List Encounter))) {q : DaoFunction × List Encounter}
    (hq : ∀ e ∈ q.2, e ≠ .refused) {l₂ : List (Move (DaoFunction × List Encounter))} :
    let p : Borrowers := run Borrowers.step ⟨.construct attempts, []⟩ l₁
    Meets Borrowers.step Borrowers.HalfFree p (.start q :: l₂) →
    ∃ b, (run Borrowers.step p (.start q :: l₂)).threads[p.threads.length]? = some b ∧
      ¬ b.stage.Denied := by
  intro p hl
  have hacc : Accounted p.shared p.lent p.opening :=
    Borrowers.accounted_run (Accounted.construct attempts) l₁
  obtain ⟨-, hl⟩ := hl
  obtain ⟨-, b, hb, -, hnot, -⟩ :=
    run_invariant (P := fun q : Borrowers => q.Serves p.threads.length)
      (fun _ _ hserves hx => hserves.step hx) (Borrowers.serves_start hacc hq) hl
  exact ⟨b, hb, hnot⟩

/-- The constructor opens nothing, and the first function is refused twice; the next creates a role,
and finds no connection but gets its two. -/
theorem pool_serves_after_outage :
    let l₁ : List (Move (DaoFunction × List Encounter)) :=
      [.start (.checkPermission, [.favourable, .refused]), .advance 0, .advance 0, .advance 0]
    let l₂ : List (Move (DaoFunction × List Encounter)) := List.replicate 6 (.advance 1)
    let p : Borrowers := run Borrowers.step ⟨.construct fun _ => .refused, []⟩ l₁
    ∃ b, (run Borrowers.step p (.start (.createRole, []) :: l₂)).threads[p.threads.length]? =
      some b ∧ ¬ b.stage.Denied := by
  intro l₁ l₂ p
  have hq : ∀ e ∈ ((.createRole, []) : DaoFunction × List Encounter).2, e ≠ .refused := by simp
  have hl : Meets Borrowers.step Borrowers.HalfFree p (.start (.createRole, []) :: l₂) := by
    decide +kernel
  exact pool_serves (fun _ => .refused) l₁ hq hl

end SiqiAuth
