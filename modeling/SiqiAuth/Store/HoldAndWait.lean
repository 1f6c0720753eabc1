import SiqiAuth.Store.ConnectionPool

/-!
# Holding one connection and waiting for another

A function that calls `getAppId` holds a connection while `getAppId` waits for one.
When `max_pool_size_` such functions hold their first connection there is no second for
any of them: each waits until it times out, and then reports that its app does not exist.

## Main definitions

* `Borrowers.Deadlocked` — every connection is lent to a function that waits for another.
* `Borrowers.SparesOne` — a function does not go on to `getAppId` when it would be the
  last that the pool has a connection for.
* `pool_deadlock_free` — runs of such moves do not deadlock.
* `pool_deadlocks` — a run that does.
-/

namespace SiqiAuth
open Lib

namespace Stage

/-- The call of `getConnection` that a function is in. -/
def getting : Stage → Option Getting
  | guard g => some g
  | appIdGuard _ g => some g
  | _ => none

/-- Whether `getAppId` waits for a connection while its caller holds one. -/
def waitsForSecond : Stage → Bool
  | appIdGuard _ .waiting => true
  | _ => false

/-- Counts the functions in `getAppId` that have no second connection to show for it. -/
def wantsSecond : Stage → ℕ
  | appIdGuard _ _ => 1
  | _ => 0

/-- Whether a function holds or opens a connection and does not wait for another. -/
def Busy (stage : Stage) : Prop :=
  stage.opening ≠ 0 ∨ stage.lent ≠ 0 ∧ stage.waitsForSecond = false

/-- A function holds one connection while it waits for its second. -/
theorem card_lent_of_waitsForSecond {stage : Stage} (h : stage.waitsForSecond = true) :
    stage.lent.card = 1 ∧ stage.wantsSecond = 1 := by
  cases stage with
  | appIdGuard conn g =>
      cases g with
      | waiting => simp [lent, Getting.lent, wantsSecond]
      | _ => simp [waitsForSecond] at h
  | _ => simp [waitsForSecond] at h

theorem getting_of_waitsForSecond {stage : Stage} (h : stage.waitsForSecond = true) :
    stage.getting = some .waiting := by
  cases stage with
  | appIdGuard conn g =>
      cases g with
      | waiting => rfl
      | _ => simp [waitsForSecond] at h
  | _ => simp [waitsForSecond] at h

/-- Whether a function has just got its own connection. -/
def atBody : Stage → Bool
  | guard (.returned (some _)) => true
  | _ => false

/-- A function goes on to `getAppId` with the connection that its own guard returned. -/
theorem wantsSecond_next_le {stage : Stage} {callsGetAppId : Bool} {e : Encounter}
    {pool : ConnectionPool} (h : (callsGetAppId && stage.atBody) = false) :
    (stage.next callsGetAppId e pool).1.wantsSecond ≤ stage.wantsSecond := by
  cases stage with
  | guard g =>
      cases g with
      | returned conn =>
          cases conn with
          | none => simp [next, wantsSecond]
          | some conn =>
              have hflat : callsGetAppId = false := by simpa [atBody] using h
              simp [next, hflat, wantsSecond]
      | _ => simp [next, wantsSecond]
  | appIdGuard conn g =>
      cases g with
      | returned conn' => cases conn' <;> simp [next, wantsSecond]
      | _ => simp [next, wantsSecond]
  | _ => simp [next, wantsSecond]

/-- A step is a step of `getConnection`, or leaves the size alone and at most calls it. -/
theorem next_cases (callsGetAppId : Bool) (e : Encounter) (pool : ConnectionPool) (stage : Stage) :
    (∃ g, stage.getting = some g ∧
      (stage.next callsGetAppId e pool).1.getting = some (pool.getConnection e g).1 ∧
      (stage.next callsGetAppId e pool).2 = (pool.getConnection e g).2) ∨
    (stage.next callsGetAppId e pool).2.currentPoolSize = pool.currentPoolSize ∧
      ∀ g, (stage.next callsGetAppId e pool).1.getting = some g → g = .called := by
  cases stage with
  | guard g =>
      cases g with
      | returned conn =>
          refine Or.inr ?_
          cases conn with
          | none => simp [next, getting]
          | some conn => cases callsGetAppId <;> simp [next, getting, eq_comm]
      | _ => exact Or.inl ⟨_, rfl, rfl, rfl⟩
  | appIdGuard conn g =>
      cases g with
      | returned conn' =>
          refine Or.inr ?_
          cases conn' <;> simp [next, getting, ConnectionPool.releaseConnection]
      | _ => exact Or.inl ⟨_, rfl, rfl, rfl⟩
  | _ => exact Or.inr (by simp [next, getting, ConnectionPool.releaseConnection])

end Stage

/-- When the database accepts every connection, a step of `getConnection` does not fail,
the size does not shrink, and who starts to wait has found it at its bound. -/
theorem ConnectionPool.getConnection_accepted (pool : ConnectionPool) {e : Encounter} {g : Getting}
    (he : e ≠ .refused) (hg : g ≠ .failed) :
    (pool.getConnection e g).1 ≠ .failed ∧
      ((pool.getConnection e g).2.currentPoolSize = pool.currentPoolSize ∨
        pool.currentPoolSize < maxPoolSize) ∧
      ((pool.getConnection e g).1 = .waiting →
        (pool.getConnection e g).2.currentPoolSize = pool.currentPoolSize ∧
          (g = .waiting ∨ ¬ pool.currentPoolSize < maxPoolSize)) := by
  cases g with
  | called =>
      by_cases hfree : pool.idle = [] ∧ pool.currentPoolSize < maxPoolSize
      · simp [getConnection, hfree]
      · cases hidle : pool.idle with
        | nil =>
            have hfull : ¬ pool.currentPoolSize < maxPoolSize := fun hlt => hfree ⟨hidle, hlt⟩
            simp [getConnection, take, hidle, hfull]
        | cons conn idle => by_cases hdead : e = .dead <;> simp [getConnection, take, hidle, hdead]
  | creating => simp [getConnection, createConnection, he]
  | reconnecting => simp [getConnection, createConnection, he]
  | failed => exact absurd rfl hg
  | waiting =>
      by_cases hout : e = .timedOut
      · simp [getConnection, hout]
      · cases hidle : pool.idle with
        | nil => simp [getConnection, take, hidle, hout]
        | cons conn idle =>
            by_cases hdead : e = .dead <;> simp [getConnection, take, hidle, hout, hdead]
  | returned conn => simp [getConnection]

/-- The same of a step of a function. -/
theorem Borrower.next_accepted {b : Borrower} {pool : ConnectionPool}
    (hes : ∀ e ∈ b.encounters, e ≠ .refused) (hg : b.stage.getting ≠ some .failed)
    (hle : pool.currentPoolSize ≤ maxPoolSize)
    (hfull : b.stage.getting = some .waiting → pool.currentPoolSize = maxPoolSize) :
    (b.next pool).1.stage.getting ≠ some .failed ∧
      (pool.currentPoolSize = maxPoolSize → (b.next pool).2.currentPoolSize = maxPoolSize) ∧
      ((b.next pool).1.stage.getting = some .waiting →
        (b.next pool).2.currentPoolSize = maxPoolSize) := by
  have he : b.encounters.headD .favourable ≠ .refused := by
    cases hlist : b.encounters with
    | nil => simp
    | cons e es => exact hes e (by simp [hlist])
  have hmax : ¬ pool.currentPoolSize < maxPoolSize → pool.currentPoolSize = maxPoolSize :=
    fun hlt => UInt64.le_antisymm hle (UInt64.not_lt.mp hlt)
  simp only [Borrower.next]
  rcases b.stage.next_cases b.function.callsGetAppId (b.encounters.headD .favourable) pool with
    ⟨g, hgetting, hgetting', hpool⟩ | ⟨hsame, hcalled⟩
  · have hnotFailed : g ≠ .failed := fun hfailed => hg (hgetting.trans (congrArg some hfailed))
    have ⟨hstep, hsize, hwait⟩ := pool.getConnection_accepted he hnotFailed
    rw [hgetting', hpool]
    refine ⟨by simpa using hstep, fun hm => ?_, fun hwaiting => ?_⟩
    · rcases hsize with hsize | hlt
      · rw [hsize, hm]
      · rw [hm] at hlt
        exact absurd hlt (UInt64.lt_irrefl _)
    · have ⟨hsize, hbefore⟩ := hwait (Option.some_inj.mp hwaiting)
      rw [hsize]
      rcases hbefore with rfl | hlt
      · exact hfull hgetting
      · exact hmax hlt
  · refine ⟨fun hfailed => ?_, fun hm => hsame.trans hm, fun hwaiting => ?_⟩
    · exact absurd (hcalled _ hfailed) (by simp)
    · exact absurd (hcalled _ hwaiting) (by simp)

namespace Borrowers
variable (p : Borrowers)

/-- All connections are lent, and who holds one waits for a second. -/
def Deadlocked : Prop :=
  p.lent.card = maxPoolSize.toNat ∧
    ∀ b ∈ p.threads, b.stage.lent ≠ 0 → b.stage.waitsForSecond = true

instance : Decidable p.Deadlocked := inferInstanceAs (Decidable (_ ∧ _))

/-- How many functions are in `getAppId` and have no second connection to show for it. -/
def wanting : ℕ := p.sum fun b => b.stage.wantsSecond

/-- A function that calls `getAppId` goes on to it only while that leaves one of the
connections that can be open for another use. -/
def SparesOne : Move (DaoFunction × List Encounter) → Prop
  | .start _ => True
  | .advance i => ∀ b ∈ p.threads[i]?, (b.function.callsGetAppId && b.stage.atBody) = true →
      p.wanting + 1 < maxPoolSize.toNat

/-- The database accepts every connection. -/
def Accepts : Move (DaoFunction × List Encounter) → Prop
  | .start q => ∀ e ∈ q.2, e ≠ .refused
  | .advance _ => True

instance : DecidablePred p.SparesOne
  | .start _ => isTrue trivial
  | .advance i => inferInstanceAs (Decidable (∀ b ∈ p.threads[i]?,
      (b.function.callsGetAppId && b.stage.atBody) = true → p.wanting + 1 < maxPoolSize.toNat))

instance : DecidablePred Accepts
  | .start q => inferInstanceAs (Decidable (∀ e ∈ q.2, e ≠ .refused))
  | .advance _ => isTrue trivial

/-- What holds while the database accepts every connection. -/
structure Accepted : Prop where
  unrefused : ∀ b ∈ p.threads, ∀ e ∈ b.encounters, e ≠ .refused
  unfailed : ∀ b ∈ p.threads, b.stage.getting ≠ some .failed
  /-- A function waits only when the pool has reached its bound. -/
  full : ∀ b ∈ p.threads, b.stage.getting = some .waiting → p.shared.currentPoolSize = maxPoolSize

variable {p}

theorem Accepted.step (h : p.Accepted) (hle : p.shared.currentPoolSize ≤ maxPoolSize)
    {x : Move (DaoFunction × List Encounter)} (hx : Accepts x) : (p.step x).Accepted := by
  cases x with
  | start q =>
      have hmem : ∀ b, b ∈ (p.step (.start q)).threads → b ∈ p.threads ∨ b = .init q := by
        intro b hb
        simpa [Borrowers.step, Pool.step] using hb
      refine ⟨fun b hb => ?_, fun b hb => ?_, fun b hb hwait => ?_⟩
      · by_cases hold : b ∈ p.threads
        · exact h.unrefused b hold
        · rw [(hmem b hb).resolve_left hold]
          exact hx
      · by_cases hold : b ∈ p.threads
        · exact h.unfailed b hold
        · rw [(hmem b hb).resolve_left hold]
          simp [Borrower.init, Stage.getting]
      · by_cases hold : b ∈ p.threads
        · exact h.full b hold hwait
        · rw [(hmem b hb).resolve_left hold] at hwait
          simp [Borrower.init, Stage.getting] at hwait
  | advance i =>
      cases hi : p.threads[i]? with
      | none => simpa [Borrowers.step, Pool.step, hi] using h
      | some t =>
          have hstep : p.step (.advance i) =
              ⟨(t.next p.shared).2, p.threads.set i (t.next p.shared).1⟩ := Pool.step_advance hi
          have ht : t ∈ p.threads := List.mem_of_getElem? hi
          have hmem : ∀ b, b ∈ (p.step (.advance i)).threads →
              b ∈ p.threads ∨ b = (t.next p.shared).1 := by
            intro b hb
            rw [hstep] at hb
            exact List.mem_or_eq_of_mem_set hb
          obtain ⟨hfailed, hsize, hwait⟩ := Borrower.next_accepted (h.unrefused t ht)
            (h.unfailed t ht) hle (h.full t ht)
          refine ⟨fun b hb => ?_, fun b hb => ?_, fun b hb hwaiting => ?_⟩
          · by_cases hold : b ∈ p.threads
            · exact h.unrefused b hold
            · rw [(hmem b hb).resolve_left hold]
              exact fun e he => h.unrefused t ht e (List.mem_of_mem_tail he)
          · by_cases hold : b ∈ p.threads
            · exact h.unfailed b hold
            · rw [(hmem b hb).resolve_left hold]
              exact hfailed
          · rw [hstep]
            by_cases hold : b ∈ p.threads
            · exact hsize (h.full b hold hwaiting)
            · rw [(hmem b hb).resolve_left hold] at hwaiting
              exact hwait hwaiting

theorem wanting_lt_of_run {l : List (Move (DaoFunction × List Encounter))}
    (hp : p.wanting < maxPoolSize.toNat) (hl : Meets step SparesOne p l) :
    wanting (run step p l) < maxPoolSize.toNat := by
  refine Pool.run_sum Borrower.init Borrower.next (f := fun b => b.stage.wantsSecond)
    (I := fun _ n => n < maxPoolSize.toNat) (C := SparesOne) (fun q => rfl) ?_ hp hl
  intro p i b others hi hsum hC hlt
  by_cases hgoes : (b.function.callsGetAppId && b.stage.atBody) = true
  · have hspare : wanting p + 1 < maxPoolSize.toNat := hC b hi hgoes
    have hwanting : wanting p = b.stage.wantsSecond + others := hsum
    have hle : (b.next p.shared).1.stage.wantsSecond ≤ 1 := by
      cases (b.next p.shared).1.stage <;> simp [Stage.wantsSecond]
    omega
  · have hle : (b.next p.shared).1.stage.wantsSecond ≤ b.stage.wantsSecond :=
      Stage.wantsSecond_next_le (by simpa using hgoes)
    omega

/-- In a deadlock, as many functions want their second connection as there are
connections. -/
theorem Deadlocked.le_wanting (h : p.Deadlocked) : maxPoolSize.toNat ≤ p.wanting := by
  have hcard : p.lent.card = (p.threads.map fun b => b.stage.lent.card).sum := by
    have hsum := map_list_sum Multiset.cardHom (p.threads.map fun b => b.stage.lent)
    rwa [List.map_map] at hsum
  have hle : (p.threads.map fun b => b.stage.lent.card).sum ≤ p.wanting := by
    refine List.sum_le_sum fun b hb => ?_
    by_cases hnone : b.stage.lent = 0
    · simp [hnone]
    · have hone := Stage.card_lent_of_waitsForSecond (h.2 b hb hnone)
      omega
  rw [← h.1, hcard]
  exact hle

end Borrowers

/-- **No deadlock while every function leaves one connection over.**  Let the database
accept every connection, and let a function with a connection go on to `getAppId` only
while that leaves one over.  Then no state reached is deadlocked; and while `getAppId`
waits for a connection, one is idle or some function is using or opening one. -/
theorem pool_deadlock_free (attempts : Fin initialPoolSize → Encounter)
    {l : List (Move (DaoFunction × List Encounter))}
    (hl : Meets Borrowers.step (fun p x => Borrowers.Accepts x ∧ p.SparesOne x)
      ⟨.construct attempts, []⟩ l) :
    let p : Borrowers := run Borrowers.step ⟨.construct attempts, []⟩ l
    ¬ p.Deadlocked ∧ ∀ b ∈ p.threads, b.stage.waitsForSecond = true →
      p.shared.idle ≠ [] ∨ ∃ b' ∈ p.threads, b'.stage.Busy := by
  intro p
  have hacc : Accounted p.shared p.lent p.opening :=
    Borrowers.accounted_run (Accounted.construct attempts) l
  have haccepted : p.Accepted := by
    have hinv := run_invariant (C := fun (p : Borrowers) x => Borrowers.Accepts x ∧ p.SparesOne x)
      (P := fun p : Borrowers => p.Accepted ∧ Accounted p.shared p.lent p.opening)
      (fun p x hp hx => ⟨hp.1.step hp.2.size_le hx.1, Borrowers.accounted_run hp.2 [x]⟩)
      ⟨⟨by simp, by simp, by simp⟩, Accounted.construct attempts⟩ hl
    exact hinv.1
  have hfree : ¬ p.Deadlocked := by
    intro hdead
    have hnone : Borrowers.wanting ⟨.construct attempts, []⟩ < maxPoolSize.toNat := by
      change 0 < maxPoolSize.toNat
      decide
    have hlt : p.wanting < maxPoolSize.toNat :=
      Borrowers.wanting_lt_of_run hnone (hl.mono fun _ _ h => h.2)
    have hle := hdead.le_wanting
    omega
  refine ⟨hfree, fun b hb hwait => ?_⟩
  -- The pool is at its bound, so what is not lent is idle or being opened.
  have hfull : p.shared.currentPoolSize = maxPoolSize :=
    haccepted.full b hb (Stage.getting_of_waitsForSecond hwait)
  have hsize := hacc.size_eq
  rw [hfull] at hsize
  by_cases hidle : p.shared.idle = []
  · refine Or.inr ?_
    by_contra hbusy
    push Not at hbusy
    have hopening : p.opening = 0 := by
      refine List.sum_eq_zero fun n hn => ?_
      obtain ⟨b', hb', rfl⟩ := List.mem_map.mp hn
      by_contra hne
      exact hbusy b' hb' (Or.inl hne)
    refine hfree ⟨?_, fun b' hb' hlent => ?_⟩
    · simp only [hidle, hopening, List.length_nil] at hsize
      omega
    · by_contra hnot
      exact hbusy b' hb' (Or.inr ⟨hlent, by simpa using hnot⟩)
  · exact Or.inl hidle

/-- Two roles are created at a time, each holding two connections. -/
theorem pool_deadlock_free_pair :
    let l : List (Move (DaoFunction × List Encounter)) :=
      [.start (.createRole, []), .start (.createRole, [])] ++
        (List.replicate 5 [.advance 0, .advance 1]).flatten
    let p : Borrowers := run Borrowers.step ⟨.construct fun _ => .favourable, []⟩ l
    ¬ p.Deadlocked ∧ ∀ b ∈ p.threads, b.stage.waitsForSecond = true →
      p.shared.idle ≠ [] ∨ ∃ b' ∈ p.threads, b'.stage.Busy := by
  intro l
  have hl : Meets Borrowers.step (fun p x => Borrowers.Accepts x ∧ p.SparesOne x)
      ⟨.construct fun _ => .favourable, []⟩ l := by
    decide +kernel
  exact pool_deadlock_free (fun _ => .favourable) hl

/-- Fifty roles are created at a time.  Each call of `createRole` gets its first
connection and waits for the second; when the wait of the first of them times out,
`getAppId` finds no app, though the database has refused nothing. -/
theorem pool_deadlocks :
    let q : DaoFunction × List Encounter :=
      (.createRole, [.favourable, .favourable, .favourable, .timedOut])
    let round : List (Move (DaoFunction × List Encounter)) := (List.range 50).map .advance
    let l := List.replicate 50 (.start q) ++ round ++ round ++ round ++ round.drop 5
    let p : Borrowers := run Borrowers.step ⟨.construct fun _ => .favourable, []⟩ l
    (∀ x ∈ l, Borrowers.Accepts x) ∧ p.Deadlocked ∧
      (p.step (.advance 0)).threads.head?.map Borrower.stage =
        some (.appIdGuard 0 (.returned none)) := by
  decide +kernel

end SiqiAuth
