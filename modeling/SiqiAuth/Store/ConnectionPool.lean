import Mathlib.Algebra.Order.BigOperators.Group.List
import Mathlib.Algebra.Order.Group.Multiset
import Mathlib.Algebra.Order.Group.Nat
import Mathlib.Data.Multiset.AddSub
import SiqiAuth.Lib.Pool

/-!
# The pool of database connections

`getConnection` and `releaseConnection` of `permission_dao.cpp`, step by step.  A step
is what a thread does while it holds `pool_mutex_`, or what it does outside: creating a
connection, which it waits for without the lock.  The functions of the DAO hold what
they are lent in a `ConnectionGuard`, and thirteen of them have `getAppId` take a second
connection while they hold the first.

A waiting thread may wake up at any time, as a condition variable allows, so
`notify_one` leaves no trace here.

## Main definitions

* `ConnectionPool` — the idle connections and `current_pool_size_`.
* `Getting`, `ConnectionPool.getConnection` — where a call of `getConnection` is, and
  its next step.
* `DaoFunction`, `Stage`, `Borrower` — a function of the DAO in the course of its
  execution, as far as the pool is concerned.
* `Accounted` — what the size counts, and that no connection is in two places.
* `pool_accounting` — every run keeps the account.
-/

namespace SiqiAuth
open Lib

/-- What a step of a thread meets with outside the pool. -/
inductive Encounter
  /-- `connect` succeeds; the idle connection is valid; the wait ends in time. -/
  | favourable
  /-- `connect` raises an exception. -/
  | refused
  /-- The idle connection is dead. -/
  | dead
  /-- The wait ends with a timeout. -/
  | timedOut
  deriving DecidableEq, Repr

/-- `initial_pool_size_`. -/
def initialPoolSize : ℕ := 5

/-- `max_pool_size_`. -/
def maxPoolSize : UInt64 := 50

/-- What `pool_mutex_` protects.  Connections are numbered as they are opened. -/
structure ConnectionPool where
  /-- `connection_pool_`, its front first. -/
  idle : List ℕ
  /-- `current_pool_size_`, a `size_t`. -/
  currentPoolSize : UInt64
  /-- How many connections were ever opened. -/
  opened : ℕ
  deriving DecidableEq, Repr

/-- Where a call of `getConnection` is. -/
inductive Getting
  | called
  /-- A slot is reserved, and a connection is being created for it. -/
  | creating
  /-- A dead connection was taken out, and one is being created in its place. -/
  | reconnecting
  /-- The creation failed, and the slot has not been given back yet. -/
  | failed
  | waiting
  | returned (conn : Option ℕ)
  deriving DecidableEq, Repr

namespace ConnectionPool

/-- `current_pool_size_++`. -/
def grow (pool : ConnectionPool) : ConnectionPool :=
  { pool with currentPoolSize := pool.currentPoolSize + 1 }

/-- `current_pool_size_--`. -/
def shrink (pool : ConnectionPool) : ConnectionPool :=
  { pool with currentPoolSize := pool.currentPoolSize - 1 }

@[simp] theorem idle_grow (pool : ConnectionPool) : pool.grow.idle = pool.idle := rfl
@[simp] theorem opened_grow (pool : ConnectionPool) : pool.grow.opened = pool.opened := rfl
@[simp] theorem idle_shrink (pool : ConnectionPool) : pool.shrink.idle = pool.idle := rfl
@[simp] theorem opened_shrink (pool : ConnectionPool) : pool.shrink.opened = pool.opened := rfl

theorem toNat_grow {pool : ConnectionPool} (h : pool.currentPoolSize < maxPoolSize) :
    pool.grow.currentPoolSize.toNat = pool.currentPoolSize.toNat + 1 := by
  have hlt : pool.currentPoolSize.toNat < 50 := UInt64.lt_iff_toNat_lt.mp h
  simp only [grow, UInt64.toNat_add, UInt64.toNat_one]
  omega

/-- The size is not decremented below zero. -/
theorem toNat_shrink {pool : ConnectionPool} (h : 0 < pool.currentPoolSize.toNat) :
    pool.shrink.currentPoolSize.toNat = pool.currentPoolSize.toNat - 1 := by
  have hone : (1 : UInt64) ≤ pool.currentPoolSize := UInt64.le_iff_toNat_le.mpr h
  simp only [shrink, UInt64.toNat_sub_of_le _ _ hone, UInt64.toNat_one]

def createConnection (e : Encounter) (pool : ConnectionPool) : Option ℕ × ConnectionPool :=
  if e = .refused then (none, pool)
  else (some pool.opened, { pool with opened := pool.opened + 1 })

/-- The part of `getConnection` from `while (connection_pool_.empty())` on: wait, or take
the front of the queue and look whether it is valid. -/
def take (e : Encounter) (pool : ConnectionPool) : Getting × ConnectionPool :=
  match pool.idle with
  | [] => (.waiting, pool)
  | conn :: idle =>
      if e = .dead then (.reconnecting, { pool with idle := idle })
      else (.returned (some conn), { pool with idle := idle })

/-- The next step of a call of `getConnection`. -/
def getConnection (e : Encounter) (pool : ConnectionPool) : Getting → Getting × ConnectionPool
  | .called =>
      if pool.idle = [] ∧ pool.currentPoolSize < maxPoolSize then (.creating, pool.grow)
      else pool.take e
  | .creating | .reconnecting =>
      match pool.createConnection e with
      | (some conn, pool) => (.returned (some conn), pool)
      | (none, pool) => (.failed, pool)
  | .failed => (.returned none, pool.shrink)
  -- After a timeout the queue is not looked at again.
  | .waiting => if e = .timedOut then (.returned none, pool) else pool.take e
  | .returned conn => (.returned conn, pool)

def releaseConnection (conn : ℕ) (pool : ConnectionPool) : ConnectionPool :=
  { pool with idle := pool.idle ++ [conn] }

/-- One turn of the constructor's loop. -/
def openInitial (pool : ConnectionPool) (e : Encounter) : ConnectionPool :=
  match pool.createConnection e with
  | (some conn, pool) => (pool.releaseConnection conn).grow
  | (none, pool) => pool

/-- The pool as the constructor leaves it. -/
def construct (attempts : Fin initialPoolSize → Encounter) : ConnectionPool :=
  (List.ofFn attempts).foldl openInitial ⟨[], 0, 0⟩

end ConnectionPool

/-! ## The functions of the DAO -/

/-- The functions that construct a `ConnectionGuard`. -/
inductive DaoFunction
  | checkPermission | getUserRoles | getUserPermissions
  | createApp | updateApp | deleteApp | getApp | listApps | getAppId
  | createRole | createPermission | assignRoleToUser | removeRoleFromUser
  | addPermissionToRole | removePermissionFromRole | createAuditLog
  | deleteRole | deletePermission | listRoles | listPermissions | updateRole | updatePermission
  | getConsoleUser | getRolePermissions | getRolesWithPermission | permissionExists
  | getRoleUsers | listUserRoles | listAuditLogs
  deriving DecidableEq, Repr

/-- Whether a function calls `getAppId` while it holds its connection. -/
def DaoFunction.callsGetAppId : DaoFunction → Bool
  | createRole | createPermission | deleteRole | deletePermission | listRoles | listPermissions
  | updateRole | updatePermission | getRolePermissions | getRolesWithPermission
  | permissionExists | getRoleUsers | listUserRoles => true
  | _ => false

/-- How far the execution of a function is. -/
inductive Stage
  /-- In the constructor of its guard. -/
  | guard (g : Getting)
  /-- It holds `conn`, and is in the constructor of the guard of `getAppId`. -/
  | appIdGuard (conn : ℕ) (g : Getting)
  /-- It holds `conn`, and no guard is to follow. -/
  | body (conn : ℕ)
  | done
  deriving DecidableEq, Repr

/-- The next step of the execution of a function. -/
def Stage.next (callsGetAppId : Bool) (e : Encounter) (pool : ConnectionPool) :
    Stage → Stage × ConnectionPool
  | guard (.returned none) => (done, pool)
  | guard (.returned (some conn)) =>
      (if callsGetAppId then appIdGuard conn .called else body conn, pool)
  | guard g => (guard (pool.getConnection e g).1, (pool.getConnection e g).2)
  -- `getAppId` returns -1, and the function reports that there is no such app.
  | appIdGuard conn (.returned none) => (body conn, pool)
  | appIdGuard conn (.returned (some conn')) => (body conn, pool.releaseConnection conn')
  | appIdGuard conn g => (appIdGuard conn (pool.getConnection e g).1, (pool.getConnection e g).2)
  | body conn => (done, pool.releaseConnection conn)
  | done => (done, pool)

/-- A function in the course of its execution, with what its steps will meet with. -/
structure Borrower where
  function : DaoFunction
  stage : Stage
  encounters : List Encounter
  deriving DecidableEq, Repr

namespace Borrower

def init (q : DaoFunction × List Encounter) : Borrower := ⟨q.1, .guard .called, q.2⟩

def next (b : Borrower) (pool : ConnectionPool) : Borrower × ConnectionPool :=
  let (stage, pool) := b.stage.next b.function.callsGetAppId (b.encounters.headD .favourable) pool
  ({ b with stage := stage, encounters := b.encounters.tail }, pool)

end Borrower

/-- The pool of a DAO and the functions that are being executed. -/
abbrev Borrowers := Pool ConnectionPool Borrower

/-- A function is called, or one of those being executed takes its next step. -/
def Borrowers.step : Borrowers → Move (DaoFunction × List Encounter) → Borrowers :=
  Pool.step Borrower.init Borrower.next

/-! ## The account -/

/-- The connection that a call of `getConnection` is about to return. -/
def Getting.lent : Getting → Multiset ℕ
  | returned (some conn) => {conn}
  | _ => 0

/-- Whether a call of `getConnection` has a slot and no connection for it. -/
def Getting.opening : Getting → ℕ
  | creating | reconnecting | failed => 1
  | _ => 0

/-- The connections that the execution of a function holds. -/
def Stage.lent : Stage → Multiset ℕ
  | guard g => g.lent
  | appIdGuard conn g => {conn} + g.lent
  | body conn => {conn}
  | done => 0

/-- The creations and reconnections in progress on behalf of a function. -/
def Stage.opening : Stage → ℕ
  | guard g => g.opening
  | appIdGuard _ g => g.opening
  | _ => 0

/-- The connections lent. -/
def Borrowers.lent (p : Borrowers) : Multiset ℕ := p.sum fun b => b.stage.lent

/-- How many creations and reconnections are in progress. -/
def Borrowers.opening (p : Borrowers) : ℕ := p.sum fun b => b.stage.opening

/-- What the size counts, when `lent` are lent and `opening` are being opened, and that
no connection is in two places. -/
structure Accounted (pool : ConnectionPool) (lent : Multiset ℕ) (opening : ℕ) : Prop where
  size_eq : pool.currentPoolSize.toNat = pool.idle.length + lent.card + opening
  size_le : pool.currentPoolSize ≤ maxPoolSize
  nodup : (↑pool.idle + lent : Multiset ℕ).Nodup
  lt_opened : ∀ conn ∈ (↑pool.idle + lent : Multiset ℕ), conn < pool.opened

namespace Accounted
variable {pool : ConnectionPool} {lent : Multiset ℕ} {opening conn : ℕ} {idle : List ℕ}

theorem grow (h : Accounted pool lent opening) (hlt : pool.currentPoolSize < maxPoolSize) :
    Accounted pool.grow lent (opening + 1) := by
  have hsize := h.size_eq
  have hgrow := ConnectionPool.toNat_grow hlt
  refine ⟨?_, ?_, by simpa using h.nodup, by simpa using h.lt_opened⟩
  · rw [ConnectionPool.idle_grow]
    omega
  · rw [UInt64.le_iff_toNat_le, hgrow]
    exact UInt64.lt_iff_toNat_lt.mp hlt

theorem shrink (h : Accounted pool lent (opening + 1)) : Accounted pool.shrink lent opening := by
  have hsize := h.size_eq
  have hle := UInt64.le_iff_toNat_le.mp h.size_le
  have hpos : 0 < pool.currentPoolSize.toNat := by omega
  have hshrink := ConnectionPool.toNat_shrink hpos
  refine ⟨?_, ?_, by simpa using h.nodup, by simpa using h.lt_opened⟩
  · rw [ConnectionPool.idle_shrink]
    omega
  · rw [UInt64.le_iff_toNat_le]
    omega

/-- A new connection is lent in place of an opening. -/
theorem opened (h : Accounted pool lent (opening + 1)) :
    Accounted { pool with opened := pool.opened + 1 } ({pool.opened} + lent) opening where
  size_eq := by
    have hsize := h.size_eq
    simp only [Multiset.card_add, Multiset.card_singleton]
    omega
  size_le := h.size_le
  nodup := by
    have hnew : pool.opened ∉ (↑pool.idle + lent : Multiset ℕ) := fun hmem =>
      absurd (h.lt_opened _ hmem) (lt_irrefl _)
    rw [add_left_comm, Multiset.singleton_add]
    exact Multiset.nodup_cons.mpr ⟨hnew, h.nodup⟩
  lt_opened := by
    intro conn hconn
    rw [add_left_comm, Multiset.singleton_add, Multiset.mem_cons] at hconn
    by_cases hnew : conn = pool.opened
    · simp [hnew]
    · have hlt := h.lt_opened conn (hconn.resolve_left hnew)
      simp only
      omega

/-- The front of the queue is lent. -/
theorem lend (h : Accounted pool lent opening) (hidle : pool.idle = conn :: idle) :
    Accounted { pool with idle := idle } ({conn} + lent) opening := by
  have hconns : (↑idle + ({conn} + lent) : Multiset ℕ) = ↑pool.idle + lent := by
    rw [hidle, ← Multiset.cons_coe, ← Multiset.singleton_add]
    exact (add_left_comm _ _ _).trans (add_assoc _ _ _).symm
  refine ⟨?_, h.size_le, ?_, ?_⟩
  · have hsize := h.size_eq
    rw [hidle] at hsize
    simp only [List.length_cons, Multiset.card_add, Multiset.card_singleton] at hsize ⊢
    omega
  · rw [hconns]
    exact h.nodup
  · rw [hconns]
    exact h.lt_opened

/-- The front of the queue is thrown away, and another is opened for it. -/
theorem discard (h : Accounted pool lent opening) (hidle : pool.idle = conn :: idle) :
    Accounted { pool with idle := idle } lent (opening + 1) := by
  have hle : (↑idle + lent : Multiset ℕ) ≤ ↑pool.idle + lent := by
    rw [hidle, ← Multiset.cons_coe]
    exact add_le_add_left (Multiset.le_cons_self _ _) _
  refine ⟨?_, h.size_le, Multiset.nodup_of_le hle h.nodup, fun conn hconn =>
    h.lt_opened conn (Multiset.mem_of_le hle hconn)⟩
  have hsize := h.size_eq
  rw [hidle] at hsize
  simp only [List.length_cons] at hsize ⊢
  omega

theorem release (h : Accounted pool ({conn} + lent) opening) :
    Accounted (pool.releaseConnection conn) lent opening := by
  have hconns : (↑(pool.idle ++ [conn]) + lent : Multiset ℕ) = ↑pool.idle + ({conn} + lent) := by
    rw [← Multiset.coe_add, Multiset.coe_singleton, add_assoc]
  refine ⟨?_, h.size_le, ?_, ?_⟩
  · have hsize := h.size_eq
    simp only [Multiset.card_add, Multiset.card_singleton] at hsize
    simp only [ConnectionPool.releaseConnection, List.length_append, List.length_singleton]
    omega
  · rw [ConnectionPool.releaseConnection, hconns]
    exact h.nodup
  · rw [ConnectionPool.releaseConnection, hconns]
    exact h.lt_opened

theorem take (e : Encounter) (h : Accounted pool lent opening) :
    Accounted (pool.take e).2 ((pool.take e).1.lent + lent)
      ((pool.take e).1.opening + opening) := by
  cases hidle : pool.idle with
  | nil => simpa [ConnectionPool.take, hidle, Getting.lent, Getting.opening] using h
  | cons conn idle =>
      by_cases he : e = .dead
      · simpa [ConnectionPool.take, hidle, he, Getting.lent, Getting.opening, add_comm] using
          h.discard hidle
      · simpa [ConnectionPool.take, hidle, he, Getting.lent, Getting.opening] using h.lend hidle

/-- Opening a connection, with success or without. -/
theorem create (e : Encounter) {g : Getting} (hg : g = .creating ∨ g = .reconnecting)
    (h : Accounted pool lent (opening + 1)) :
    Accounted (pool.getConnection e g).2 ((pool.getConnection e g).1.lent + lent)
      ((pool.getConnection e g).1.opening + opening) := by
  by_cases he : e = .refused
  · have hget : pool.getConnection e g = (.failed, pool) := by
      rcases hg with hg | hg <;> simp [hg, ConnectionPool.getConnection,
        ConnectionPool.createConnection, he]
    simpa [hget, Getting.lent, Getting.opening, add_comm] using h
  · have hget : pool.getConnection e g =
        (.returned (some pool.opened), { pool with opened := pool.opened + 1 }) := by
      rcases hg with hg | hg <;> simp [hg, ConnectionPool.getConnection,
        ConnectionPool.createConnection, he]
    simpa [hget, Getting.lent, Getting.opening] using h.opened

/-- **A step of `getConnection` keeps the account.** -/
theorem getConnection (e : Encounter) {g : Getting}
    (h : Accounted pool (g.lent + lent) (g.opening + opening)) :
    Accounted (pool.getConnection e g).2 ((pool.getConnection e g).1.lent + lent)
      ((pool.getConnection e g).1.opening + opening) := by
  cases g with
  | called =>
      have h : Accounted pool lent opening := by simpa [Getting.lent, Getting.opening] using h
      by_cases hfree : pool.idle = [] ∧ pool.currentPoolSize < maxPoolSize
      · simpa [ConnectionPool.getConnection, hfree, Getting.lent, Getting.opening, add_comm] using
          h.grow hfree.2
      · simpa [ConnectionPool.getConnection, hfree] using h.take e
  | creating =>
      exact create e (Or.inl rfl) (by simpa [Getting.lent, Getting.opening, add_comm] using h)
  | reconnecting =>
      exact create e (Or.inr rfl) (by simpa [Getting.lent, Getting.opening, add_comm] using h)
  | failed =>
      have h : Accounted pool lent (opening + 1) := by
        simpa [Getting.lent, Getting.opening, add_comm] using h
      simpa [ConnectionPool.getConnection, Getting.lent, Getting.opening] using h.shrink
  | waiting =>
      have h : Accounted pool lent opening := by simpa [Getting.lent, Getting.opening] using h
      by_cases he : e = .timedOut
      · simpa [ConnectionPool.getConnection, he, Getting.lent, Getting.opening] using h
      · simpa [ConnectionPool.getConnection, he] using h.take e
  | returned conn => exact h

/-- **A step of a function keeps the account**, whatever the others hold. -/
theorem next (callsGetAppId : Bool) (e : Encounter) {stage : Stage}
    (h : Accounted pool (stage.lent + lent) (stage.opening + opening)) :
    Accounted (stage.next callsGetAppId e pool).2
      ((stage.next callsGetAppId e pool).1.lent + lent)
      ((stage.next callsGetAppId e pool).1.opening + opening) := by
  cases stage with
  | guard g =>
      by_cases hg : ∃ conn, g = .returned conn
      · obtain ⟨conn, rfl⟩ := hg
        cases conn with
        | none => exact h
        | some conn => cases callsGetAppId <;> exact h
      · rw [Stage.next]
        · exact getConnection e h
        · exact fun hnone => hg ⟨_, hnone⟩
        · exact fun conn hsome => hg ⟨_, hsome⟩
  | appIdGuard conn g =>
      have hshift : ∀ m : Multiset ℕ, {conn} + m + lent = m + ({conn} + lent) := by
        intro m
        rw [add_assoc, add_left_comm]
      simp only [Stage.lent, Stage.opening, hshift] at h
      by_cases hg : ∃ conn', g = .returned conn'
      · obtain ⟨conn', rfl⟩ := hg
        cases conn' with
        | none => simpa [Stage.next, Stage.lent, Stage.opening, Getting.lent, Getting.opening] using h
        | some conn' => exact h.release
      · rw [Stage.next]
        · simp only [Stage.lent, Stage.opening, hshift]
          exact getConnection e h
        · exact fun hnone => hg ⟨_, hnone⟩
        · exact fun conn' hsome => hg ⟨_, hsome⟩
  | body conn => simpa [Stage.next, Stage.lent, Stage.opening] using h.release
  | done => exact h

/-- The constructor accounts for what it opened. -/
theorem openInitial (h : Accounted pool 0 0) (hlt : pool.currentPoolSize < maxPoolSize)
    (e : Encounter) : Accounted (pool.openInitial e) 0 0 := by
  by_cases he : e = .refused
  · simpa [ConnectionPool.openInitial, ConnectionPool.createConnection, he] using h
  · have hopen : pool.openInitial e = ConnectionPool.releaseConnection pool.opened
        { pool.grow with opened := pool.opened + 1 } := by
      simp [ConnectionPool.openInitial, ConnectionPool.createConnection,
        ConnectionPool.releaseConnection, ConnectionPool.grow, he]
    rw [hopen]
    exact ((h.grow hlt).opened).release

theorem construct (attempts : Fin initialPoolSize → Encounter) :
    Accounted (ConnectionPool.construct attempts) 0 0 := by
  have hfold : ∀ (es : List Encounter) (pool : ConnectionPool), Accounted pool 0 0 →
      pool.currentPoolSize.toNat + es.length ≤ maxPoolSize.toNat →
        Accounted (es.foldl ConnectionPool.openInitial pool) 0 0 := by
    intro es
    induction es with
    | nil => exact fun pool h _ => h
    | cons e es ih =>
        intro pool h hle
        simp only [List.length_cons] at hle
        have hlt : pool.currentPoolSize < maxPoolSize := UInt64.lt_iff_toNat_lt.mpr (by omega)
        refine ih _ (h.openInitial hlt e) ?_
        by_cases he : e = .refused
        · simp only [ConnectionPool.openInitial, ConnectionPool.createConnection, he, if_true]
          omega
        · have hgrow := ConnectionPool.toNat_grow hlt
          simp only [ConnectionPool.openInitial, ConnectionPool.createConnection, he, if_false]
          change pool.grow.currentPoolSize.toNat + es.length ≤ maxPoolSize.toNat
          omega
  refine hfold _ _ ⟨rfl, by decide, by simp, by simp⟩ ?_
  rw [List.length_ofFn]
  decide

end Accounted

/-! ## Every run -/

namespace Borrowers

theorem accounted_run {p : Borrowers} (hp : Accounted p.shared p.lent p.opening)
    (l : List (Move (DaoFunction × List Encounter))) :
    Accounted (run step p l).shared (lent (run step p l)) (opening (run step p l)) := by
  have hinv := Pool.run_sum Borrower.init Borrower.next (p := p)
    (f := fun b => (b.stage.lent, b.stage.opening)) (I := fun pool x => Accounted pool x.1 x.2)
    (C := fun _ _ => True) (fun q => rfl)
    (fun p i b others _ _ _ h => Accounted.next b.function.callsGetAppId
      (b.encounters.headD .favourable) h)
    (by rwa [Pool.sum_prodMk]) (meets_of_forall _ (fun _ _ => trivial) p l)
  rw [Pool.sum_prodMk] at hinv
  exact hinv

end Borrowers

/-- **The pool's account.**  After any run, from any outcome of the constructor, the size
counts the connections that are idle or lent and those being opened; it is within its
bound, and positive when it may be about to be decremented; no connection is in two places
at once; and when no function is being executed the size counts the idle connections, so
that nothing has leaked. -/
theorem pool_accounting (attempts : Fin initialPoolSize → Encounter)
    (l : List (Move (DaoFunction × List Encounter))) :
    let p : Borrowers := run Borrowers.step ⟨.construct attempts, []⟩ l
    p.shared.currentPoolSize.toNat = p.shared.idle.length + p.lent.card + p.opening ∧
      p.shared.currentPoolSize ≤ maxPoolSize ∧
      (↑p.shared.idle + p.lent : Multiset ℕ).Nodup ∧
      (∀ b ∈ p.threads, b.stage.opening ≠ 0 → 0 < p.shared.currentPoolSize) ∧
      ((∀ b ∈ p.threads, b.stage = .done) →
        p.shared.currentPoolSize.toNat = p.shared.idle.length) := by
  intro p
  have h : Accounted p.shared p.lent p.opening :=
    Borrowers.accounted_run (Accounted.construct attempts) l
  have hsize := h.size_eq
  refine ⟨hsize, h.size_le, h.nodup, ?_, ?_⟩
  · intro b hb hopening
    have hle : b.stage.opening ≤ p.opening :=
      List.single_le_sum (by simp) _ (List.mem_map_of_mem hb)
    refine UInt64.lt_iff_toNat_lt.mpr ?_
    rw [UInt64.toNat_zero]
    omega
  · intro hdone
    have hlent : p.lent = 0 := by
      refine List.sum_eq_zero fun m hm => ?_
      obtain ⟨b, hb, rfl⟩ := List.mem_map.mp hm
      simp [hdone b hb, Stage.lent]
    have hopening : p.opening = 0 := by
      refine List.sum_eq_zero fun m hm => ?_
      obtain ⟨b, hb, rfl⟩ := List.mem_map.mp hm
      simp [hdone b hb, Stage.opening]
    simp only [hlent, hopening, Multiset.card_zero] at hsize
    exact hsize

end SiqiAuth
