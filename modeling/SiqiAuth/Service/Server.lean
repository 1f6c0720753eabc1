import SiqiAuth.Service.LocalCache
import SiqiAuth.Store.InitRows
import SiqiAuth.Store.Reading

/-!
# The server

What the services of `server_main.cpp` share: the tables, the permission cache and
the steady clock.  `AuthServiceImpl`, `AuthAgentImpl` and `AdminServiceImpl` each
have a `PermissionDAO` of their own, with its own `last_error_`; the sessions belong
to `AdminServiceImpl`.

RPCs are executed one at a time here.  Each is handed an `Env`, which says what the
database does and how far the clocks have got while it runs.

## Main definitions

* `Config` — the settings of the program, and the function `crypt`.
* `Server` — the state.
* `Service` — the monad of the handlers; `steadyNow`, `call` and the cache accesses
  are their steps.
-/

namespace SiqiAuth
open Lib

/-- The flags of `server_main.cpp` that the handlers see, and the C library's
`crypt`, which returns `NULL` for a hash it cannot read. -/
structure Config where
  crypt : String → String → Option String
  cacheTtl : ℤ := 60
  sessionTtl : ℤ := 3600

/-- `AdminServiceImpl::SessionInfo`. -/
structure SessionInfo where
  userId : ℤ
  username : String
  realName : String
  deriving DecidableEq, Repr

/-- Who holds a `PermissionDAO`. -/
inductive Holder
  | authService
  | authAgent
  | adminService
  deriving DecidableEq, Repr

/-- What happens around an RPC: the outcomes of its database interactions, the
system clock, and how much time passes before each reading of the steady clock. -/
structure Env where
  outcomes : List Outcome := []
  wallClock : ℤ := 0
  ticks : List ℕ := []
  deriving DecidableEq, Repr

/-- The state of the services between RPCs, and the environment of the current one. -/
structure Server (c : Collation) where
  db : Db c
  /-- The permission cache: the permission keys of a user in an app. -/
  cache : LocalCache (Finset String)
  /-- `session_cache_`: the sessions by token. -/
  sessions : LocalCache SessionInfo
  /-- The `last_error_` of each DAO. -/
  lastError : Holder → String
  /-- What the steady clock last read, in nanoseconds. -/
  now : ℤ
  env : Env

/-- The code of an RPC handler. -/
abbrev Service (c : Collation) := StateM (Server c)

variable {c : Collation} {α β : Type}

namespace Server

/-- The server as it starts on the tables of `scripts/init.sql`. -/
def start (installed : ℤ) : Server c where
  db := Db.initial installed
  cache := .empty
  sessions := .empty
  lastError := fun _ => ""
  now := 0
  env := {}

/-- The server on the initial tables, row by row. -/
theorem start_eq_seeded [InitSql.Loads c] : (Server.start 0 : Server c) =
    ⟨Db.seeded, .empty, .empty, fun _ => "", 0, {}⟩ := by
  rw [start, Db.initial_eq_seeded]

@[simp] theorem db_start (installed : ℤ) :
    (start installed : Server c).db = Db.initial installed := by
  simp only [start]

/-- The same server before an RPC of the given environment. -/
def facing (s : Server c) (env : Env) : Server c := { s with env := env }

@[simp] theorem db_facing (s : Server c) (env : Env) : (s.facing env).db = s.db := rfl
@[simp] theorem cache_facing (s : Server c) (env : Env) : (s.facing env).cache = s.cache := rfl
@[simp] theorem sessions_facing (s : Server c) (env : Env) :
    (s.facing env).sessions = s.sessions := rfl
@[simp] theorem now_facing (s : Server c) (env : Env) : (s.facing env).now = s.now := rfl
@[simp] theorem env_facing (s : Server c) (env : Env) : (s.facing env).env = env := rfl

/-- The next reading of the steady clock. -/
def nextNow (s : Server c) : ℤ := s.now + s.env.ticks.headD 0

theorem now_le_nextNow (s : Server c) : s.now ≤ s.nextNow := by
  have h : (0 : ℤ) ≤ s.env.ticks.headD 0 := Int.natCast_nonneg _
  simp only [nextNow]
  omega

/-- The state after that reading. -/
def tick (s : Server c) : Server c :=
  { s with now := s.nextNow, env := { s.env with ticks := s.env.ticks.tail } }

@[simp] theorem db_tick (s : Server c) : s.tick.db = s.db := rfl
@[simp] theorem cache_tick (s : Server c) : s.tick.cache = s.cache := rfl
@[simp] theorem sessions_tick (s : Server c) : s.tick.sessions = s.sessions := rfl
@[simp] theorem now_tick (s : Server c) : s.tick.now = s.nextNow := rfl
@[simp] theorem outcomes_tick (s : Server c) : s.tick.env.outcomes = s.env.outcomes := rfl

/-- What a function of a holder's DAO works on. -/
def dao (s : Server c) (h : Holder) : DaoState c :=
  ⟨s.db, s.lastError h, s.env.outcomes, s.env.wallClock⟩

@[simp] theorem db_dao (s : Server c) (h : Holder) : (s.dao h).db = s.db := rfl

/-- The state after a function of a holder's DAO left off in `σ`. -/
def left (s : Server c) (h : Holder) (σ : DaoState c) : Server c :=
  { s with
    db := σ.db
    lastError := Function.update s.lastError h σ.lastError
    env := { s.env with outcomes := σ.outcomes, wallClock := σ.wallClock } }

@[simp] theorem db_left (s : Server c) (h : Holder) (σ : DaoState c) : (s.left h σ).db = σ.db := rfl
@[simp] theorem cache_left (s : Server c) (h : Holder) (σ : DaoState c) :
    (s.left h σ).cache = s.cache := rfl
@[simp] theorem sessions_left (s : Server c) (h : Holder) (σ : DaoState c) :
    (s.left h σ).sessions = s.sessions := rfl
@[simp] theorem now_left (s : Server c) (h : Holder) (σ : DaoState c) :
    (s.left h σ).now = s.now := rfl

/-- A holder reads the error its own DAO left. -/
@[simp] theorem lastError_dao_left (s : Server c) (h : Holder) (σ : DaoState c) :
    ((s.left h σ).dao h).lastError = σ.lastError := by
  simp [left, dao]

/-- From `s` to `s'` nothing was stored and the clock was not read. -/
structure Kept (s s' : Server c) : Prop where
  db_eq : s'.db = s.db
  cache_eq : s'.cache = s.cache
  sessions_eq : s'.sessions = s.sessions
  now_eq : s'.now = s.now

theorem Kept.refl (s : Server c) : Kept s s := ⟨rfl, rfl, rfl, rfl⟩

theorem Kept.trans {s s' s'' : Server c} (h : Kept s s') (k : Kept s' s'') : Kept s s'' :=
  ⟨k.db_eq.trans h.db_eq, k.cache_eq.trans h.cache_eq, k.sessions_eq.trans h.sessions_eq,
    k.now_eq.trans h.now_eq⟩

/-- A reading function of a DAO stores nothing. -/
theorem Kept.left {s : Server c} {h : Holder} {σ : DaoState c} (hq : Quiet (s.dao h) σ) :
    Kept s (s.left h σ) := ⟨hq.db_eq, rfl, rfl, rfl⟩

/-- No database interaction of the RPC fails. -/
def Healthy (s : Server c) : Prop := ∀ o ∈ s.env.outcomes, o.succeeds = true

instance (s : Server c) : Decidable s.Healthy :=
  inferInstanceAs (Decidable (∀ o ∈ s.env.outcomes, o.succeeds = true))

/-- Nothing fails in the environment in which nothing is said to. -/
theorem healthy_facing (s : Server c) : (s.facing {}).Healthy :=
  fun _ ho => absurd ho List.not_mem_nil

theorem healthy_dao {s : Server c} (hs : s.Healthy) (h : Holder) : (s.dao h).Healthy := hs

end Server

/-! ## Steps of a handler -/

/-- `steady_clock::now()`. -/
def steadyNow : Service c ℤ := do
  let s ← get
  set s.tick
  return s.nextNow

/-- A call of a function of the holder's DAO. -/
def call (h : Holder) (x : Dao c α) : Service c α := do
  let s ← get
  let (a, σ) := x.run (s.dao h)
  set (s.left h σ)
  return a

/-- `cache_->Get`. -/
def cacheGet (key : String) : Service c (Option (Finset String)) := do
  let now ← steadyNow
  let s ← get
  let (found, cache) := s.cache.get now key
  set { s with cache := cache }
  return found

/-- `cache_->Put`. -/
def cachePut (key : String) (perms : Finset String) (ttlSeconds : ℤ) : Service c Unit := do
  let now ← steadyNow
  modify fun s => { s with cache := s.cache.put now key perms ttlSeconds }

/-- `session_cache_.Get`. -/
def sessionGet (token : String) : Service c (Option SessionInfo) := do
  let now ← steadyNow
  let s ← get
  let (found, sessions) := s.sessions.get now token
  set { s with sessions := sessions }
  return found

/-- `session_cache_.Put`. -/
def sessionPut (token : String) (session : SessionInfo) (ttlSeconds : ℤ) : Service c Unit := do
  let now ← steadyNow
  modify fun s => { s with sessions := s.sessions.put now token session ttlSeconds }

theorem run_bind (x : Service c α) (f : α → Service c β) (s : Server c) :
    (x >>= f).run s = (f (x.run s).1).run (x.run s).2 := rfl

theorem run_call (h : Holder) (x : Dao c α) (s : Server c) :
    (call h x).run s = ((x.run (s.dao h)).1, s.left h (x.run (s.dao h)).2) := rfl

theorem run_cacheGet (key : String) (s : Server c) :
    (cacheGet key).run s = ((s.cache.get s.nextNow key).1,
      { s.tick with cache := (s.cache.get s.nextNow key).2 }) := rfl

theorem run_cachePut (key : String) (perms : Finset String) (ttl : ℤ) (s : Server c) :
    (cachePut key perms ttl).run s =
      ((), { s.tick with cache := s.cache.put s.nextNow key perms ttl }) := rfl

theorem run_sessionGet (token : String) (s : Server c) :
    (sessionGet token).run s = ((s.sessions.get s.nextNow token).1,
      { s.tick with sessions := (s.sessions.get s.nextNow token).2 }) := rfl

theorem run_sessionPut (token : String) (session : SessionInfo) (ttl : ℤ) (s : Server c) :
    (sessionPut token session ttl).run s =
      ((), { s.tick with sessions := s.sessions.put s.nextNow token session ttl }) := rfl

end SiqiAuth
