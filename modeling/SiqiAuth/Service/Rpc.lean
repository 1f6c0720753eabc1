import SiqiAuth.Service.AdminService
import SiqiAuth.Store.Links

/-!
# Runs of the server

RPCs of all kinds, with any headers, executed one after another on one set of tables.
The steady clock never goes back: an RPC can only let time pass.

## Main definitions

* `Rpc`, `Reply`, `Rpc.serve` — the RPCs and their handlers.
* `Call` — an RPC with what happens around it.
* `Server.reply`, `Server.step` — what a call answers, and the state after it.
* `Server.Served` — what a call can do, kind by kind; `Server.served` — every call does
  it; `Server.Served.effect` — what it can do to the tables.
* `Server.reachable_induction` — what the operations of the DAO keep holds of the
  tables in every state reached.
-/

namespace SiqiAuth
open Lib

variable {c : Collation}

/-- The RPCs. -/
inductive Rpc
  | check (req : CheckRequest)
  | batchCheck (req : BatchCheckRequest)
  | agentCheck (req : CheckRequest) (query : AuthAgent.Query)
  | edit (req : AdminService.EditRequest) (header : Option String)
  | view (req : AdminService.ViewRequest) (header : Option String)
  | login (username password token : String)
  deriving DecidableEq, Repr

/-- Their replies. -/
inductive Reply
  | check (r : CheckResponse)
  | batchCheck (r : Except Failed (List ResultItem))
  | agentCheck (r : CheckResponse) (strategy : Option String)
  | edit (r : AdminService.AdminResponse)
  | view (r : Except AdminService.Refusal AdminService.Listing)
  | login (r : AdminService.LoginResponse)
  deriving DecidableEq, Repr

/-- The handler of an RPC. -/
def Rpc.serve (cfg : Config) : Rpc → Service c Reply
  | check req => do return .check (← AuthService.check cfg req)
  | batchCheck req => do return .batchCheck (← AuthService.batchCheck req)
  | agentCheck req query => do
      let (r, strategy) ← AuthAgent.check req query
      return .agentCheck r strategy
  | edit req header => do return .edit (← AdminService.edit req.edit header)
  | view req header => do return .view (← AdminService.view req.view header)
  | login username password token => do
      return .login (← AdminService.login cfg username password token)

/-- An RPC, with what happens around it. -/
structure Call where
  rpc : Rpc
  env : Env := {}
  deriving DecidableEq, Repr

namespace Server
variable (cfg : Config) (s : Server c) (x : Call)

/-- What a call answers. -/
def reply : Reply := ((x.rpc.serve cfg).run (s.facing x.env)).1

/-- The state after a call. -/
def step : Server c := ((x.rpc.serve cfg).run (s.facing x.env)).2

/-- The state after a call, kind by kind. -/
inductive Served : Call → Reply → Server c → Prop
  | check {req : CheckRequest} {env : Env} {r : CheckResponse} {s' : Server c}
      (h : AuthService.Checked cfg (s.facing env) req r s') :
      Served ⟨.check req, env⟩ (.check r) s'
  | batchCheck {req : BatchCheckRequest} {env : Env} {r : Except Failed (List ResultItem)}
      {s' : Server c} (hkept : (s.facing env).Kept s') :
      Served ⟨.batchCheck req, env⟩ (.batchCheck r) s'
  | agentCheck {req : CheckRequest} {query : AuthAgent.Query} {env : Env} {r : CheckResponse}
      {strategy : Option String} {s' : Server c} (hkept : (s.facing env).Kept s') :
      Served ⟨.agentCheck req query, env⟩ (.agentCheck r strategy) s'
  | edit {req : AdminService.EditRequest} {header : Option String} {env : Env}
      {r : AdminService.AdminResponse} {s' : Server c}
      (h : AdminService.Edited req.edit header (s.facing env) r s') :
      Served ⟨.edit req header, env⟩ (.edit r) s'
  | rejectedView {req : AdminService.ViewRequest} {header : Option String} {env : Env}
      (hsession : (s.facing env).session header = none) :
      Served ⟨.view req header, env⟩ (.view (.error (req.view : AdminService.View c).rejected))
        ((s.facing env).gated header)
  | view {req : AdminService.ViewRequest} {header : Option String} {env : Env}
      {r : Except AdminService.Refusal AdminService.Listing} {session : SessionInfo} {s' : Server c}
      (hsession : (s.facing env).session header = some session)
      (hkept : ((s.facing env).gated header).Kept s') :
      Served ⟨.view req header, env⟩ (.view r) s'
  | login {username password token : String} {env : Env} {r : AdminService.LoginResponse}
      {s' : Server c} (h : AdminService.LoggedIn cfg (s.facing env) username password token r s') :
      Served ⟨.login username password token, env⟩ (.login r) s'

/-- **Every call does what its kind does.** -/
theorem served : Served cfg s x (s.reply cfg x) (s.step cfg x) := by
  obtain ⟨rpc, env⟩ := x
  cases rpc with
  | check req => exact .check (AuthService.check_spec rfl)
  | batchCheck req => exact .batchCheck (AuthService.batchCheck_spec rfl).1
  | agentCheck req query => exact .agentCheck (AuthAgent.check_spec rfl).1
  | edit req header => exact .edit (AdminService.edit_spec rfl)
  | view req header =>
      generalize hrun : (AdminService.view req.view header).run (s.facing env) = out
      obtain ⟨r, s'⟩ := out
      have hreply : s.reply cfg ⟨.view req header, env⟩ = .view r :=
        congrArg (fun out : _ × Server c => Reply.view out.1) hrun
      have hstep : s.step cfg ⟨.view req header, env⟩ = s' := congrArg Prod.snd hrun
      rw [hreply, hstep]
      obtain ⟨hsession, rfl, rfl⟩ | ⟨session, hsession, hkept⟩ := AdminService.view_spec hrun
      · exact .rejectedView hsession
      · exact .view hsession hkept
  | login username password token => exact .login (AdminService.login_spec rfl)

variable {cfg s x} {r : Reply} {s' : Server c}

/-- Only an editing handler writes to the tables. -/
theorem Served.db_eq (h : Served cfg s x r s') (hx : ∀ req header, x.rpc ≠ .edit req header) :
    s'.db = s.db := by
  cases h with
  | check h =>
      cases h with
      | incomplete => rfl
      | hit _ _ _ hdb => exact hdb
      | miss _ _ _ hdb => exact hdb
  | batchCheck hkept | agentCheck hkept => exact hkept.db_eq
  | edit => exact absurd rfl (hx _ _)
  | rejectedView => exact db_gated _ _
  | view _ hkept => exact hkept.db_eq.trans (db_gated _ _)
  | login h =>
      cases h with
      | refused _ hkept => exact hkept.db_eq
      | opened _ _ _ hdb => exact hdb

/-- A success means that the operation returned true, and that besides it only the audit
log was written. -/
theorem Served.edit_success {req : AdminService.EditRequest} {header : Option String} {env : Env}
    {r : AdminService.AdminResponse} (h : Served cfg s ⟨.edit req header, env⟩ (.edit r) s')
    (hr : r.success = true) : ∃ db, DaoOp.Effect s.db req.edit.op true db ∧
      ∃ t, s'.db = { db with sysAuditLogs := t } := by
  cases h with
  | edit h =>
      cases h with
      | rejected | incomplete | failed => cases hr
      | @done _ _ σ _ _ _ hrun haudit =>
          have heffect := DaoOp.run_effect req.edit.op ((s.facing env).dao .adminService)
          rw [hrun] at heffect
          exact ⟨σ.db, heffect, _, haudit.eq⟩

/-- A failure means that the tables are as they were. -/
theorem Served.edit_failure {req : AdminService.EditRequest} {header : Option String} {env : Env}
    {r : AdminService.AdminResponse} (h : Served cfg s ⟨.edit req header, env⟩ (.edit r) s')
    (hr : r.success = false) : s'.db = s.db := by
  cases h with
  | edit h =>
      cases h with
      | rejected => exact db_gated _ _
      | incomplete _ _ hdb => exact hdb
      | failed _ _ hrun hdb => exact hdb.trans (DaoOp.run_of_false hrun)
      | done => cases hr

/-- What a call can do to the tables: have an effect of one operation, and write to the
audit log. -/
theorem Served.effect (h : Served cfg s x r s') : ∃ op ok db, DaoOp.Effect s.db op ok db ∧
    ∃ t, s'.db = { db with sysAuditLogs := t } := by
  have hnothing : s'.db = s.db → ∃ op ok db, DaoOp.Effect s.db op ok db ∧
      ∃ t, s'.db = { db with sysAuditLogs := t } := by
    intro hdb
    exact ⟨.deleteApp "", false, s.db, .nothing fun h => (Bool.false_ne_true h).elim,
      s.db.sysAuditLogs, hdb⟩
  by_cases hx : ∀ req header, x.rpc ≠ .edit req header
  · exact hnothing (h.db_eq hx)
  · push Not at hx
    obtain ⟨req, header, hrpc⟩ := hx
    obtain ⟨rpc, env⟩ := x
    obtain rfl : rpc = .edit req header := hrpc
    cases r with
    | edit r =>
        cases hr : r.success with
        | false => exact hnothing (h.edit_failure hr)
        | true => exact ⟨_, _, h.edit_success hr⟩
    | _ => cases h

/-- The tables agree with a record of owners after a call if they did before. -/
theorem Served.exists_owners (h : Served cfg s x r s')
    (hs : ∃ o : Owners, o.Consistent s.db) :
    ∃ o : Owners, o.Consistent s'.db := by
  obtain ⟨o, ho⟩ := hs
  obtain ⟨op, ok, db, heffect, t, hdb⟩ := h.effect
  obtain ⟨o', ho', -⟩ := heffect.consistent ho
  rw [hdb]
  exact ⟨o', { ho' with }⟩

/-- Tables that concurrent operations can reach are still such after a call: what it does to
them is one operation, and audit rows. -/
theorem Served.reachable (h : Served cfg s x r s') (hs : s.db.Reachable) : s'.db.Reachable := by
  by_cases hx : ∀ req header, x.rpc ≠ .edit req header
  · rw [h.db_eq hx]
    exact hs
  · push Not at hx
    obtain ⟨req, header, hrpc⟩ := hx
    obtain ⟨rpc, env⟩ := x
    obtain rfl : rpc = .edit req header := hrpc
    cases h with
    | edit h =>
        have hrun := hs.run (σ := (s.facing env).dao .adminService) req.edit.op
        cases h with
        | rejected =>
            rw [db_gated]
            exact hs
        | incomplete _ _ hdb =>
            rw [hdb]
            exact hs
        | failed _ _ hop hdb =>
            rw [hdb]
            rwa [hop] at hrun
        | done _ _ hop haudit =>
            rw [haudit.eq]
            rw [hop] at hrun
            exact hrun.log _

/-- The call is a check with nothing live under its key. -/
def Misses (s : Server c) (x : Call) (req : CheckRequest) : Prop :=
  x.rpc = .check req ∧ req.Complete ∧ s.cache.peek (s.facing x.env).nextNow
    (AuthService.cacheKey req.appCode req.userId) = none

instance (s : Server c) (x : Call) (req : CheckRequest) : Decidable (s.Misses x req) :=
  inferInstanceAs (Decidable (_ ∧ _ ∧ _))

/-- Where an entry of the cache after a call comes from: it was there before, under a
key that the call did not miss, or the call is a check that missed and loaded it. -/
theorem Served.find_cache (h : Served cfg s x r s') {key : String} {e : Entry (Finset String)}
    (he : s'.cache.find key = some e) :
    (s.cache.find key = some e ∧
      ∀ req, s.Misses x req → key ≠ AuthService.cacheKey req.appCode req.userId) ∨
    ∃ req, s.Misses x req ∧ key = AuthService.cacheKey req.appCode req.userId ∧
      e = ⟨AuthService.loaded (s.facing x.env) req.appCode req.userId,
        s'.now + seconds cfg.cacheTtl⟩ := by
  have hother : ∀ m : LocalCache (Finset String), m.find key = some e → m = s.cache →
      (∀ req, x.rpc ≠ .check req) → s.cache.find key = some e ∧
        ∀ req, s.Misses x req → key ≠ AuthService.cacheKey req.appCode req.userId :=
    fun m hm hcache hx => ⟨hcache ▸ hm, fun req hmiss => absurd hmiss.1 (hx req)⟩
  cases h with
  | @check req env _ _ h =>
      cases h with
      | incomplete hreq =>
          refine Or.inl ⟨he, ?_⟩
          rintro req' ⟨hrpc, hreq', -⟩
          cases hrpc
          exact absurd hreq' hreq
      | hit hreq hpeek _ _ hcache =>
          refine Or.inl ⟨?_, ?_⟩
          · rw [hcache, LocalCache.find_snd_get, if_neg] at he
            · exact he
            · rintro ⟨-, hnone⟩
              rw [hpeek] at hnone
              cases hnone
          · rintro req' ⟨hrpc, -, hnone⟩
            cases hrpc
            rw [cache_facing] at hpeek
            rw [hpeek] at hnone
            cases hnone
      | miss hreq hpeek _ _ _ hcache =>
          rw [hcache, LocalCache.find_put] at he
          split at he
          case isTrue hkey =>
            cases he
            exact Or.inr ⟨req, ⟨rfl, hreq, hpeek⟩, hkey, rfl⟩
          case isFalse hkey =>
            rw [LocalCache.find_snd_get, if_neg fun h => hkey h.1] at he
            refine Or.inl ⟨he, ?_⟩
            rintro req' ⟨hrpc, -, -⟩
            cases hrpc
            exact hkey
  | batchCheck hkept | agentCheck hkept =>
      exact Or.inl (hother _ he hkept.cache_eq fun _ hx => by cases hx)
  | @edit req header env _ _ h =>
      refine Or.inl (hother s.cache ?_ rfl fun _ hx => by cases hx)
      cases h with
      | rejected =>
          rw [cache_gated] at he
          exact he
      | incomplete _ _ _ hcache | failed _ _ _ _ hcache | done _ _ _ _ hcache =>
          rw [hcache] at he
          exact AdminService.Invalidation.find_apply he
  | @rejectedView req header env =>
      exact Or.inl (hother _ he (cache_gated _ _) fun _ hx => by cases hx)
  | view _ hkept =>
      exact Or.inl (hother _ he (hkept.cache_eq.trans (cache_gated _ _)) fun _ hx => by cases hx)
  | login h =>
      refine Or.inl (hother _ he ?_ fun _ hx => by cases hx)
      cases h with
      | refused _ hkept => exact hkept.cache_eq
      | opened _ _ _ _ hcache => exact hcache

/-- A check that misses puts what it loaded into the cache. -/
theorem Served.find_missed (h : Served cfg s x r s') {req : CheckRequest} (hmiss : s.Misses x req) :
    s'.cache.find (AuthService.cacheKey req.appCode req.userId) =
      some ⟨AuthService.loaded (s.facing x.env) req.appCode req.userId,
        s'.now + seconds cfg.cacheTtl⟩ := by
  obtain ⟨hrpc, hreq, hpeek⟩ := hmiss
  cases h with
  | check h =>
      cases hrpc
      cases h with
      | incomplete hreq' => exact absurd hreq hreq'
      | hit _ hpeek' =>
          rw [cache_facing, hpeek] at hpeek'
          cases hpeek'
      | miss _ _ _ _ _ hcache => rw [hcache, LocalCache.find_put, if_pos rfl]
  | _ => cases hrpc

/-- The clock does not go back. -/
theorem Served.now_le (h : Served cfg s x r s') : s.now ≤ s'.now := by
  have hnext : ∀ env, s.now ≤ (s.facing env).nextNow := fun env => (s.facing env).now_le_nextNow
  have hgated : ∀ env header, s.now ≤ ((s.facing env).gated header).now :=
    fun env header => (s.facing env).now_le_now_gated header
  cases h with
  | @check _ env _ _ h =>
      cases h with
      | incomplete => exact le_refl _
      | hit _ _ _ _ _ _ hnow => exact (hnext env).trans_eq hnow.symm
      | miss _ _ _ _ hle => exact (hnext env).trans hle
  | batchCheck hkept | agentCheck hkept => exact hkept.now_eq.ge
  | @edit _ header env _ _ h =>
      cases h with
      | rejected => exact hgated env header
      | incomplete _ _ _ _ _ hnow => exact (hgated env header).trans_eq hnow.symm
      | failed _ _ _ _ _ _ hnow => exact (hgated env header).trans_eq hnow.symm
      | done _ _ _ _ _ _ hnow => exact (hgated env header).trans_eq hnow.symm
  | @rejectedView _ header env => exact hgated env header
  | @view _ header env _ _ _ _ hkept => exact (hgated env header).trans_eq hkept.now_eq.symm
  | @login _ _ _ env _ _ h =>
      cases h with
      | refused _ hkept => exact hkept.now_eq.ge
      | opened _ _ _ _ _ hnow => exact (hnext env).trans_eq hnow.symm

/-! ## Runs -/

variable (cfg s)

/-- What is kept by every operation of the DAO and by the audit log holds of the tables
in every state reached. -/
theorem reachable_induction {P : Db c → Prop}
    (hempty : P { Db.empty with sysConsoleUsers := InitSql.consoleUsers })
    (hstep : ∀ db op r db', P db → DaoOp.Effect db op r db' → P db')
    (haudit : ∀ (db : Db c) t, P db → P { db with sysAuditLogs := t }) {installed : ℤ}
    {s : Server c} (hs : s.db = Db.initial installed) (l : List Call) :
    P (run (step cfg) s l).db := by
  refine run_induction (P := fun s : Server c => P s.db) (fun s x h => ?_) l ?_
  · obtain ⟨op, r, db, heffect, t, hdb⟩ := (s.served cfg x).effect
    rw [hdb]
    exact haudit _ _ (hstep _ _ _ _ h heffect)
  · rw [hs]
    exact Db.initial_induction hempty (fun db op r db' _ => hstep db op r db') haudit installed

/-- The tables of every state reached agree with a record of owners. -/
theorem exists_owners {installed : ℤ} {s : Server c} (hs : s.db = Db.initial installed)
    (l : List Call) : ∃ o : Owners, o.Consistent (run (step cfg) s l).db := by
  refine reachable_induction cfg (P := fun db => ∃ o : Owners, o.Consistent db)
    ⟨_, Db.consistent_empty⟩ ?_ ?_ hs l
  · rintro db op r db' ⟨o, ho⟩ h
    obtain ⟨o', ho', -⟩ := h.consistent ho
    exact ⟨o', ho'⟩
  · rintro db t ⟨o, ho⟩
    exact ⟨o, { ho with }⟩

/-- The tables of every state reached are such as concurrent operations can reach. -/
theorem reachable_run {s : Server c} (hs : s.db.Reachable) (l : List Call) :
    (run (step cfg) s l).db.Reachable :=
  run_induction (P := fun s : Server c => s.db.Reachable)
    (fun s x hs => (s.served cfg x).reachable hs) l hs

theorem now_le_now_run (l : List Call) : s.now ≤ (run (step cfg) s l).now :=
  run_rel (R := fun s t : Server c => s.now ≤ t.now) (fun _ => le_refl _)
    (fun _ _ _ => le_trans) (fun s x => (s.served cfg x).now_le) s l

end Server
end SiqiAuth
