import SiqiAuth.Lib.Pool
import SiqiAuth.Service.Rpc

/-!
# Interleaved handlers

`AuthServiceImpl::Check` and the editing handlers of `AdminServiceImpl` as threads over
the state that the services share.  A step is one access to a cache, or one call of the
DAO: another thread can run between any two of them.  Taken one after the other, the
steps of a handler are the handler.

## Main definitions

* `Handler` — where a handler stands, with what it has learned so far.
* `Handler.next` — its next step.
* `Handler.Stepped` — what the next step can do; `Handler.next_spec` — it does that.
* `Thread`, `Thread.next` — a handler with the environment of its RPC.
* `Service.step` — a move of the scheduler.
* `solo_eq_step` — an RPC that runs alone does what `Server.step` says.
-/

namespace SiqiAuth
open Lib AuthService AdminService

variable {c : Collation}

/-- An RPC that is executed in steps. -/
inductive Request
  | check (req : CheckRequest)
  | edit (req : EditRequest) (header : Option String)
  deriving DecidableEq, Repr

/-- Where a handler stands. -/
inductive Handler
  /-- Before the cache lookup of a check. -/
  | get (req : CheckRequest)
  /-- Before its database read. -/
  | read (req : CheckRequest)
  /-- Before it puts what it read into the cache. -/
  | put (req : CheckRequest) (perms : Finset String)
  /-- Before its final step. -/
  | judge (req : CheckRequest) (perms : Finset String) (cacheHit : Bool)
  | answered (req : CheckRequest) (r : CheckResponse)
  /-- Before the session check of an edit. -/
  | authenticate (req : EditRequest) (header : Option String)
  /-- Before its invalidation. -/
  | invalidate (req : EditRequest) (session : SessionInfo)
  /-- Before its database write. -/
  | write (req : EditRequest) (session : SessionInfo)
  /-- Before its audit row, or its look at the error. -/
  | report (req : EditRequest) (session : SessionInfo) (ok : Bool) (appSecret : Option String)
  | returned (req : EditRequest) (r : AdminResponse)
  deriving DecidableEq

namespace Handler

/-- Where the handler of an RPC starts. -/
def init : Request → Handler
  | .check req => .get req
  | .edit req header => .authenticate req header

/-- The next step of a handler. -/
def next (cfg : Config) : Handler → Service c Handler
  | get req => do
      if req.appCode = "" ∨ req.userId = "" ∨ req.permKey = "" then
        return answered req { allowed := some false, reason := "参数不完整" }
      match ← cacheGet (cacheKey req.appCode req.userId) with
      | some perms => return judge req perms true
      | none => return read req
  | read req => do
      return put req (← call .authService (loadPermissions req.appCode req.userId))
  | put req perms => do
      cachePut (cacheKey req.appCode req.userId) perms cfg.cacheTtl
      return judge req perms false
  | judge req perms cacheHit => do return answered req (← finalCheck req perms cacheHit)
  | answered req r => return answered req r
  | authenticate req header => do
      match ← validateToken header with
      | none => return returned req unauthorized
      | some session => return invalidate req session
  | invalidate req session => do
      modify fun s => { s with cache := req.edit.invalidation.apply s.cache }
      if "" ∈ req.edit.required then
        return returned req
          { success := false, code := req.edit.missingCode, message := "缺少必要参数" }
      return write req session
  | write req session => do
      let (ok, appSecret) ← call .adminService req.edit.run
      return report req session ok appSecret
  | report req session ok appSecret => do
      if ok then
        let _ ← call .adminService (PermissionDAO.createAuditLog (req.edit.audit session))
        return returned req { success := true, message := req.edit.success, appSecret := appSecret }
      else
        let error ← call .adminService getLastError
        return returned req
          { success := false, code := req.edit.failureCode, message := req.edit.failure ++ error }
  | returned req r => return returned req r

/-- What the next step of a handler can do. -/
inductive Stepped (cfg : Config) (s : Server c) : Handler → Handler → Server c → Prop
  | incomplete {req : CheckRequest} (hreq : ¬ req.Complete) :
      Stepped cfg s (get req) (answered req { allowed := some false, reason := "参数不完整" }) s
  | hit {req : CheckRequest} {perms : Finset String} {s' : Server c} (hreq : req.Complete)
      (hpeek : s.cache.peek s.nextNow (cacheKey req.appCode req.userId) = some perms)
      (hdb : s'.db = s.db)
      (hcache : s'.cache = (s.cache.get s.nextNow (cacheKey req.appCode req.userId)).2)
      (hnow : s'.now = s.nextNow) : Stepped cfg s (get req) (judge req perms true) s'
  | miss {req : CheckRequest} {s' : Server c} (hreq : req.Complete)
      (hpeek : s.cache.peek s.nextNow (cacheKey req.appCode req.userId) = none)
      (hdb : s'.db = s.db)
      (hcache : s'.cache = (s.cache.get s.nextNow (cacheKey req.appCode req.userId)).2)
      (hnow : s'.now = s.nextNow) : Stepped cfg s (get req) (read req) s'
  | read {req : CheckRequest} {s' : Server c} (hkept : s.Kept s') :
      Stepped cfg s (read req) (put req (loaded s req.appCode req.userId)) s'
  | put {req : CheckRequest} {perms : Finset String} {s' : Server c} (hdb : s'.db = s.db)
      (hcache : s'.cache = s.cache.put s.nextNow (cacheKey req.appCode req.userId) perms cfg.cacheTtl)
      (hnow : s'.now = s.nextNow) : Stepped cfg s (put req perms) (judge req perms false) s'
  | judge {req : CheckRequest} {perms : Finset String} {cacheHit : Bool} {r : CheckResponse}
      {s' : Server c} (hallowed : r.allowed = some (decide (req.permKey ∈ perms)))
      (hkept : s.Kept s') : Stepped cfg s (judge req perms cacheHit) (answered req r) s'
  | rejected {req : EditRequest} {header : Option String} (hsession : s.session header = none) :
      Stepped cfg s (authenticate req header) (returned req unauthorized) (s.gated header)
  | accepted {req : EditRequest} {header : Option String} {session : SessionInfo}
      (hsession : s.session header = some session) :
      Stepped cfg s (authenticate req header) (invalidate req session) (s.gated header)
  | invalidate {req : EditRequest} {session : SessionInfo} {h' : Handler}
      (hh' : h' = write req session ∨ ∃ r, h' = returned req r) :
      Stepped cfg s (invalidate req session) h'
        { s with cache := req.edit.invalidation.apply s.cache }
  | write {req : EditRequest} {session : SessionInfo} {ok : Bool} {appSecret : Option String}
      {s' : Server c} (heffect : DaoOp.Effect s.db req.edit.op ok s'.db)
      (hcache : s'.cache = s.cache) (hnow : s'.now = s.now) :
      Stepped cfg s (write req session) (report req session ok appSecret) s'
  | report {req : EditRequest} {session : SessionInfo} {ok : Bool} {appSecret : Option String}
      {r : AdminResponse} {s' : Server c} (hr : r.success = ok)
      (hdb : ∃ t, s'.db = { s.db with sysAuditLogs := t }) (hcache : s'.cache = s.cache)
      (hnow : s'.now = s.now) :
      Stepped cfg s (report req session ok appSecret) (returned req r) s'
  | done {h : Handler} (hdone : (∃ req r, h = answered req r) ∨ ∃ req r, h = returned req r) :
      Stepped cfg s h h s

/-- **A handler does what its next step can do.** -/
theorem next_spec {cfg : Config} {h h' : Handler} {s s' : Server c}
    (hrun : (h.next cfg).run s = (h', s')) : Stepped cfg s h h' s' := by
  cases h with
  | get req =>
      by_cases hreq : req.Complete
      · have hfields : ¬ (req.appCode = "" ∨ req.userId = "" ∨ req.permKey = "") := by
          simp only [CheckRequest.Complete] at hreq
          tauto
        simp only [next, if_neg hfields, run_bind, run_cacheGet, LocalCache.fst_get] at hrun
        cases hpeek : s.cache.peek s.nextNow (cacheKey req.appCode req.userId) with
        | some perms =>
            rw [hpeek] at hrun
            cases hrun
            exact .hit hreq hpeek rfl rfl rfl
        | none =>
            rw [hpeek] at hrun
            cases hrun
            exact .miss hreq hpeek rfl rfl rfl
      · have hfields : req.appCode = "" ∨ req.userId = "" ∨ req.permKey = "" := by
          simp only [CheckRequest.Complete] at hreq
          tauto
        simp only [next, if_pos hfields] at hrun
        cases hrun
        exact .incomplete hreq
  | read req =>
      cases hrun
      exact .read (.left (loadPermissions_quiet req.appCode req.userId (s.dao .authService)))
  | put req perms =>
      cases hrun
      exact .put rfl rfl rfl
  | judge req perms cacheHit =>
      cases hrun
      obtain ⟨hallowed, hkept⟩ := finalCheck_spec req perms cacheHit
        (Prod.mk.eta (p := (finalCheck req perms cacheHit).run s)).symm
      exact .judge hallowed hkept
  | answered req r =>
      cases hrun
      exact .done (Or.inl ⟨req, r, rfl⟩)
  | authenticate req header =>
      simp only [next, run_bind, run_validateToken] at hrun
      cases hsession : s.session header with
      | none =>
          rw [hsession] at hrun
          cases hrun
          exact .rejected hsession
      | some session =>
          rw [hsession] at hrun
          cases hrun
          exact .accepted hsession
  | invalidate req session =>
      simp only [next, run_bind] at hrun
      by_cases hreq : "" ∈ req.edit.required
      · simp only [hreq, if_true] at hrun
        cases hrun
        exact .invalidate (Or.inr ⟨_, rfl⟩)
      · simp only [hreq, if_false] at hrun
        cases hrun
        exact .invalidate (Or.inl rfl)
  | write req session =>
      obtain ⟨appSecret, hop⟩ := req.edit.run_run (s.dao .adminService)
      simp only [next, run_bind, run_call, hop] at hrun
      cases hrun
      exact .write (DaoOp.run_effect req.edit.op (s.dao .adminService)) rfl rfl
  | report req session ok appSecret =>
      cases ok with
      | true =>
          cases hrun
          exact .report rfl ⟨_, (createAuditLog_audited (req.edit.audit session)
            (s.dao .adminService)).eq⟩ rfl rfl
      | false =>
          cases hrun
          exact .report rfl ⟨_, rfl⟩ rfl rfl
  | returned req r =>
      cases hrun
      exact .done (Or.inr ⟨req, r, rfl⟩)

/-- `n` steps of a handler, one after the other. -/
def steps (cfg : Config) : ℕ → Handler → Service c Handler
  | 0, h => return h
  | n + 1, h => do steps cfg n (← h.next cfg)

/-- The reply of a handler that is done. -/
def reply : Handler → Option Reply
  | answered _ r => some (.check r)
  | returned _ r => some (.edit r)
  | _ => none

end Handler

/-- The RPC of a request. -/
def Request.rpc : Request → Rpc
  | check req => .check req
  | edit req header => .edit req header

namespace Handler

theorem run_steps_succ (cfg : Config) (n : ℕ) (h : Handler) (s : Server c) :
    (h.steps cfg (n + 1)).run s = (((h.next cfg).run s).1.steps cfg n).run ((h.next cfg).run s).2 :=
  rfl

/-- The four steps of a check are `AuthService.check`. -/
theorem steps_check (cfg : Config) (req : CheckRequest) (s : Server c) :
    ((get req).steps cfg 4).run s = (.answered req ((check cfg req).run s).1,
      ((check cfg req).run s).2) := by
  by_cases hreq : req.Complete
  · have hfields : ¬ (req.appCode = "" ∨ req.userId = "" ∨ req.permKey = "") := by
      simp only [CheckRequest.Complete] at hreq
      tauto
    rw [run_steps_succ]
    simp only [next, check, userPermissions, if_neg hfields, run_bind, run_cacheGet]
    cases (s.cache.get s.nextNow (cacheKey req.appCode req.userId)).1 with
    | some perms => rfl
    | none => rfl
  · have hfields : req.appCode = "" ∨ req.userId = "" ∨ req.permKey = "" := by
      simp only [CheckRequest.Complete] at hreq
      tauto
    rw [run_check_of_incomplete hreq, run_steps_succ]
    simp only [next, if_pos hfields]
    rfl

/-- The last two steps of an edit are `AdminService.execute`. -/
theorem steps_execute (cfg : Config) (req : EditRequest) (session : SessionInfo) (s : Server c) :
    ((write req session).steps cfg 2).run s =
      (.returned req ((execute req.edit session).run s).1, ((execute req.edit session).run s).2) := by
  cases hrun : req.edit.run.run (s.dao .adminService) with
  | mk out σ =>
      obtain ⟨ok, appSecret⟩ := out
      rw [run_steps_succ]
      simp only [next, execute, run_bind, run_call, hrun]
      cases ok with
      | true => rfl
      | false => rfl

/-- The three steps of an edit that has a session are `AdminService.editAs`. -/
theorem steps_editAs (cfg : Config) (req : EditRequest) (session : SessionInfo) (s : Server c) :
    ((invalidate req session).steps cfg 3).run s =
      (.returned req ((editAs req.edit session).run s).1, ((editAs req.edit session).run s).2) := by
  rw [run_steps_succ]
  simp only [next, editAs, run_bind]
  by_cases hreq : "" ∈ req.edit.required
  · simp only [hreq, if_true]
    rfl
  · simp only [hreq, if_false]
    exact steps_execute cfg req session { s with cache := req.edit.invalidation.apply s.cache }

/-- The four steps of an edit are `AdminService.edit`. -/
theorem steps_edit (cfg : Config) (req : EditRequest) (header : Option String) (s : Server c) :
    ((authenticate req header).steps cfg 4).run s =
      (.returned req ((edit req.edit header).run s).1, ((edit req.edit header).run s).2) := by
  cases hsession : s.session header with
  | none =>
      rw [run_edit_none hsession, run_steps_succ]
      simp only [next, run_bind, run_validateToken, hsession]
      rfl
  | some session =>
      rw [run_edit_some hsession, run_steps_succ]
      simp only [next, run_bind, run_validateToken, hsession]
      exact steps_editAs cfg req session (s.gated header)

end Handler

/-- A handler, with what is left of the environment of its RPC. -/
structure Thread where
  handler : Handler
  env : Env
  deriving DecidableEq

/-- A thread at its start. -/
def Thread.init (q : Request × Env) : Thread := ⟨.init q.1, q.2⟩

/-- The next step of a thread. -/
def Thread.next (cfg : Config) (t : Thread) (s : Server c) : Thread × Server c :=
  let (handler, s') := (t.handler.next cfg).run (s.facing t.env)
  (⟨handler, s'.env⟩, s')

/-- The services, with the RPCs that they are executing. -/
abbrev Services (c : Collation) := Pool (Server c) Thread

/-- A move of the scheduler. -/
def Services.step (cfg : Config) : Services c → Move (Request × Env) → Services c :=
  Pool.step Thread.init (Thread.next cfg)

theorem Thread.iterate_next (cfg : Config) (n : ℕ) (h : Handler) (s : Server c) :
    (fun x : Thread × Server c => x.1.next cfg x.2)^[n] (⟨h, s.env⟩, s) =
      (⟨((h.steps cfg n).run s).1, ((h.steps cfg n).run s).2.env⟩, ((h.steps cfg n).run s).2) := by
  induction n generalizing h s with
  | zero => rfl
  | succ n ih =>
      rw [Function.iterate_succ_apply, Handler.run_steps_succ]
      exact ih ((h.next cfg).run s).1 ((h.next cfg).run s).2

/-- **An RPC that runs alone does what `Server.step` says**, and replies what
`Server.reply` says. -/
theorem solo_eq_step (cfg : Config) (p : Services c) (q : Request) (env : Env) :
    ∃ t : Thread, run (Services.step cfg) p
        (.start (q, env) :: List.replicate 4 (.advance p.threads.length)) =
      ⟨p.shared.step cfg ⟨q.rpc, env⟩, p.threads ++ [t]⟩ ∧
        t.handler.reply = some (p.shared.reply cfg ⟨q.rpc, env⟩) := by
  have hfacing : (fun x : Thread × Server c => x.1.next cfg x.2)^[4]
        (Thread.init (q, env), p.shared) =
      (fun x : Thread × Server c => x.1.next cfg x.2)^[4]
        (⟨.init q, (p.shared.facing env).env⟩, p.shared.facing env) := rfl
  rw [Services.step, Pool.run_solo, hfacing, Thread.iterate_next]
  cases q with
  | check req =>
      rw [Handler.init, Handler.steps_check]
      exact ⟨_, rfl, rfl⟩
  | edit req header =>
      rw [Handler.init, Handler.steps_edit]
      exact ⟨_, rfl, rfl⟩

end SiqiAuth
