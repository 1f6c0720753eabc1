import SiqiAuth.Service.Server
import SiqiAuth.Store.UserPermissions

/-!
# `AuthServiceImpl` and `AuthAgentImpl`

The handlers that decide.  `AuthServiceImpl::Check` asks the permission cache first
and fills it from `getUserPermissions`; its `BatchCheck` and the agent's `Check` ask
`checkPermission` each time.

No function of the DAO lets an exception escape, so the `catch` clauses of the
handlers are not reached and are left out.

## Main definitions

* `CheckRequest`, `CheckResponse`, `BatchCheckRequest`, `ResultItem` — the messages.
* `AuthService.check`, `AuthService.batchCheck` — the handlers of the server.
* `AuthAgent.check` — the handler of the agent.
* `AuthService.Checked` — what a check may do; `AuthService.check_spec` — every check
  does it.
-/

namespace SiqiAuth
open Lib

/-! ## Messages -/

/-- `CheckRequest`. -/
structure CheckRequest where
  appCode : String
  userId : String
  permKey : String
  resourceId : String := ""
  deriving DecidableEq, Repr

/-- No field that a check needs is empty. -/
def CheckRequest.Complete (req : CheckRequest) : Prop :=
  req.appCode ≠ "" ∧ req.userId ≠ "" ∧ req.permKey ≠ ""

instance (req : CheckRequest) : Decidable req.Complete :=
  inferInstanceAs (Decidable (_ ∧ _ ∧ _))

/-- `CheckResponse`, as it is before a handler sets anything. -/
structure CheckResponse where
  allowed : Option Bool := none
  reason : String := ""
  currentRoles : String := ""
  suggestRoles : String := ""
  deriving DecidableEq, Repr

/-- `BatchCheckRequest::CheckItem`. -/
structure CheckItem where
  userId : String
  permKey : String
  resourceId : String := ""
  deriving DecidableEq, Repr

/-- `BatchCheckRequest`. -/
structure BatchCheckRequest where
  appCode : String
  items : List CheckItem
  deriving DecidableEq, Repr

/-- `BatchCheckResponse::ResultItem`. -/
structure ResultItem where
  userId : String
  permKey : String
  allowed : Option Bool
  reason : String := ""
  deriving DecidableEq, Repr

/-- The error codes that handlers fail with. -/
inductive ErrorCode
  | EINVAL
  | ENOENT
  | EPERM
  | EAUTH
  deriving DecidableEq, Repr

/-- `SetFailed`: no response is sent. -/
structure Failed where
  code : ErrorCode
  text : String
  deriving DecidableEq, Repr

variable {c : Collation}

/-- What both implementations of `Check` say about a denial. -/
def explainDenial (appCode userId permKey suffix : String) : Dao c CheckResponse := do
  if !(← PermissionDAO.appExists appCode) then
    return { allowed := some false, reason := "应用不存在" ++ suffix }
  if !(← PermissionDAO.permissionExists appCode permKey) then
    return { allowed := some false, reason := "权限不存在" ++ suffix }
  let currentRoles ← PermissionDAO.getUserRoles appCode userId
  let requiredRoles ← PermissionDAO.getRolesWithPermission appCode permKey
  return {
    allowed := some false
    reason := (if currentRoles.isEmpty then "用户不存在或未分配任何角色" else "用户没有该权限") ++ suffix
    currentRoles := if currentRoles.isEmpty then "无" else ",".intercalate currentRoles
    suggestRoles := ",".intercalate requiredRoles }

/-! ## `AuthServiceImpl` -/

namespace AuthService

/-- `app_code + ":" + user_id`. -/
def cacheKey (appCode userId : String) : String := appCode ++ ":" ++ userId

/-- The keys that `getUserPermissions` returns, as a set. -/
def loadPermissions (appCode userId : String) : Dao c (Finset String) := do
  let perms ← PermissionDAO.getUserPermissions appCode userId
  return (perms.map Prod.fst).toFinset

/-- The permission keys of the user, and whether they come from the cache. -/
def userPermissions (cfg : Config) (appCode userId : String) :
    Service c (Finset String × Bool) := do
  match ← cacheGet (cacheKey appCode userId) with
  | some perms => return (perms, true)
  | none =>
      let perms ← call .authService (loadPermissions appCode userId)
      cachePut (cacheKey appCode userId) perms cfg.cacheTtl
      return (perms, false)

/-- The last step of a check. -/
def finalCheck (req : CheckRequest) (perms : Finset String) (cacheHit : Bool) :
    Service c CheckResponse := do
  if req.permKey ∈ perms then return { allowed := some true }
  call .authService
    (explainDenial req.appCode req.userId req.permKey (if cacheHit then " (Cache)" else ""))

def check (cfg : Config) (req : CheckRequest) : Service c CheckResponse := do
  if req.appCode = "" ∨ req.userId = "" ∨ req.permKey = "" then
    return { allowed := some false, reason := "参数不完整" }
  let (perms, cacheHit) ← userPermissions cfg req.appCode req.userId
  finalCheck req perms cacheHit

def batchCheck (req : BatchCheckRequest) : Service c (Except Failed (List ResultItem)) := do
  if req.appCode = "" ∨ req.items = [] then return .error ⟨.EINVAL, "参数不完整"⟩
  let results ← call .authService <| PermissionDAO.batchCheckPermissions req.appCode
    (req.items.map fun item => (item.userId, item.permKey))
  return .ok <| (results.zip req.items).map fun (allowed, item) =>
    { userId := item.userId, permKey := item.permKey, allowed := some allowed
      reason := if allowed then "" else "用户没有该权限" }

end AuthService

/-! ## `AuthAgentImpl` -/

namespace AuthAgent

/-- The parameters of a query string that the agent falls back on. -/
structure Query where
  appCode : Option String := none
  userId : Option String := none
  permKey : Option String := none
  deriving DecidableEq, Repr

/-- A field of the request, or of the query string when the request leaves it empty. -/
def field (fromRequest : String) (fromQuery : Option String) : String :=
  if fromRequest = "" then fromQuery.getD "" else fromRequest

/-- The response, and the `X-Strategy` header. -/
def check (req : CheckRequest) (query : Query) : Service c (CheckResponse × Option String) := do
  let appCode := field req.appCode query.appCode
  let userId := field req.userId query.userId
  let permKey := field req.permKey query.permKey
  if appCode = "" ∨ userId = "" ∨ permKey = "" then
    return ({ allowed := some false, reason := "参数不完整 (Agent)" }, none)
  let allowed ← call .authAgent (PermissionDAO.checkPermission appCode userId permKey "")
  if allowed then return ({ allowed := some true }, some "Local-DB-Slave")
  let response ← call .authAgent (explainDenial appCode userId permKey "")
  return (response, some "Local-DB-Slave")

end AuthAgent

/-! ## What the handlers do -/

theorem explainDenial_quiet (a u p suffix : String) (σ : DaoState c) :
    Quiet σ ((explainDenial a u p suffix).run σ).2 := by
  have h : Reads (c := c) (explainDenial a u p suffix) fun _ _ => True := by
    have happ : Reads (c := c) (PermissionDAO.appExists a) fun _ _ => True :=
      (PermissionDAO.getAppId_reads a).bind fun _ => .pure fun _ _ => trivial
    refine happ.bind fun found => ?_
    split
    case isTrue => exact .pure fun _ _ => trivial
    case isFalse =>
      refine (PermissionDAO.permissionExists_reads a p).bind fun found => ?_
      split
      case isTrue => exact .pure fun _ _ _ => trivial
      case isFalse =>
        refine (PermissionDAO.getUserRoles_reads a u).bind fun roles => ?_
        refine (PermissionDAO.getRolesWithPermission_reads a p).bind fun roles => ?_
        exact .pure fun _ _ _ _ _ => trivial
  exact h.quiet σ

/-- What every continuation returns is returned. -/
theorem returns_bind {α β : Type} {x : Dao c α} {f : α → Dao c β} {Q : β → Prop}
    (h : ∀ a σ, Q ((f a).run σ).1) (σ : DaoState c) : Q ((x >>= f).run σ).1 :=
  h (x.run σ).1 (x.run σ).2

/-- An explained denial is a denial. -/
theorem allowed_explainDenial (a u p suffix : String) (σ : DaoState c) :
    ((explainDenial a u p suffix).run σ).1.allowed = some false := by
  refine returns_bind (Q := fun r : CheckResponse => r.allowed = some false) (fun found σ => ?_) σ
  split
  case isTrue => rfl
  case isFalse =>
    refine returns_bind (Q := fun r : CheckResponse => r.allowed = some false) (fun found σ => ?_) σ
    split <;> rfl

namespace AuthService

theorem loadPermissions_quiet (a u : String) (σ : DaoState c) :
    Quiet σ ((loadPermissions a u).run σ).2 :=
  (PermissionDAO.getUserPermissions_reads a u).quiet σ

/-- What a check that misses now would load. -/
def loaded (s : Server c) (a u : String) : Finset String :=
  ((loadPermissions a u).run (s.dao .authService)).1

/-- A read that gets through loads the user's permission keys. -/
theorem loaded_eq {s : Server c} (h : readsThrough s.env.outcomes = true) (a u : String) :
    loaded s a u = s.db.permKeys a u :=
  PermissionDAO.getUserPermissions_keys (σ := s.dao .authService) h

/-- No failure makes a check load a key that the user does not have. -/
theorem loaded_subset (s : Server c) (a u : String) : loaded s a u ⊆ s.db.permKeys a u :=
  PermissionDAO.getUserPermissions_keys_subset a u (s.dao .authService)

/-- What a check may do: deny for want of a field, answer by what the cache holds, or
load the user's permissions, cache them and answer by them. -/
inductive Checked (cfg : Config) (s : Server c) (req : CheckRequest) :
    CheckResponse → Server c → Prop
  | incomplete (hreq : ¬ req.Complete) :
      Checked cfg s req { allowed := some false, reason := "参数不完整" } s
  | hit {r : CheckResponse} {s' : Server c} {perms : Finset String} (hreq : req.Complete)
      (hpeek : s.cache.peek s.nextNow (cacheKey req.appCode req.userId) = some perms)
      (hallowed : r.allowed = some (decide (req.permKey ∈ perms))) (hdb : s'.db = s.db)
      (hcache : s'.cache = (s.cache.get s.nextNow (cacheKey req.appCode req.userId)).2)
      (hsessions : s'.sessions = s.sessions) (hnow : s'.now = s.nextNow) :
      Checked cfg s req r s'
  | miss {r : CheckResponse} {s' : Server c} (hreq : req.Complete)
      (hpeek : s.cache.peek s.nextNow (cacheKey req.appCode req.userId) = none)
      (hallowed : r.allowed = some (decide (req.permKey ∈ loaded s req.appCode req.userId)))
      (hdb : s'.db = s.db) (hle : s.nextNow ≤ s'.now)
      (hcache : s'.cache = (s.cache.get s.nextNow (cacheKey req.appCode req.userId)).2.put s'.now
        (cacheKey req.appCode req.userId) (loaded s req.appCode req.userId) cfg.cacheTtl)
      (hsessions : s'.sessions = s.sessions) :
      Checked cfg s req r s'

/-- The last step answers by the permissions it is given, and stores nothing. -/
theorem finalCheck_spec (req : CheckRequest) (perms : Finset String) (cacheHit : Bool)
    {s s' : Server c} {r : CheckResponse} (h : (finalCheck req perms cacheHit).run s = (r, s')) :
    r.allowed = some (decide (req.permKey ∈ perms)) ∧ s.Kept s' := by
  by_cases hp : req.permKey ∈ perms
  · simp only [finalCheck, if_pos hp] at h
    cases h
    exact ⟨by simp [hp], .refl _⟩
  · simp only [finalCheck, if_neg hp, run_call] at h
    cases h
    refine ⟨?_, .left (explainDenial_quiet _ _ _ _ _)⟩
    rw [allowed_explainDenial, decide_eq_false hp]

/-- An incomplete check is turned away. -/
theorem run_check_of_incomplete {cfg : Config} {req : CheckRequest} (hreq : ¬ req.Complete)
    (s : Server c) : (check cfg req).run s = ({ allowed := some false, reason := "参数不完整" }, s) := by
  have hfields : req.appCode = "" ∨ req.userId = "" ∨ req.permKey = "" := by
    simp only [CheckRequest.Complete] at hreq
    tauto
  simp only [check, if_pos hfields]
  rfl

/-- **What `Check` does.** -/
theorem check_spec {cfg : Config} {req : CheckRequest} {s s' : Server c} {r : CheckResponse}
    (h : (check cfg req).run s = (r, s')) : Checked cfg s req r s' := by
  by_cases hreq : req.Complete
  · have hfields : ¬ (req.appCode = "" ∨ req.userId = "" ∨ req.permKey = "") := by
      simp only [CheckRequest.Complete] at hreq
      tauto
    simp only [check, if_neg hfields, userPermissions, run_bind, run_cacheGet,
      LocalCache.fst_get] at h
    cases hpeek : s.cache.peek s.nextNow (cacheKey req.appCode req.userId) with
    | some perms =>
        rw [hpeek] at h
        obtain ⟨hallowed, hkept⟩ := finalCheck_spec _ _ _ h
        exact .hit hreq hpeek hallowed hkept.db_eq hkept.cache_eq hkept.sessions_eq hkept.now_eq
    | none =>
        rw [hpeek] at h
        obtain ⟨hallowed, hkept⟩ := finalCheck_spec _ _ _ h
        refine .miss hreq hpeek hallowed (hkept.db_eq.trans ?_) ?_ (hkept.cache_eq.trans ?_)
          hkept.sessions_eq
        · exact (loadPermissions_quiet req.appCode req.userId (s.dao .authService)).db_eq
        · rw [hkept.now_eq]
          exact Server.now_le_nextNow _
        · rw [hkept.now_eq]
          rfl
  · rw [run_check_of_incomplete hreq] at h
    cases h
    exact .incomplete hreq

/-- `BatchCheck` refuses a request without an app or without items; else it returns a
result for each item, in order, and what each says is an answer of `checkPermission`. -/
theorem batchCheck_spec {req : BatchCheckRequest} {s s' : Server c}
    {r : Except Failed (List ResultItem)} (h : (batchCheck req).run s = (r, s')) :
    s.Kept s' ∧ ((req.appCode = "" ∨ req.items = []) ∧ r = .error ⟨.EINVAL, "参数不完整"⟩ ∨
      ∃ answers : List Bool,
      answers = ((PermissionDAO.batchCheckPermissions req.appCode
        (req.items.map fun item => (item.userId, item.permKey))).run (s.dao .authService)).1 ∧
      r = .ok ((answers.zip req.items).map fun (allowed, item) =>
        { userId := item.userId, permKey := item.permKey, allowed := some allowed
          reason := if allowed then "" else "用户没有该权限" })) := by
  by_cases hreq : req.appCode = "" ∨ req.items = []
  · simp only [batchCheck, if_pos hreq] at h
    cases h
    exact ⟨.refl _, Or.inl ⟨hreq, rfl⟩⟩
  · simp only [batchCheck, if_neg hreq, run_bind, run_call] at h
    cases h
    exact ⟨.left ((PermissionDAO.batchCheckPermissions_reads _ _).quiet _), Or.inr ⟨_, rfl, rfl⟩⟩

end AuthService

namespace AuthAgent

/-- The agent answers a complete request by `checkPermission`, and denies any other. -/
theorem check_spec {req : CheckRequest} {query : Query} {s s' : Server c}
    {r : CheckResponse × Option String} (h : (check req query).run s = (r, s')) :
    s.Kept s' ∧ r.1.allowed = some (decide (
      (field req.appCode query.appCode ≠ "" ∧ field req.userId query.userId ≠ "" ∧
        field req.permKey query.permKey ≠ "") ∧
      ((PermissionDAO.checkPermission (field req.appCode query.appCode)
        (field req.userId query.userId) (field req.permKey query.permKey) "").run
          (s.dao .authAgent)).1 = true)) := by
  have hquiet := (PermissionDAO.checkPermission_reads (field req.appCode query.appCode)
    (field req.userId query.userId) (field req.permKey query.permKey) "").quiet (s.dao .authAgent)
  by_cases hfields : field req.appCode query.appCode = "" ∨ field req.userId query.userId = "" ∨
      field req.permKey query.permKey = ""
  · simp only [check, if_pos hfields] at h
    cases h
    refine ⟨.refl _, ?_⟩
    rw [decide_eq_false]
    tauto
  · have hcomplete : field req.appCode query.appCode ≠ "" ∧ field req.userId query.userId ≠ "" ∧
        field req.permKey query.permKey ≠ "" := by tauto
    simp only [check, if_neg hfields, run_bind, run_call] at h
    by_cases hallowed : ((PermissionDAO.checkPermission (field req.appCode query.appCode)
        (field req.userId query.userId) (field req.permKey query.permKey) "").run
          (s.dao .authAgent)).1 = true
    · simp only [hallowed, if_true] at h
      cases h
      exact ⟨.left hquiet, by simp [hcomplete, hallowed]⟩
    · rw [Bool.not_eq_true] at hallowed
      simp only [hallowed, Bool.false_eq_true, if_false, run_bind, run_call] at h
      cases h
      refine ⟨(Server.Kept.left hquiet).trans (.left (explainDenial_quiet _ _ _ _ _)), ?_⟩
      rw [allowed_explainDenial, hallowed, decide_eq_false]
      exact fun hd => Bool.false_ne_true hd.2

end AuthAgent
end SiqiAuth
