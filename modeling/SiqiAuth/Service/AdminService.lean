import SiqiAuth.Service.AuthService

/-!
# `AdminServiceImpl`

The handlers of the console.  Thirteen of them edit: each checks the session,
invalidates what it invalidates, checks its parameters, calls one function of the
DAO, and on success writes an audit row.  `edit` is that procedure, and each handler
is the `Edit` that says what sets it apart.  Eight more list, along `view`, and
refuse a request without a session in one of three ways.  `login` opens sessions.

## Main definitions

* `validateToken` — the session check.
* `Edit`, `edit` — what an editing handler does; `EditRequest.edit` — the handlers.
* `View`, `view` — what a listing handler does; `ViewRequest.view` — the handlers.
* `login` — `Login`.
-/

namespace SiqiAuth
open Lib

variable {c : Collation}

namespace AdminService

/-! ## Sessions -/

/-- The token of an `Authorization` header. -/
def bearerToken (header : String) : Option String :=
  if "Bearer ".toList <+: header.toList then some (String.ofList (header.toList.drop 7)) else none

/-- `ValidateToken`: the session of the request, if it has one. -/
def validateToken (header : Option String) : Service c (Option SessionInfo) := do
  match header.bind bearerToken with
  | none => return none
  | some token =>
      let found ← sessionGet token
      return found.filter fun session => session.username ≠ ""

/-! ## Editing -/

/-- `EINVAL` of `errno.h`. -/
def EINVAL : ℤ := 22

/-- `AdminResponse`. -/
structure AdminResponse where
  success : Bool
  code : ℤ := 0
  message : String
  appSecret : Option String := none
  deriving DecidableEq, Repr

/-- What a handler removes from the permission cache. -/
inductive Invalidation
  | nothing
  | key (key : String)
  | allWithPrefix (pre : String)
  deriving DecidableEq, Repr

/-- The cache after an invalidation. -/
def Invalidation.apply {α : Type} : Invalidation → LocalCache α → LocalCache α
  | nothing, m => m
  | key k, m => m.invalidate k
  | allWithPrefix pre, m => m.invalidatePrefix pre

/-- An invalidation adds nothing. -/
theorem Invalidation.find_apply {α : Type} {i : Invalidation} {m : LocalCache α} {k : String}
    {e : Entry α} (h : (i.apply m).find k = some e) : m.find k = some e := by
  cases i with
  | nothing => exact h
  | key key =>
      rw [apply, LocalCache.find_invalidate] at h
      split at h
      · cases h
      · exact h
  | allWithPrefix pre =>
      rw [apply, LocalCache.invalidatePrefix, LocalCache.find_retain] at h
      split at h
      · exact h
      · cases h

/-- What sets an editing handler apart. -/
structure Edit where
  invalidation : Invalidation := .nothing
  /-- The parameters that may not be empty, and the code when one is. -/
  required : List String
  missingCode : ℤ := 0
  /-- The function of the DAO that is called. -/
  op : DaoOp
  success : String
  /-- The code of a failure, and what is put before `last_error_`. -/
  failureCode : ℤ := 0
  failure : String := ""
  /-- The audit row of a success. -/
  action : String
  targetType : String
  targetId : String
  targetName : String := ""
  objectType : String := ""
  objectId : String := ""
  objectName : String := ""

namespace Edit

/-- The call of the DAO.  `createApp` alone returns more than whether it succeeded. -/
def run (e : Edit) : Dao c (Bool × Option String) :=
  match e.op with
  | .createApp appName appCode description => do
      let (ok, appSecret) ← PermissionDAO.createApp appName appCode description
      return (ok, some appSecret)
  | op => do return (← op.run, none)

/-- The arguments of `createAuditLog`. -/
def audit (e : Edit) (session : SessionInfo) : AuditEntry where
  operatorId := session.userId
  operatorName := session.realName
  appCode := e.op.appCode
  action := e.action
  targetType := e.targetType
  targetId := e.targetId
  targetName := e.targetName
  objectType := e.objectType
  objectId := e.objectId
  objectName := e.objectName

end Edit

/-- `Unauthorized`, as the editing handlers say it. -/
def unauthorized : AdminResponse :=
  { success := false, message := "Unauthorized: Login required" }

/-- The last part of the procedure: the call of the DAO, the audit row, the response. -/
def execute (e : Edit) (session : SessionInfo) : Service c AdminResponse := do
  let (ok, appSecret) ← call .adminService e.run
  if ok then
    let _ ← call .adminService (PermissionDAO.createAuditLog (e.audit session))
    return { success := true, message := e.success, appSecret := appSecret }
  else
    let error ← call .adminService getLastError
    return { success := false, code := e.failureCode, message := e.failure ++ error }

/-- The procedure of the editing handlers, once there is a session. -/
def editAs (e : Edit) (session : SessionInfo) : Service c AdminResponse := do
  modify fun s => { s with cache := e.invalidation.apply s.cache }
  if "" ∈ e.required then
    return { success := false, code := e.missingCode, message := "缺少必要参数" }
  execute e session

/-- The procedure of the editing handlers. -/
def edit (e : Edit) (header : Option String) : Service c AdminResponse := do
  match ← validateToken header with
  | none => return unauthorized
  | some session => editAs e session

/-! ### The editing handlers -/

def createApp (appName appCode description : String) : Edit where
  required := [appCode, appName]
  missingCode := EINVAL
  op := .createApp appName appCode description
  success := "创建应用成功"
  failureCode := 1001
  failure := "创建应用失败: "
  action := "CREATE_APP"
  targetType := "APP"
  targetId := appCode
  targetName := appName

def updateApp (appCode : String) (appName description : Option String) (status : Option ℤ) :
    Edit where
  required := [appCode]
  missingCode := EINVAL
  op := .updateApp appCode appName description status
  success := "更新应用成功"
  failureCode := 1001
  failure := "更新应用失败: "
  action := "UPDATE_APP"
  targetType := "APP"
  targetId := appCode

def deleteApp (appCode : String) : Edit where
  required := [appCode]
  missingCode := EINVAL
  op := .deleteApp appCode
  success := "删除应用成功"
  failureCode := 1001
  failure := "删除应用失败: "
  action := "DELETE_APP"
  targetType := "APP"
  targetId := appCode

def grantRoleToUser (appCode userId roleKey : String) : Edit where
  invalidation := .key (appCode ++ ":" ++ userId)
  required := [appCode, userId, roleKey]
  missingCode := EINVAL
  op := .assignRoleToUser appCode userId roleKey
  success := "授权成功"
  failureCode := 1001
  failure := "授权失败: "
  action := "USER_GRANT_ROLE"
  targetType := "USER"
  targetId := userId
  objectType := "ROLE"
  objectId := roleKey

def revokeRoleFromUser (appCode userId roleKey : String) : Edit where
  invalidation := .key (appCode ++ ":" ++ userId)
  required := [appCode, userId, roleKey]
  op := .removeRoleFromUser appCode userId roleKey
  success := "撤销成功"
  failure := "撤销失败: "
  action := "USER_REVOKE_ROLE"
  targetType := "USER"
  targetId := userId
  objectType := "ROLE"
  objectId := roleKey

def addPermissionToRole (appCode roleKey permKey : String) : Edit where
  invalidation := .allWithPrefix (appCode ++ ":")
  required := [appCode, roleKey, permKey]
  op := .addPermissionToRole appCode roleKey permKey
  success := "绑定成功"
  failure := "绑定失败: "
  action := "ROLE_ADD_PERM"
  targetType := "ROLE"
  targetId := roleKey
  objectType := "PERM"
  objectId := permKey

def removePermissionFromRole (appCode roleKey permKey : String) : Edit where
  invalidation := .allWithPrefix (appCode ++ ":")
  required := [appCode, roleKey, permKey]
  op := .removePermissionFromRole appCode roleKey permKey
  success := "解绑成功"
  failure := "解绑失败: "
  action := "ROLE_REMOVE_PERM"
  targetType := "ROLE"
  targetId := roleKey
  objectType := "PERM"
  objectId := permKey

def createRole (appCode roleName roleKey description : String) (isDefault : Bool) : Edit where
  required := [appCode, roleKey, roleName]
  op := .createRole appCode roleName roleKey description isDefault
  success := "创建角色成功"
  failure := "创建角色失败: "
  action := "CREATE_ROLE"
  targetType := "ROLE"
  targetId := roleKey
  targetName := roleName

def createPermission (appCode permName permKey description : String) : Edit where
  required := [appCode, permKey, permName]
  op := .createPermission appCode permName permKey description
  success := "创建权限成功"
  failure := "创建权限失败: "
  action := "CREATE_PERM"
  targetType := "PERM"
  targetId := permKey
  targetName := permName

def deleteRole (appCode roleKey : String) : Edit where
  required := [appCode, roleKey]
  op := .deleteRole appCode roleKey
  success := "删除角色成功"
  action := "DELETE_ROLE"
  targetType := "ROLE"
  targetId := roleKey

def deletePermission (appCode permKey : String) : Edit where
  required := [appCode, permKey]
  op := .deletePermission appCode permKey
  success := "删除权限成功"
  action := "DELETE_PERM"
  targetType := "PERM"
  targetId := permKey

def updateRole (appCode roleKey : String) (roleName description : Option String)
    (isDefault : Option Bool) : Edit where
  required := [appCode, roleKey]
  op := .updateRole appCode roleKey roleName description isDefault
  success := "更新角色成功"
  action := "UPDATE_ROLE"
  targetType := "ROLE"
  targetId := roleKey

def updatePermission (appCode permKey : String) (permName description : Option String) :
    Edit where
  required := [appCode, permKey]
  op := .updatePermission appCode permKey permName description
  success := "更新权限成功"
  action := "UPDATE_PERM"
  targetType := "PERM"
  targetId := permKey

/-- The requests of the editing handlers. -/
inductive EditRequest
  | createApp (appName appCode description : String)
  | updateApp (appCode : String) (appName description : Option String) (status : Option ℤ)
  | deleteApp (appCode : String)
  | grantRoleToUser (appCode userId roleKey : String)
  | revokeRoleFromUser (appCode userId roleKey : String)
  | addPermissionToRole (appCode roleKey permKey : String)
  | removePermissionFromRole (appCode roleKey permKey : String)
  | createRole (appCode roleName roleKey description : String) (isDefault : Bool)
  | createPermission (appCode permName permKey description : String)
  | deleteRole (appCode roleKey : String)
  | deletePermission (appCode permKey : String)
  | updateRole (appCode roleKey : String) (roleName description : Option String)
      (isDefault : Option Bool)
  | updatePermission (appCode permKey : String) (permName description : Option String)
  deriving DecidableEq, Repr

/-- The handler of a request. -/
def EditRequest.edit : EditRequest → Edit
  | createApp n a d => AdminService.createApp n a d
  | updateApp a n d st => AdminService.updateApp a n d st
  | deleteApp a => AdminService.deleteApp a
  | grantRoleToUser a u k => AdminService.grantRoleToUser a u k
  | revokeRoleFromUser a u k => AdminService.revokeRoleFromUser a u k
  | addPermissionToRole a k p => AdminService.addPermissionToRole a k p
  | removePermissionFromRole a k p => AdminService.removePermissionFromRole a k p
  | createRole a n k d df => AdminService.createRole a n k d df
  | createPermission a n k d => AdminService.createPermission a n k d
  | deleteRole a k => AdminService.deleteRole a k
  | deletePermission a k => AdminService.deletePermission a k
  | updateRole a k n d df => AdminService.updateRole a k n d df
  | updatePermission a k n d => AdminService.updatePermission a k n d

/-! ## Listing -/

/-- How a listing handler refuses: it fails the RPC, or sets a status on an empty
response. -/
inductive Refusal
  | failed (failed : Failed)
  | httpStatus (code : ℕ)
  deriving DecidableEq, Repr

/-- `ListPermissionsResponse::Permission`, as far as it is filled in. -/
structure PermissionInfo where
  id : ℕ
  permName : String
  permKey : String
  description : String
  deriving DecidableEq, Repr

/-- `GetRoleUsersResponse::User`. -/
structure UserInfo where
  userId : String
  createdAt : DateTime
  deriving DecidableEq, Repr

/-- The responses of the listing handlers. -/
inductive Listing
  | app (app : SysApp)
  | apps (apps : List SysApp) (total : ℕ) (page pageSize : ℤ)
  | roles (roles : List PermissionDAO.RoleInfo) (total : ℕ)
  | permissions (permissions : List PermissionInfo) (total : ℕ)
  | rolePermissions (permKeys : List String)
  | roleUsers (users : List UserInfo) (total : ℕ) (page pageSize : ℤ)
  | userRoles (users : List PermissionDAO.UserRoleData) (total : ℕ) (page pageSize : ℤ)
  | auditLogs (logs : List SysAuditLog) (total : ℕ) (page pageSize : ℤ)
  deriving DecidableEq, Repr

/-- What sets a listing handler apart. -/
structure View (c : Collation) where
  /-- The refusal of a request without a session. -/
  rejected : Refusal
  /-- The parameters that may not be empty, and the refusal when one is. -/
  required : List String := []
  missing : Refusal := .httpStatus 400
  /-- The calls of the DAO. -/
  body : Dao c (Except Refusal Listing)

/-- The procedure of the listing handlers, once there is a session; none looks whose it
is. -/
def viewAuthorized (v : View c) : Service c (Except Refusal Listing) := do
  if "" ∈ v.required then return .error v.missing
  call .adminService v.body

/-- The procedure of the listing handlers. -/
def view (v : View c) (header : Option String) : Service c (Except Refusal Listing) := do
  match ← validateToken header with
  | none => return .error v.rejected
  | some _ => viewAuthorized v

/-- `request->page() > 0 ? request->page() : 1`, and the like for a page size. -/
def positiveOr (dflt n : ℤ) : ℤ := if 0 < n then n else dflt

/-! ### The listing handlers -/

def getApp (appCode : String) : View c where
  rejected := .failed ⟨.EAUTH, "Unauthorized: Login required"⟩
  required := [appCode]
  missing := .failed ⟨.EINVAL, "缺少必要参数"⟩
  body := do
    match ← PermissionDAO.getApp appCode with
    | some app => return .ok (.app app)
    | none => return .error (.failed ⟨.ENOENT, "应用不存在"⟩)

def listApps (page pageSize : ℤ) (appName : Option String) (status : Option ℤ) : View c where
  rejected := .failed ⟨.EAUTH, "Unauthorized: Login required"⟩
  body := do
    let page := positiveOr 1 page
    let pageSize := positiveOr 20 pageSize
    let (apps, total) ← PermissionDAO.listApps page pageSize appName status
    return .ok (.apps apps total page pageSize)

def listRoles (appCode : String) : View c where
  rejected := .failed ⟨.EPERM, "Unauthorized: Login required"⟩
  body := do
    let roles ← PermissionDAO.listRoles appCode
    return .ok (.roles roles roles.length)

def listPermissions (appCode : String) : View c where
  rejected := .failed ⟨.EPERM, "Unauthorized: Login required"⟩
  body := do
    let perms ← PermissionDAO.listPermissions appCode
    return .ok (.permissions
      (perms.map fun p => ⟨p.id, p.permName, p.permKey, p.description⟩) perms.length)

def getRolePermissions (appCode roleKey : String) : View c where
  rejected := .httpStatus 401
  required := [appCode, roleKey]
  body := do return .ok (.rolePermissions (← PermissionDAO.getRolePermissions appCode roleKey))

def getRoleUsers (appCode roleKey : String) (page pageSize : ℤ) : View c where
  rejected := .httpStatus 401
  required := [appCode, roleKey]
  body := do
    let page := positiveOr 1 page
    let pageSize := positiveOr 10 pageSize
    let (users, total) ← PermissionDAO.getRoleUsers appCode roleKey page pageSize
    return .ok (.roleUsers (users.map fun u => ⟨u.1, u.2⟩) total page pageSize)

def listUserRoles (appCode : String) (page pageSize : ℤ) (userId : Option String) : View c where
  rejected := .httpStatus 401
  required := [appCode]
  body := do
    let page := positiveOr 1 page
    let pageSize := positiveOr 20 pageSize
    let (users, total) ← PermissionDAO.listUserRoles appCode page pageSize userId
    return .ok (.userRoles users total page pageSize)

def listAuditLogs (page pageSize : ℤ) (appCode action operatorId targetId : Option String)
    (startTime endTime : Option ℤ) : View c where
  rejected := .httpStatus 401
  body := do
    let page := positiveOr 1 page
    let pageSize := positiveOr 20 pageSize
    let (logs, total) ← PermissionDAO.listAuditLogs page pageSize appCode action operatorId
      targetId startTime endTime
    return .ok (.auditLogs logs total page pageSize)

/-- The requests of the listing handlers. -/
inductive ViewRequest
  | getApp (appCode : String)
  | listApps (page pageSize : ℤ) (appName : Option String) (status : Option ℤ)
  | listRoles (appCode : String)
  | listPermissions (appCode : String)
  | getRolePermissions (appCode roleKey : String)
  | getRoleUsers (appCode roleKey : String) (page pageSize : ℤ)
  | listUserRoles (appCode : String) (page pageSize : ℤ) (userId : Option String)
  | listAuditLogs (page pageSize : ℤ) (appCode action operatorId targetId : Option String)
      (startTime endTime : Option ℤ)
  deriving DecidableEq, Repr

/-- The handler of a request. -/
def ViewRequest.view : ViewRequest → View c
  | getApp a => AdminService.getApp a
  | listApps page size n st => AdminService.listApps page size n st
  | listRoles a => AdminService.listRoles a
  | listPermissions a => AdminService.listPermissions a
  | getRolePermissions a k => AdminService.getRolePermissions a k
  | getRoleUsers a k page size => AdminService.getRoleUsers a k page size
  | listUserRoles a page size u => AdminService.listUserRoles a page size u
  | listAuditLogs page size a act op tgt t₁ t₂ =>
      AdminService.listAuditLogs page size a act op tgt t₁ t₂

/-! ## Logging in -/

/-- `LoginResponse`. -/
structure LoginResponse where
  success : Bool
  message : String
  token : String := ""
  deriving DecidableEq, Repr

/-- `Login`.  The token it draws at random is an input. -/
def login (cfg : Config) (username password token : String) : Service c LoginResponse := do
  if username = "" ∨ password = "" then
    return { success := false, message := "用户名或密码为空" }
  let user ← call .adminService (PermissionDAO.getConsoleUser username)
  if user.id = -1 then return { success := false, message := "用户不存在或密码错误" }
  if cfg.crypt password user.passwordHash ≠ some user.passwordHash then
    return { success := false, message := "用户不存在或密码错误" }
  sessionPut token ⟨user.id, user.username, user.realName⟩ cfg.sessionTtl
  return { success := true, message := "登录成功", token := token }

/-! ## What the handlers do -/

theorem bearerToken_eq_some {header token : String} :
    bearerToken header = some token ↔ header = "Bearer " ++ token := by
  have hlen : "Bearer ".toList.length = 7 := by decide
  simp only [bearerToken, Option.ite_none_right_eq_some, Option.some.injEq]
  constructor
  · rintro ⟨⟨rest, hrest⟩, rfl⟩
    rw [← hrest, ← hlen, List.drop_left, ← String.toList_inj, ← hrest]
    simp
  · rintro rfl
    rw [String.toList_append, ← hlen, List.drop_left]
    exact ⟨List.prefix_append _ _, String.ofList_toList⟩

end AdminService

namespace Server
variable (s : Server c) (header : Option String)

/-- The session that an `Authorization` header stands for now. -/
def session : Option SessionInfo :=
  ((header.bind AdminService.bearerToken).bind fun token => s.sessions.peek s.nextNow token).filter
    fun session => session.username ≠ ""

/-- The state after the session check, which may have erased an expired session. -/
def gated : Server c :=
  match header.bind AdminService.bearerToken with
  | none => s
  | some token => { s.tick with sessions := (s.sessions.get s.nextNow token).2 }

@[simp] theorem db_gated : (s.gated header).db = s.db := by
  simp only [gated]
  split <;> rfl

@[simp] theorem cache_gated : (s.gated header).cache = s.cache := by
  simp only [gated]
  split <;> rfl

@[simp] theorem dao_gated (h : Holder) : (s.gated header).dao h = s.dao h := by
  simp only [gated]
  split <;> rfl

theorem now_le_now_gated : s.now ≤ (s.gated header).now := by
  simp only [gated]
  split
  · exact le_refl _
  · exact s.now_le_nextNow

end Server

namespace AdminService

theorem run_validateToken (header : Option String) (s : Server c) :
    (validateToken header).run s = (s.session header, s.gated header) := by
  simp only [validateToken, Server.session, Server.gated]
  cases header.bind bearerToken with
  | none => rfl
  | some token =>
      rw [Option.bind_some, ← LocalCache.fst_get]
      rfl

/-- The audit log after a handler wrote to it: the rows it had, and perhaps the row of
the entry. -/
structure Audited (entry : AuditEntry) (db db' : Db c) : Prop where
  eq : db' = { db with sysAuditLogs := db'.sysAuditLogs }
  kept : ∀ l ∈ db.sysAuditLogs, l ∈ db'.sysAuditLogs
  row : ∀ l ∈ db'.sysAuditLogs, l ∈ db.sysAuditLogs ∨ ∃ id now, l = entry.row id now

theorem Audited.refl (entry : AuditEntry) (db : Db c) : Audited entry db db :=
  ⟨rfl, fun _ h => h, fun _ h => Or.inl h⟩

theorem Audited.of_exec {entry : AuditEntry} {db db' : Db c} {now : DateTime} {n : ℕ}
    (h : (Statement.insertAuditLog entry).exec now db = .ok (n, db')) : Audited entry db db' := by
  obtain ⟨t, ht, rfl⟩ := inserted_eq_ok (Statement.write_of_exec h)
  refine ⟨rfl, fun l hl => Table.mem_insert_of_mem ht hl, fun l hl => ?_⟩
  exact ((Table.mem_insert_iff ht l).mp hl).imp_right fun h => ⟨_, _, h⟩

section
open Std.Do
set_option mvcgen.warning false

theorem createAuditLog_audited (entry : AuditEntry) (σ : DaoState c) :
    Audited entry σ.db ((PermissionDAO.createAuditLog entry).run σ).2.db := by
  refine DaoOp.of_triple (x := PermissionDAO.createAuditLog entry) (σ := σ)
    (Q := fun _ τ => Audited entry σ.db τ.db) ?_
  mvcgen [PermissionDAO.createAuditLog, withConnection, catchSql]
  all_goals subst_vars
  case vc1 σ₁ h₁ _ σ₂ h₂ =>
    rw [h₂.db_eq, h₁.1.db_eq]
    exact .refl _ _
  case vc2 σ₁ h₁ =>
    rw [h₁.1.db_eq]
    exact .refl _ _
  case vc3 σ₁ h₁ _ σ₂ h₂ =>
    rw [← h₁.1.db_eq]
    exact .of_exec h₂.1
  case vc4 σ₁ h₁ _ σ₂ h₂ =>
    rw [h₂.1.db_eq, h₁.1.db_eq]
    exact .refl _ _

end

/-- What an editing handler may do: turn the request away, stop at a missing parameter,
fail, or succeed and audit. -/
inductive Edited (e : Edit) (header : Option String) (s : Server c) :
    AdminResponse → Server c → Prop
  | rejected (hsession : s.session header = none) :
      Edited e header s unauthorized (s.gated header)
  | incomplete {session : SessionInfo} {s' : Server c}
      (hsession : s.session header = some session) (hreq : "" ∈ e.required) (hdb : s'.db = s.db)
      (hcache : s'.cache = e.invalidation.apply s.cache)
      (hsessions : s'.sessions = (s.gated header).sessions) (hnow : s'.now = (s.gated header).now) :
      Edited e header s
        { success := false, code := e.missingCode, message := "缺少必要参数" } s'
  | failed {session : SessionInfo} {s' : Server c} {σ : DaoState c}
      (hsession : s.session header = some session) (hreq : "" ∉ e.required)
      (hrun : e.op.run.run (s.dao .adminService) = (false, σ)) (hdb : s'.db = σ.db)
      (hcache : s'.cache = e.invalidation.apply s.cache)
      (hsessions : s'.sessions = (s.gated header).sessions) (hnow : s'.now = (s.gated header).now) :
      Edited e header s
        { success := false, code := e.failureCode, message := e.failure ++ σ.lastError } s'
  | done {session : SessionInfo} {s' : Server c} {σ : DaoState c} {appSecret : Option String}
      (hsession : s.session header = some session) (hreq : "" ∉ e.required)
      (hrun : e.op.run.run (s.dao .adminService) = (true, σ))
      (haudit : Audited (e.audit session) σ.db s'.db)
      (hcache : s'.cache = e.invalidation.apply s.cache)
      (hsessions : s'.sessions = (s.gated header).sessions) (hnow : s'.now = (s.gated header).now) :
      Edited e header s { success := true, message := e.success, appSecret := appSecret } s'

/-- The call of the DAO is the operation. -/
theorem Edit.run_run (e : Edit) (σ : DaoState c) :
    ∃ appSecret, e.run.run σ = (((e.op.run.run σ).1, appSecret), (e.op.run.run σ).2) := by
  simp only [Edit.run]
  split
  case h_1 h =>
    rw [h]
    exact ⟨_, rfl⟩
  case h_2 => exact ⟨none, rfl⟩

/-- What the last part of the procedure does. -/
theorem execute_spec {e : Edit} {session : SessionInfo} {s s' : Server c} {r : AdminResponse}
    (h : (execute e session).run s = (r, s')) : ∃ σ : DaoState c,
      s'.cache = s.cache ∧ s'.sessions = s.sessions ∧ s'.now = s.now ∧
      ((e.op.run.run (s.dao .adminService) = (false, σ) ∧ s'.db = σ.db ∧
          r = { success := false, code := e.failureCode, message := e.failure ++ σ.lastError }) ∨
        (e.op.run.run (s.dao .adminService) = (true, σ) ∧ Audited (e.audit session) σ.db s'.db ∧
          ∃ appSecret, r = { success := true, message := e.success, appSecret := appSecret })) := by
  obtain ⟨appSecret, hrun⟩ := e.run_run (s.dao .adminService)
  refine ⟨(e.op.run.run (s.dao .adminService)).2, ?_⟩
  cases hok : (e.op.run.run (s.dao .adminService)).1 with
  | false =>
      simp only [execute, run_bind, run_call, hrun, hok, Bool.false_eq_true, if_false] at h
      cases h
      refine ⟨rfl, rfl, rfl, Or.inl ⟨Prod.ext hok rfl, rfl, ?_⟩⟩
      rw [← s.lastError_dao_left .adminService]
      rfl
  | true =>
      simp only [execute, run_bind, run_call, hrun, hok, if_true] at h
      cases h
      refine ⟨rfl, rfl, rfl, Or.inr ⟨Prod.ext hok rfl, ?_, appSecret, rfl⟩⟩
      exact createAuditLog_audited _ ((s.left .adminService _).dao .adminService)

theorem run_edit_none {e : Edit} {header : Option String} {s : Server c}
    (h : s.session header = none) : (edit e header).run s = (unauthorized, s.gated header) := by
  simp only [edit, run_bind, run_validateToken, h]
  rfl

theorem run_edit_some {e : Edit} {header : Option String} {s : Server c} {session : SessionInfo}
    (h : s.session header = some session) :
    (edit e header).run s = (editAs e session).run (s.gated header) := by
  simp only [edit, run_bind, run_validateToken, h]

/-- **What an editing handler does.** -/
theorem edit_spec {e : Edit} {header : Option String} {s s' : Server c} {r : AdminResponse}
    (h : (edit e header).run s = (r, s')) : Edited e header s r s' := by
  cases hsession : s.session header with
  | none =>
      rw [run_edit_none hsession] at h
      cases h
      exact .rejected hsession
  | some session =>
      rw [run_edit_some hsession] at h
      have hcache : e.invalidation.apply (s.gated header).cache =
          e.invalidation.apply s.cache := congrArg e.invalidation.apply (s.cache_gated header)
      simp only [editAs, run_bind] at h
      by_cases hreq : "" ∈ e.required
      · simp only [hreq, if_true] at h
        cases h
        exact .incomplete hsession hreq (s.db_gated header) hcache rfl rfl
      · simp only [hreq, if_false] at h
        obtain ⟨σ, hcache', hsessions, hnow, hfailed | hdone⟩ := execute_spec h
        · obtain ⟨hrun, hdb, rfl⟩ := hfailed
          refine .failed hsession hreq ?_ hdb (hcache'.trans hcache) hsessions hnow
          rw [← s.dao_gated header]
          exact hrun
        · obtain ⟨hrun, haudit, appSecret, rfl⟩ := hdone
          refine .done hsession hreq ?_ haudit (hcache'.trans hcache) hsessions hnow
          rw [← s.dao_gated header]
          exact hrun

/-- A listing handler stores nothing. -/
theorem ViewRequest.view_quiet (q : ViewRequest) (σ : DaoState c) :
    Quiet σ ((q.view : View c).body.run σ).2 := by
  cases q with
  | getApp a =>
      have hbody : Reads ((ViewRequest.getApp a).view : View c).body fun _ _ => True := by
        refine (PermissionDAO.getApp_reads a).bind fun found => ?_
        cases found <;> exact .pure fun _ _ => trivial
      exact hbody.quiet σ
  | listApps page size n st => exact (PermissionDAO.listApps_reads _ _ n st).quiet σ
  | listRoles a => exact (PermissionDAO.listRoles_reads a).quiet σ
  | listPermissions a => exact (PermissionDAO.listPermissions_reads a).quiet σ
  | getRolePermissions a k => exact (PermissionDAO.getRolePermissions_reads a k).quiet σ
  | getRoleUsers a k page size => exact (PermissionDAO.getRoleUsers_reads a k _ _).quiet σ
  | listUserRoles a page size u => exact (PermissionDAO.listUserRoles_reads a _ _ u).quiet σ
  | listAuditLogs page size a act op tgt t₁ t₂ =>
      exact (PermissionDAO.listAuditLogs_reads _ _ a act op tgt t₁ t₂).quiet σ

theorem run_view_none {v : View c} {header : Option String} {s : Server c}
    (h : s.session header = none) :
    (view v header).run s = (.error v.rejected, s.gated header) := by
  simp only [view, run_bind, run_validateToken, h]
  rfl

theorem run_view_some {v : View c} {header : Option String} {s : Server c}
    {session : SessionInfo} (h : s.session header = some session) :
    (view v header).run s = (viewAuthorized v).run (s.gated header) := by
  simp only [view, run_bind, run_validateToken, h]

/-- **What a listing handler does.** -/
theorem view_spec {q : ViewRequest} {header : Option String} {s s' : Server c}
    {r : Except Refusal Listing} (h : (view q.view header).run s = (r, s')) :
    (s.session header = none ∧ r = .error (q.view : View c).rejected ∧ s' = s.gated header) ∨
      ∃ session, s.session header = some session ∧ (s.gated header).Kept s' := by
  cases hsession : s.session header with
  | none =>
      rw [run_view_none hsession] at h
      cases h
      exact Or.inl ⟨rfl, rfl, rfl⟩
  | some session =>
      rw [run_view_some hsession] at h
      refine Or.inr ⟨session, rfl, ?_⟩
      by_cases hreq : "" ∈ (q.view : View c).required
      · simp only [viewAuthorized, hreq, if_true] at h
        cases h
        exact .refl _
      · simp only [viewAuthorized, hreq, if_false] at h
        cases h
        exact .left (q.view_quiet _)

/-- What a login may do: open a session for the account whose password it was given, or
leave everything as it is. -/
inductive LoggedIn (cfg : Config) (s : Server c) (username password token : String) :
    LoginResponse → Server c → Prop
  | refused {r : LoginResponse} {s' : Server c} (hr : r.success = false) (hkept : s.Kept s') :
      LoggedIn cfg s username password token r s'
  | opened {s' : Server c} {user : SysConsoleUser} (huser : user ∈ s.db.sysConsoleUsers)
      (hname : c.same user.username username = true)
      (hpassword : cfg.crypt password user.passwordHash = some user.passwordHash)
      (hdb : s'.db = s.db) (hcache : s'.cache = s.cache) (hnow : s'.now = s.nextNow)
      (hsessions : s'.sessions = s.sessions.put s'.now token
        ⟨user.id, user.username, user.realName⟩ cfg.sessionTtl) :
      LoggedIn cfg s username password token
        { success := true, message := "登录成功", token := token } s'

/-- **What `Login` does.** -/
theorem login_spec {cfg : Config} {username password token : String} {s s' : Server c}
    {r : LoginResponse} (h : (login cfg username password token).run s = (r, s')) :
    LoggedIn cfg s username password token r s' := by
  by_cases hfields : username = "" ∨ password = ""
  · simp only [login, if_pos hfields] at h
    cases h
    exact .refused rfl (.refl _)
  · simp only [login, if_neg hfields, run_bind, run_call] at h
    have hquiet := (PermissionDAO.getConsoleUser_reads username).quiet (s.dao .adminService)
    by_cases hid : ((PermissionDAO.getConsoleUser username).run (s.dao .adminService)).1.id = -1
    · simp only [hid, if_true] at h
      cases h
      exact .refused rfl (.left hquiet)
    · obtain ⟨row, hrow, hname, hfound⟩ := PermissionDAO.getConsoleUser_sound hid
      simp only [hfound] at h
      by_cases hpassword : cfg.crypt password row.passwordHash = some row.passwordHash
      · simp only [hpassword, ne_eq, not_true, if_false] at h
        cases h
        exact .opened hrow hname hpassword hquiet.db_eq rfl rfl rfl
      · simp only [hpassword, ne_eq, not_false_iff, if_true] at h
        cases h
        exact .refused rfl (.left hquiet)

end AdminService
end SiqiAuth
