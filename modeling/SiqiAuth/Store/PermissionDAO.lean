import SiqiAuth.Store.Connection
import SiqiAuth.Store.Select

/-!
# `PermissionDAO`

The functions of `permission_dao.cpp`, in its order.  `std::string*` and
`int32_t*` parameters that may be null are options; an `out_` parameter is a second
component of the result.  What `getAppId` returns as `-1` is `none` here.

Formatting of timestamps and the log on standard error are left out.
-/

namespace SiqiAuth
open Lib

namespace PermissionDAO
variable {c : Collation}

/-! ## Deciding -/

def checkPermission (appCode userId permKey _resourceId : String) : Dao c Bool :=
  withConnection false <| reporting "查询权限失败: " false do
    let counted ← executeQuery fun db => db.snapshot.selectCheckPermission appCode userId permKey
    return decide (0 < counted.length)

/-- One `checkPermission` for each request, in order. -/
def batchCheckPermissions (appCode : String) (requests : List (String × String)) :
    Dao c (List Bool) :=
  requests.mapM fun req => checkPermission appCode req.1 req.2 ""

def getUserRoles (appCode userId : String) : Dao c (List String) :=
  withConnection [] do
    let (roles, raised) ← fetchRows fun db => db.snapshot.selectUserRoles appCode userId
    report "获取角色失败: " raised
    return roles.map fun x => x.2.roleKey

/-- The rows read before an exception are returned: the list is declared outside the
`try`. -/
def getUserPermissions (appCode userId : String) : Dao c (List (String × String)) :=
  withConnection [] do
    let (perms, raised) ← fetchRows fun db => db.snapshot.selectUserPermissions appCode userId
    report "获取用户权限失败: " raised
    return perms.map fun g => (g.perm.permKey, g.perm.permName)

/-! ## Apps -/

/-- Returns whether the app was created, and `out_app_secret`. -/
def createApp (appName appCode description : String) : Dao c (Bool × String) :=
  withConnection (false, "") do
    let secret := "secret_" ++ appCode ++ "_" ++ toString (← get).wallClock
    reporting "创建应用失败: " (false, secret) do
      let _ ← executeUpdate (.insertApp appName appCode secret description)
      return (true, secret)

def updateApp (appCode : String) (appName description : Option String) (status : Option ℤ) :
    Dao c Bool :=
  withConnection false <| reporting "更新应用失败: " false do
    if appName.isNone && description.isNone && status.isNone then
      return true
    let rows ← executeUpdate (.updateApp appCode appName description status)
    return decide (0 < rows)

def deleteApp (appCode : String) : Dao c Bool :=
  withConnection false <| reporting "删除应用失败: " false do
    let rows ← executeUpdate (.deleteApp appCode)
    return decide (0 < rows)

def getApp (appCode : String) : Dao c (Option SysApp) :=
  withConnection none <| reporting "获取应用失败: " none do
    return (← executeQuery fun db => db.snapshot.selectApp appCode).head?

/-- Returns the page, and `out_total`. -/
def listApps (page pageSize : ℤ) (appName : Option String) (status : Option ℤ) :
    Dao c (List SysApp × ℕ) :=
  withConnection ([], 0) do
    match ← (executeQuery fun db => db.snapshot.selectApps appName status : Sql c _).run with
    | .error e =>
        setLastError ("获取应用列表失败: " ++ e)
        return ([], 0)
    | .ok counted =>
        let (apps, raised) ← fetchWith (fun db => db.snapshot.selectApps appName status)
          fun rows => limitOffset pageSize (pageOffset page pageSize)
            (orderByDesc (fun a => (a.id : ℤ)) rows)
        report "获取应用列表失败: " raised
        return (apps, counted.length)

/-- The app's row number; `none` when there is no such app, and equally when the
lookup fails. -/
def getAppId (appCode : String) : Dao c (Option ℕ) :=
  withConnection none <| catchSql (do
      return (← executeQuery fun db => db.snapshot.selectAppId appCode).head?)
    fun _ => return none

/-! ## Roles and permissions -/

def createRole (appCode roleName roleKey description : String) (isDefault : Bool) :
    Dao c Bool :=
  withConnection false <| reporting "创建角色失败: " false do
    let some appId ← (getAppId appCode : Dao c _) | refuse ("应用不存在: " ++ appCode)
    let _ ← executeUpdate (.insertRole appId roleName roleKey description isDefault)
    return true

def createPermission (appCode permName permKey description : String) : Dao c Bool :=
  withConnection false <| reporting "创建权限失败: " false do
    let some appId ← (getAppId appCode : Dao c _) | refuse ("应用不存在: " ++ appCode)
    let _ ← executeUpdate (.insertPermission appId permName permKey description)
    return true

def assignRoleToUser (appCode userId roleKey : String) : Dao c Bool :=
  withConnection false <| reporting "授权失败: " false do
    let roles ← executeQuery fun db => db.snapshot.selectRole appCode roleKey
    let some role := roles.head? | refuse "角色不存在"
    let _ ← executeUpdate (.insertUserRole role.appId userId role.id)
    return true

def removeRoleFromUser (appCode userId roleKey : String) : Dao c Bool :=
  withConnection false <| reporting "移除权限失败: " false do
    let rows ← executeUpdate (.deleteUserRole appCode userId roleKey)
    return decide (0 < rows)

def addPermissionToRole (appCode roleKey permKey : String) : Dao c Bool :=
  withConnection false <| reporting "添加角色权限失败: " false do
    let roles ← executeQuery fun db => db.snapshot.selectRole appCode roleKey
    let some role := roles.head? | refuse "角色不存在"
    let perms ← executeQuery fun db => db.snapshot.selectPermission appCode permKey
    let some perm := perms.head? | refuse "权限不存在"
    let _ ← executeUpdate (.insertRolePermission role.id perm.id)
    return true

def removePermissionFromRole (appCode roleKey permKey : String) : Dao c Bool :=
  withConnection false <| reporting "移除角色权限失败: " false do
    let rows ← executeUpdate (.deleteRolePermission appCode roleKey permKey)
    return decide (0 < rows)

/-- A failure is logged on standard error and leaves `last_error_` alone. -/
def createAuditLog (entry : AuditEntry) : Dao c Bool :=
  withConnection false <| catchSql (do
      let _ ← executeUpdate (.insertAuditLog entry)
      return true)
    fun _ => return false

def deleteRole (appCode roleKey : String) : Dao c Bool :=
  withConnection false <| reporting "删除角色失败: " false do
    let some appId ← (getAppId appCode : Dao c _) | refuse ("应用不存在: " ++ appCode)
    let rows ← executeUpdate (.deleteRole appId roleKey)
    if rows = 0 then refuse "角色不存在或已删除"
    else return true

def deletePermission (appCode permKey : String) : Dao c Bool :=
  withConnection false <| reporting "删除权限失败: " false do
    let some appId ← (getAppId appCode : Dao c _) | refuse ("应用不存在: " ++ appCode)
    let rows ← executeUpdate (.deletePermission appId permKey)
    if rows = 0 then refuse "权限不存在或已删除"
    else return true

/-- `PermissionDAO::RoleInfo`. -/
structure RoleInfo where
  id : ℕ
  roleName : String
  roleKey : String
  description : String
  isDefault : Bool
  permKeys : List String
  deriving DecidableEq, Repr

/-- The keys in a `GROUP_CONCAT` column; `NULL` reads as the empty string. -/
def splitKeys (column : Option String) : List String := getlines ',' (column.getD "")

def listRoles (appCode : String) : Dao c (List RoleInfo) :=
  withConnection [] do
    let some appId ← getAppId appCode | return []
    let (roles, raised) ← fetchWith (fun db => db.snapshot.selectRoles appId) fun rows =>
      .ok (groups (fun x y => x.1.1.id == y.1.1.id) rows)
    report "查询角色列表失败: " raised
    return roles.map fun (x, group) =>
      { id := x.1.1.id, roleName := x.1.1.roleName, roleKey := x.1.1.roleKey
        description := x.1.1.description, isDefault := x.1.1.isDefault
        permKeys := splitKeys (groupConcat (group.filterMap fun y => y.2.map SysPermission.permKey)) }

def listPermissions (appCode : String) : Dao c (List SysPermission) :=
  withConnection [] do
    let some appId ← getAppId appCode | return []
    let (perms, raised) ← fetchRows fun db => db.snapshot.selectPermissions appId
    report "查询权限列表失败: " raised
    return perms

def updateRole (appCode roleKey : String) (roleName description : Option String)
    (isDefault : Option Bool) : Dao c Bool :=
  withConnection false <| reporting "更新角色失败: " false do
    let some appId ← (getAppId appCode : Dao c _) | refuse ("应用不存在: " ++ appCode)
    -- The row count is not looked at: a role that does not exist is reported updated.
    let _ ← executeUpdate (.updateRole appId roleKey roleName description isDefault)
    return true

def updatePermission (appCode permKey : String) (permName description : Option String) :
    Dao c Bool :=
  withConnection false <| reporting "更新权限失败: " false do
    let some appId ← (getAppId appCode : Dao c _) | refuse ("应用不存在: " ++ appCode)
    let _ ← executeUpdate (.updatePermission appId permKey permName description)
    return true

/-! ## Console users -/

/-- `PermissionDAO::ConsoleUser`, with the defaults of its declaration. -/
structure ConsoleUser where
  id : ℤ := -1
  username : String := ""
  passwordHash : String := ""
  realName : String := ""
  deriving DecidableEq, Repr

def getConsoleUser (username : String) : Dao c ConsoleUser :=
  withConnection {} <| reporting "查询用户失败: " {} do
    match (← executeQuery fun db => db.selectConsoleUser username).head? with
    | some u => return ⟨u.id, u.username, u.passwordHash, u.realName⟩
    | none => return {}

def getConsoleUserHash (username : String) : Dao c String := do
  return (← getConsoleUser username).passwordHash

/-! ## Relations -/

def getRolePermissions (appCode roleKey : String) : Dao c (List String) :=
  withConnection [] do
    let some appId ← getAppId appCode | return []
    let (perms, raised) ← fetchRows fun db => db.snapshot.selectRolePermissions appId roleKey
    report "查询角色权限失败: " raised
    return perms.map fun x => x.2.permKey

def getRolesWithPermission (appCode permKey : String) : Dao c (List String) :=
  withConnection [] do
    let some appId ← getAppId appCode | return []
    let (roles, raised) ← fetchRows fun db => db.snapshot.selectRolesWithPermission appId permKey
    report "查询权限对应角色失败: " raised
    return roles.map fun x => x.1.1.roleKey

def appExists (appCode : String) : Dao c Bool := do
  return (← getAppId appCode).isSome

def permissionExists (appCode permKey : String) : Dao c Bool :=
  withConnection false <| catchSql (do
      let some appId ← (getAppId appCode : Dao c _) | return false
      let perms ← executeQuery fun db => db.snapshot.selectPermissionOf appId permKey
      return !perms.isEmpty)
    fun _ => return false

/-- Returns the page as user ids with the time of assignment, and `out_total`. -/
def getRoleUsers (appCode roleKey : String) (page pageSize : ℤ) :
    Dao c (List (String × DateTime) × ℕ) :=
  withConnection ([], 0) do
    let some appId ← getAppId appCode | return ([], 0)
    match ← (executeQuery fun db => db.snapshot.selectRoleUsers appId roleKey : Sql c _).run with
    | .error e =>
        setLastError ("查询角色用户失败: " ++ e)
        return ([], 0)
    | .ok counted =>
        let (users, raised) ← fetchWith (fun db => db.snapshot.selectRoleUsers appId roleKey)
          fun rows => limitOffset pageSize (pageOffset page pageSize)
            (orderByDesc (fun x => x.1.createdAt) rows)
        report "查询角色用户失败: " raised
        return (users.map fun x => (x.1.appUserId, x.1.createdAt), counted.length)

/-- `PermissionDAO::UserRoleData`. -/
structure UserRoleData where
  userId : String
  roleKeys : List String
  permKeys : List String
  createdAt : DateTime
  deriving DecidableEq, Repr

/-- `MIN(ur.created_at)` of a group, which has the row `x`. -/
def firstCreated (x : Snapshot.UserRoleJoin) (group : List Snapshot.UserRoleJoin) : DateTime :=
  group.foldl (fun t y => min t y.ur.createdAt) x.ur.createdAt

/-- Returns the page, and `out_total`. -/
def listUserRoles (appCode : String) (page pageSize : ℤ) (userId : Option String) :
    Dao c (List UserRoleData × ℕ) :=
  withConnection ([], 0) do
    let some appId ← getAppId appCode | return ([], 0)
    let userId := userId.filter (· ≠ "")
    match ← (executeQuery fun db => db.snapshot.selectUsers appId userId : Sql c _).run with
    | .error e =>
        setLastError ("查询用户角色列表失败: " ++ e)
        return ([], 0)
    | .ok users =>
        let (data, raised) ← fetchWith (fun db => db.snapshot.selectUserRoleData appId userId)
          fun rows => limitOffset pageSize (pageOffset page pageSize)
            (orderByDesc (fun x => firstCreated x.1 x.2)
              (groups (fun x y => c.same x.ur.appUserId y.ur.appUserId) rows))
        report "查询用户角色列表失败: " raised
        return (data.map fun (x, group) =>
          { userId := x.ur.appUserId
            roleKeys := splitKeys (groupConcat (distinct c.same (group.map fun y => y.role.roleKey)))
            permKeys := splitKeys (groupConcat (distinct c.same
              (group.filterMap fun y => y.perm.map SysPermission.permKey)))
            createdAt := firstCreated x group },
          (distinct c.same (users.map SysUserRole.appUserId)).length)

/-! ## Audit log -/

/-- Returns the page, and `out_total`. -/
def listAuditLogs (page pageSize : ℤ) (appCode action operatorId targetId : Option String)
    (startTime endTime : Option ℤ) : Dao c (List SysAuditLog × ℕ) :=
  withConnection ([], 0) do
    let filter : Db.AuditFilter :=
      { appCode := appCode.filter (· ≠ ""), action := action.filter (· ≠ "")
        operatorId := operatorId.filter (· ≠ ""), targetId := targetId.filter (· ≠ "")
        startTime, endTime }
    match ← (executeQuery fun db => db.selectAuditLogs filter : Sql c _).run with
    | .error e =>
        setLastError ("查询审计日志失败: " ++ e)
        return ([], 0)
    | .ok counted =>
        let (logs, raised) ← fetchWith (fun db => db.selectAuditLogs filter) fun rows =>
          limitOffset pageSize (pageOffset page pageSize)
            (orderByDesc (fun l => l.createdAt) rows)
        report "查询审计日志失败: " raised
        return (logs, counted.length)

end PermissionDAO
end SiqiAuth
