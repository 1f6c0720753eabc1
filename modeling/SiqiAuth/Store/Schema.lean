import SiqiAuth.Lib.Table
import SiqiAuth.Lib.Text

/-!
# The tables of `scripts/init.sql`

One row type for each table, the unique keys of its `CREATE TABLE`, and the
database that holds them.  The script declares no foreign key, so nothing here
relates one table to another: what a `role_id` or an `app_id` refers to is the
business of the code.

Columns that no function of the program reads or writes by name (`created_at` of
roles and permissions, `updated_at` of assignments) are left out.  A `DATETIME` is
its number of seconds; how MySQL prints it is left out as well.

## Main definitions

* `SysApp`, `SysPermission`, `SysRole`, `SysRolePermission`, `SysUserRole`,
  `SysAuditLog`, `SysConsoleUser` — the rows.
* `Db c` — the seven tables, under the collation `c` of their character columns.
* `Snapshot c` — the rows of the five tables that authorization reads.
-/

namespace SiqiAuth
open Lib

/-- A `DATETIME`, in seconds. -/
abbrev DateTime := ℤ

/-- `sys_apps`. -/
structure SysApp where
  id : ℕ
  appName : String
  appCode : String
  appSecret : String
  description : String
  /-- 1 enabled, 0 disabled. -/
  status : ℤ
  createdAt : DateTime
  updatedAt : DateTime
  deriving DecidableEq, Repr

/-- `sys_permissions`. -/
structure SysPermission where
  id : ℕ
  appId : ℕ
  permName : String
  permKey : String
  description : String
  updatedAt : DateTime
  deriving DecidableEq, Repr

/-- `sys_roles`. -/
structure SysRole where
  id : ℕ
  appId : ℕ
  roleName : String
  roleKey : String
  description : String
  isDefault : Bool
  updatedAt : DateTime
  deriving DecidableEq, Repr

/-- `sys_role_permissions`. -/
structure SysRolePermission where
  id : ℕ
  roleId : ℕ
  permId : ℕ
  deriving DecidableEq, Repr

/-- `sys_user_roles`. -/
structure SysUserRole where
  id : ℕ
  appId : ℕ
  appUserId : String
  roleId : ℕ
  createdAt : DateTime
  deriving DecidableEq, Repr

/-- `sys_audit_logs`. -/
structure SysAuditLog where
  id : ℕ
  operatorId : ℤ
  operatorName : String
  appCode : String
  action : String
  targetType : String
  targetId : String
  targetName : String
  objectType : String
  objectId : String
  objectName : String
  createdAt : DateTime
  deriving DecidableEq, Repr

/-- `sys_console_users`. -/
structure SysConsoleUser where
  id : ℕ
  username : String
  passwordHash : String
  realName : String
  /-- `VARCHAR(32)`, as wide as the column of the audit log that repeats it. -/
  realName_le : realName.length ≤ 32 := by decide
  deriving DecidableEq, Repr

/-! ## Unique keys -/

section Schemas
variable (c : Collation)

/-- `app_code` is unique. -/
def sysAppsSchema : Schema SysApp where
  id := SysApp.id
  clash r s := c.same r.appCode s.appCode
  clash_symm _ _ := c.same_symm _ _

/-- `uk_app_perm (app_id, perm_key)`. -/
def sysPermissionsSchema : Schema SysPermission where
  id := SysPermission.id
  clash r s := r.appId == s.appId && c.same r.permKey s.permKey
  clash_symm r s := by rw [c.same_symm, Bool.beq_comm]

/-- `uk_app_role (app_id, role_key)`. -/
def sysRolesSchema : Schema SysRole where
  id := SysRole.id
  clash r s := r.appId == s.appId && c.same r.roleKey s.roleKey
  clash_symm r s := by rw [c.same_symm, Bool.beq_comm]

/-- `uk_role_perm (role_id, perm_id)`. -/
def sysRolePermissionsSchema : Schema SysRolePermission where
  id := SysRolePermission.id
  clash r s := r.roleId == s.roleId && r.permId == s.permId
  clash_symm r s := by rw [Bool.beq_comm (a := r.roleId), Bool.beq_comm (a := r.permId)]

/-- `uk_app_user_role (app_id, app_user_id, role_id)`. -/
def sysUserRolesSchema : Schema SysUserRole where
  id := SysUserRole.id
  clash r s := r.appId == s.appId && c.same r.appUserId s.appUserId && r.roleId == s.roleId
  clash_symm r s := by
    rw [c.same_symm, Bool.beq_comm (a := r.appId), Bool.beq_comm (a := r.roleId)]

/-- The audit log has no unique key beyond its row number. -/
def sysAuditLogsSchema : Schema SysAuditLog where
  id := SysAuditLog.id
  clash _ _ := false
  clash_symm _ _ := rfl

/-- `username` is unique. -/
def sysConsoleUsersSchema : Schema SysConsoleUser where
  id := SysConsoleUser.id
  clash r s := c.same r.username s.username
  clash_symm _ _ := c.same_symm _ _

end Schemas

/-! ## The database -/

/-- The database, its character columns compared under `c`. -/
structure Db (c : Collation) where
  sysApps : Table (sysAppsSchema c)
  sysConsoleUsers : Table (sysConsoleUsersSchema c)
  sysPermissions : Table (sysPermissionsSchema c)
  sysRoles : Table (sysRolesSchema c)
  sysRolePermissions : Table sysRolePermissionsSchema
  sysUserRoles : Table (sysUserRolesSchema c)
  sysAuditLogs : Table sysAuditLogsSchema

/-- The rows of the tables that decide what a user may do. -/
structure Snapshot (c : Collation) where
  apps : List SysApp
  permissions : List SysPermission
  roles : List SysRole
  rolePermissions : List SysRolePermission
  userRoles : List SysUserRole
  deriving DecidableEq

namespace Db
variable {c : Collation}

/-- The tables as `CREATE TABLE` leaves them. -/
def empty : Db c := ⟨.empty, .empty, .empty, .empty, .empty, .empty, .empty⟩

/-- What a single `SELECT` over the authorization tables sees. -/
def snapshot (db : Db c) : Snapshot c where
  apps := db.sysApps.rows
  permissions := db.sysPermissions.rows
  roles := db.sysRoles.rows
  rolePermissions := db.sysRolePermissions.rows
  userRoles := db.sysUserRoles.rows

@[simp] theorem snapshot_apps (db : Db c) : db.snapshot.apps = db.sysApps.rows := rfl
@[simp] theorem snapshot_permissions (db : Db c) :
    db.snapshot.permissions = db.sysPermissions.rows := rfl
@[simp] theorem snapshot_roles (db : Db c) : db.snapshot.roles = db.sysRoles.rows := rfl
@[simp] theorem snapshot_rolePermissions (db : Db c) :
    db.snapshot.rolePermissions = db.sysRolePermissions.rows := rfl
@[simp] theorem snapshot_userRoles (db : Db c) :
    db.snapshot.userRoles = db.sysUserRoles.rows := rfl

end Db
end SiqiAuth
