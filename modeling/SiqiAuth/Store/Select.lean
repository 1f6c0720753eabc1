import SiqiAuth.Lib.Query
import SiqiAuth.Store.Schema

/-!
# The `SELECT` statements of `permission_dao.cpp`

Each definition is the row set of one statement: its `FROM … JOIN … ON` as joins,
its `WHERE` as a filter.  In what order the rows are delivered, and how a statement
groups, sorts and pages them, is applied to the row set where it is executed.

## Main definitions

* `Snapshot.grants` — the join that `checkPermission` and `getUserPermissions` share.
* `Snapshot.selectCheckPermission`, `Snapshot.selectUserPermissions`,
  `Snapshot.selectUserRoles` — the statements that decide.
* `Snapshot.selectRole`, `Snapshot.selectPermission`, `Snapshot.selectAppId` — the
  lookups that precede a write.
-/

namespace SiqiAuth
open Lib

/-- A row of the decision join: an assignment, its app, a binding of its role, and
the permission bound. -/
structure Grant where
  ur : SysUserRole
  app : SysApp
  rp : SysRolePermission
  perm : SysPermission

namespace Snapshot
variable {c : Collation} (s : Snapshot c)

/-! ## Deciding -/

/-- `FROM sys_user_roles ur JOIN sys_apps a ON ur.app_id = a.id
JOIN sys_role_permissions rp ON ur.role_id = rp.role_id
JOIN sys_permissions p ON rp.perm_id = p.id`. -/
def grants : List Grant :=
  (join (join (join s.userRoles s.apps fun ur a => ur.appId == a.id)
      s.rolePermissions fun x rp => x.1.roleId == rp.roleId)
    s.permissions fun x p => x.2.permId == p.id).map fun x => ⟨x.1.1.1, x.1.1.2, x.1.2, x.2⟩

theorem mem_grants {g : Grant} :
    g ∈ s.grants ↔ g.ur ∈ s.userRoles ∧ g.app ∈ s.apps ∧ g.rp ∈ s.rolePermissions ∧
      g.perm ∈ s.permissions ∧ g.ur.appId = g.app.id ∧ g.ur.roleId = g.rp.roleId ∧
        g.rp.permId = g.perm.id := by
  simp only [grants, List.mem_map, mem_join, beq_iff_eq]
  constructor
  · rintro ⟨⟨⟨⟨ur, a⟩, rp⟩, p⟩, ⟨⟨⟨hur, ha, happ⟩, hrp, hrole⟩, hp, hperm⟩, rfl⟩
    exact ⟨hur, ha, hrp, hp, happ, hrole, hperm⟩
  · rintro ⟨hur, ha, hrp, hp, happ, hrole, hperm⟩
    exact ⟨(((g.ur, g.app), g.rp), g.perm), ⟨⟨⟨hur, ha, happ⟩, hrp, hrole⟩, hp, hperm⟩, rfl⟩

/-- The rows that `checkPermission` counts. -/
def selectCheckPermission (appCode userId permKey : String) : List Grant :=
  s.grants.filter fun g => c.same g.app.appCode appCode && c.same g.ur.appUserId userId &&
    c.same g.perm.permKey permKey && g.app.status == 1

/-- The rows that `getUserPermissions` reads keys and names from.  Unlike
`selectCheckPermission` it does not ask for the app's status. -/
def selectUserPermissions (appCode userId : String) : List Grant :=
  s.grants.filter fun g => c.same g.app.appCode appCode && c.same g.ur.appUserId userId

theorem mem_selectCheckPermission {a u p : String} {g : Grant} :
    g ∈ s.selectCheckPermission a u p ↔ g ∈ s.grants ∧ c.same g.app.appCode a = true ∧
      c.same g.ur.appUserId u = true ∧ c.same g.perm.permKey p = true ∧ g.app.status = 1 := by
  simp [selectCheckPermission, and_assoc]

theorem mem_selectUserPermissions {a u : String} {g : Grant} :
    g ∈ s.selectUserPermissions a u ↔ g ∈ s.grants ∧ c.same g.app.appCode a = true ∧
      c.same g.ur.appUserId u = true := by
  simp [selectUserPermissions]

/-- The rows that `getUserRoles` reads role keys from. -/
def selectUserRoles (appCode userId : String) : List ((SysUserRole × SysApp) × SysRole) :=
  (join (join s.userRoles s.apps fun ur a => ur.appId == a.id)
    s.roles fun x r => x.1.roleId == r.id).filter fun x =>
      c.same x.1.2.appCode appCode && c.same x.1.1.appUserId userId && x.1.2.status == 1

/-! ## Looking up -/

/-- `SELECT … FROM sys_apps WHERE app_code = ?`. -/
def selectApp (appCode : String) : List SysApp :=
  s.apps.filter fun a => c.same a.appCode appCode

/-- `SELECT id FROM sys_apps WHERE app_code = ?`. -/
def selectAppId (appCode : String) : List ℕ := (s.selectApp appCode).map SysApp.id

/-- `SELECT r.id, r.app_id FROM sys_roles r JOIN sys_apps a ON r.app_id = a.id
WHERE a.app_code = ? AND r.role_key = ?`. -/
def selectRole (appCode roleKey : String) : List SysRole :=
  ((join s.roles s.apps fun r a => r.appId == a.id).filter fun x =>
    c.same x.2.appCode appCode && c.same x.1.roleKey roleKey).map Prod.fst

/-- `SELECT p.id FROM sys_permissions p JOIN sys_apps a ON p.app_id = a.id
WHERE a.app_code = ? AND p.perm_key = ?`. -/
def selectPermission (appCode permKey : String) : List SysPermission :=
  ((join s.permissions s.apps fun p a => p.appId == a.id).filter fun x =>
    c.same x.2.appCode appCode && c.same x.1.permKey permKey).map Prod.fst

/-- `SELECT id FROM sys_permissions WHERE app_id = ? AND perm_key = ?`. -/
def selectPermissionOf (appId : ℕ) (permKey : String) : List SysPermission :=
  s.permissions.filter fun p => p.appId == appId && c.same p.permKey permKey

theorem mem_selectApp {appCode : String} {a : SysApp} :
    a ∈ s.selectApp appCode ↔ a ∈ s.apps ∧ c.same a.appCode appCode = true := by
  simp [selectApp]

theorem mem_selectAppId {appCode : String} {n : ℕ} :
    n ∈ s.selectAppId appCode ↔ ∃ a ∈ s.apps, c.same a.appCode appCode = true ∧ a.id = n := by
  simp [selectAppId, mem_selectApp, and_assoc]

theorem mem_selectRole {appCode roleKey : String} {r : SysRole} :
    r ∈ s.selectRole appCode roleKey ↔
      r ∈ s.roles ∧ c.same r.roleKey roleKey = true ∧
        ∃ a ∈ s.apps, r.appId = a.id ∧ c.same a.appCode appCode = true := by
  simp only [selectRole, List.mem_map, List.mem_filter, mem_join, Prod.exists, Bool.and_eq_true,
    beq_iff_eq]
  constructor
  · rintro ⟨r, a, ⟨⟨hr, ha, hid⟩, hcode, hkey⟩, rfl⟩
    exact ⟨hr, hkey, a, ha, hid, hcode⟩
  · rintro ⟨hr, hkey, a, ha, hid, hcode⟩
    exact ⟨r, a, ⟨⟨hr, ha, hid⟩, hcode, hkey⟩, rfl⟩

theorem mem_selectPermission {appCode permKey : String} {p : SysPermission} :
    p ∈ s.selectPermission appCode permKey ↔
      p ∈ s.permissions ∧ c.same p.permKey permKey = true ∧
        ∃ a ∈ s.apps, p.appId = a.id ∧ c.same a.appCode appCode = true := by
  simp only [selectPermission, List.mem_map, List.mem_filter, mem_join, Prod.exists,
    Bool.and_eq_true, beq_iff_eq]
  constructor
  · rintro ⟨p, a, ⟨⟨hp, ha, hid⟩, hcode, hkey⟩, rfl⟩
    exact ⟨hp, hkey, a, ha, hid, hcode⟩
  · rintro ⟨hp, hkey, a, ha, hid, hcode⟩
    exact ⟨p, a, ⟨⟨hp, ha, hid⟩, hcode, hkey⟩, rfl⟩

/-! ## Roles and permissions -/

/-- The rows that `getRolePermissions` reads permission keys from. -/
def selectRolePermissions (appId : ℕ) (roleKey : String) :
    List ((SysRolePermission × SysRole) × SysPermission) :=
  (join (join s.rolePermissions s.roles fun rp r => rp.roleId == r.id)
    s.permissions fun x p => x.1.permId == p.id).filter fun x =>
      x.1.2.appId == appId && c.same x.1.2.roleKey roleKey

/-- The rows that `getRolesWithPermission` reads role keys from. -/
def selectRolesWithPermission (appId : ℕ) (permKey : String) :
    List ((SysRole × SysRolePermission) × SysPermission) :=
  (join (join s.roles s.rolePermissions fun r rp => r.id == rp.roleId)
    s.permissions fun x p => x.2.permId == p.id).filter fun x =>
      x.1.1.appId == appId && c.same x.2.permKey permKey

/-- The rows that `listRoles` groups by role. -/
def selectRoles (appId : ℕ) : List ((SysRole × Option SysRolePermission) × Option SysPermission) :=
  (leftJoin (leftJoin s.roles s.rolePermissions fun r rp => r.id == rp.roleId)
    s.permissions fun x p => x.2.any fun rp => rp.permId == p.id).filter fun x =>
      x.1.1.appId == appId

/-- `… FROM sys_permissions WHERE app_id = ?`. -/
def selectPermissions (appId : ℕ) : List SysPermission :=
  s.permissions.filter fun p => p.appId == appId

/-! ## Users -/

/-- The rows that `getRoleUsers` counts and pages. -/
def selectRoleUsers (appId : ℕ) (roleKey : String) : List (SysUserRole × SysRole) :=
  (join s.userRoles s.roles fun ur r => ur.roleId == r.id).filter fun x =>
    x.2.appId == appId && c.same x.2.roleKey roleKey

/-- The rows among which `listUserRoles` counts the distinct users. -/
def selectUsers (appId : ℕ) (userId : Option String) : List SysUserRole :=
  s.userRoles.filter fun ur => ur.appId == appId && userId.all fun u => c.same ur.appUserId u

/-- A row that `listUserRoles` groups by user. -/
structure UserRoleJoin where
  ur : SysUserRole
  role : SysRole
  perm : Option SysPermission

/-- The rows that `listUserRoles` groups by user and pages. -/
def selectUserRoleData (appId : ℕ) (userId : Option String) : List UserRoleJoin :=
  ((leftJoin (leftJoin (join s.userRoles s.roles fun ur r => ur.roleId == r.id)
        s.rolePermissions fun x rp => x.2.id == rp.roleId)
      s.permissions fun x p => x.2.any fun rp => rp.permId == p.id).map fun x =>
        ⟨x.1.1.1, x.1.1.2, x.2⟩).filter fun x =>
    x.ur.appId == appId && userId.all fun u => c.same x.ur.appUserId u

/-! ## Apps -/

/-- The rows that `listApps` counts and pages. -/
def selectApps (appName : Option String) (status : Option ℤ) : List SysApp :=
  s.apps.filter fun a =>
    (appName.all fun n => like c.sameChar ("%" ++ n ++ "%").toList a.appName.toList) &&
      status.all fun st => a.status == st

end Snapshot

namespace Db
variable {c : Collation} (db : Db c)

/-! ## What the unique keys make unique -/

/-- An app code names one app. -/
theorem app_unique {appCode : String} {a b : SysApp} (ha : a ∈ db.sysApps) (hb : b ∈ db.sysApps)
    (hca : c.same a.appCode appCode = true) (hcb : c.same b.appCode appCode = true) : a = b :=
  Table.eq_of_clash ha hb (c.same_trans _ _ _ hca (c.same_comm hcb))

theorem selectAppId_unique (appCode : String) :
    ∀ m ∈ db.snapshot.selectAppId appCode, ∀ n ∈ db.snapshot.selectAppId appCode, m = n := by
  intro m hm n hn
  obtain ⟨a, ha, hca, rfl⟩ := (Snapshot.mem_selectAppId _).mp hm
  obtain ⟨b, hb, hcb, rfl⟩ := (Snapshot.mem_selectAppId _).mp hn
  rw [db.app_unique ha hb hca hcb]

theorem selectRole_unique (appCode roleKey : String) :
    ∀ r ∈ db.snapshot.selectRole appCode roleKey,
      ∀ r' ∈ db.snapshot.selectRole appCode roleKey, r = r' := by
  intro r hr r' hr'
  obtain ⟨hr, hkr, a, ha, hid, hca⟩ := (Snapshot.mem_selectRole _).mp hr
  obtain ⟨hr', hkr', b, hb, hid', hcb⟩ := (Snapshot.mem_selectRole _).mp hr'
  have hab : a = b := db.app_unique ha hb hca hcb
  have happ : r.appId = r'.appId := by rw [hid, hid', hab]
  have hkey : c.same r.roleKey r'.roleKey = true := c.same_trans _ _ _ hkr (c.same_comm hkr')
  exact Table.eq_of_clash hr hr' (by simp [sysRolesSchema, happ, hkey])

theorem selectPermission_unique (appCode permKey : String) :
    ∀ p ∈ db.snapshot.selectPermission appCode permKey,
      ∀ p' ∈ db.snapshot.selectPermission appCode permKey, p = p' := by
  intro p hp p' hp'
  obtain ⟨hp, hkp, a, ha, hid, hca⟩ := (Snapshot.mem_selectPermission _).mp hp
  obtain ⟨hp', hkp', b, hb, hid', hcb⟩ := (Snapshot.mem_selectPermission _).mp hp'
  have hab : a = b := db.app_unique ha hb hca hcb
  have happ : p.appId = p'.appId := by rw [hid, hid', hab]
  have hkey : c.same p.permKey p'.permKey = true := c.same_trans _ _ _ hkp (c.same_comm hkp')
  exact Table.eq_of_clash hp hp' (by simp [sysPermissionsSchema, happ, hkey])

/-! ## What a lookup finds -/

theorem head?_selectAppId {appCode : String} {app : SysApp} (happ : app ∈ db.sysApps)
    (hcode : c.same app.appCode appCode = true) :
    (db.snapshot.selectAppId appCode).head? = some app.id :=
  head?_of_mem ((Snapshot.mem_selectAppId _).mpr ⟨app, happ, hcode, rfl⟩)
    (db.selectAppId_unique appCode)

theorem head?_selectRole {appCode roleKey : String} {app : SysApp} {role : SysRole}
    (happ : app ∈ db.sysApps) (hcode : c.same app.appCode appCode = true)
    (hrole : role ∈ db.sysRoles) (hid : role.appId = app.id)
    (hkey : c.same role.roleKey roleKey = true) :
    (db.snapshot.selectRole appCode roleKey).head? = some role :=
  head?_of_mem ((Snapshot.mem_selectRole _).mpr ⟨hrole, hkey, app, happ, hid, hcode⟩)
    (db.selectRole_unique appCode roleKey)

theorem head?_selectPermission {appCode permKey : String} {app : SysApp} {perm : SysPermission}
    (happ : app ∈ db.sysApps) (hcode : c.same app.appCode appCode = true)
    (hperm : perm ∈ db.sysPermissions) (hid : perm.appId = app.id)
    (hkey : c.same perm.permKey permKey = true) :
    (db.snapshot.selectPermission appCode permKey).head? = some perm :=
  head?_of_mem ((Snapshot.mem_selectPermission _).mpr ⟨hperm, hkey, app, happ, hid, hcode⟩)
    (db.selectPermission_unique appCode permKey)

/-! ## Console users and the audit log -/

/-- `… FROM sys_console_users WHERE username = ?`. -/
def selectConsoleUser (username : String) : List SysConsoleUser :=
  db.sysConsoleUsers.rows.filter fun u => c.same u.username username

theorem selectConsoleUser_unique (username : String) :
    ∀ u ∈ db.selectConsoleUser username, ∀ v ∈ db.selectConsoleUser username, u = v := by
  intro u hu v hv
  obtain ⟨hu, hcu⟩ := List.mem_filter.mp hu
  obtain ⟨hv, hcv⟩ := List.mem_filter.mp hv
  exact Table.eq_of_clash hu hv (c.same_trans _ _ _ hcu (c.same_comm hcv))

/-- `FROM_UNIXTIME`, `NULL` outside the range it supports. -/
def fromUnixtime (t : ℤ) : Option DateTime :=
  if 0 ≤ t ∧ t ≤ 32536771199 then some t else none

/-- The filters of `listAuditLogs`. -/
structure AuditFilter where
  appCode : Option String
  action : Option String
  operatorId : Option String
  targetId : Option String
  startTime : Option ℤ
  endTime : Option ℤ

/-- The rows that `listAuditLogs` counts and pages. -/
def selectAuditLogs (f : AuditFilter) : List SysAuditLog :=
  db.sysAuditLogs.rows.filter fun l =>
    (f.appCode.all fun v => c.same l.appCode v) && (f.action.all fun v => c.same l.action v) &&
      (f.operatorId.all fun v => c.sameNumber l.operatorId v) &&
      (f.targetId.all fun v => c.same l.targetId v) &&
      (f.startTime.all fun v => (fromUnixtime v).any fun t => decide (t ≤ l.createdAt)) &&
      f.endTime.all fun v => (fromUnixtime v).any fun t => decide (l.createdAt ≤ t)

end Db
end SiqiAuth
