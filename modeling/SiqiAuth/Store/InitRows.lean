import SiqiAuth.Store.InitSql

/-!
# The initial tables, row by row

`Db.initial` runs `scripts/init.sql`: it checks every length, looks up every app code
and compares every new row with those before it.  Here the rows that this leaves are
written out, the references among them as row numbers.  Runs from the initial tables are
evaluated on these.

## Main definitions

* `InitSql.Holds` — tables that hold these rows.
* `InitSql.Loads` — the collations under which the script leaves them.
* `Db.seeded`, `Db.initial_eq_seeded` — the initial tables, row by row.
-/

namespace SiqiAuth
open Lib

variable {c : Collation}

namespace InitSql

def consoleUserRows : List SysConsoleUser := [administrator 1]

def appRows : List SysApp :=
  (apps.zipIdx 1).map fun ((n, a, secret, d), id) => ⟨id, n, a, secret, d, 1, 0, 0⟩

/-- The second list gives the apps. -/
def permissionRows : List SysPermission :=
  ((permissions.zip [1, 1, 1, 1, 2, 2, 2, 2, 3, 3]).zipIdx 1).filterMap fun
    | ((.createPermission _ n k d, appId), id) => some ⟨id, appId, n, k, d, 0⟩
    | _ => none

def roleRows : List SysRole :=
  ((roles.zip [1, 1, 1, 1, 2, 2, 2, 3, 3, 3]).zipIdx 1).filterMap fun
    | ((.createRole _ n k d isDefault, appId), id) => some ⟨id, appId, n, k, d, isDefault, 0⟩
    | _ => none

def rolePermissionRows : List SysRolePermission :=
  ([(1, 1), (1, 2), (1, 3), (1, 4), (2, 1), (2, 2), (2, 3), (3, 2), (3, 3), (5, 5), (5, 6), (5, 7),
    (5, 8), (6, 5), (6, 6), (6, 7), (7, 5), (8, 9), (8, 10), (9, 10)].zipIdx 1).map
      fun ((roleId, permId), id) => ⟨id, roleId, permId⟩

/-- The app and the role of each assignment: two administrators of `qq_bot`, three owners,
and so on. -/
def assigned : List (ℕ × ℕ) :=
  .replicate 2 (1, 1) ++ .replicate 3 (1, 2) ++ .replicate 5 (1, 3) ++ .replicate 10 (1, 4) ++
    .replicate 2 (2, 5) ++ .replicate 3 (2, 6) ++ .replicate 7 (2, 7) ++
    .replicate 2 (3, 8) ++ .replicate 2 (3, 9) ++ .replicate 4 (3, 10)

def userRoleRows : List SysUserRole :=
  ((userRoles.zip assigned).zipIdx 1).filterMap fun
    | ((.assignRoleToUser _ u _, appId, roleId), id) => some ⟨id, appId, u, roleId, 0⟩
    | _ => none

def auditLogRows : List SysAuditLog :=
  (auditLogs.zipIdx 1).map fun (e, id) =>
    ⟨id, e.operatorId, e.operatorName, e.appCode, e.action, e.targetType, e.targetId, e.targetName,
      e.objectType, e.objectId, e.objectName, 0⟩

/-- Tables that hold these rows, and number the next ones after them. -/
def Holds (db : Db c) : Prop :=
  (db.sysApps.rows = appRows ∧ db.sysApps.next = 4) ∧
    (db.sysConsoleUsers.rows = consoleUserRows ∧ db.sysConsoleUsers.next = 2) ∧
    (db.sysPermissions.rows = permissionRows ∧ db.sysPermissions.next = 11) ∧
    (db.sysRoles.rows = roleRows ∧ db.sysRoles.next = 11) ∧
    (db.sysRolePermissions.rows = rolePermissionRows ∧ db.sysRolePermissions.next = 21) ∧
    (db.sysUserRoles.rows = userRoleRows ∧ db.sysUserRoles.next = 41) ∧
    (db.sysAuditLogs.rows = auditLogRows ∧ db.sysAuditLogs.next = 4)

instance (db : Db c) : Decidable (Holds db) := inferInstanceAs (Decidable (_ ∧ _))

variable {db : Db c}

def Holds.written (h : Holds db) : Db c where
  sysApps := db.sysApps.written appRows 4 h.1
  sysConsoleUsers := db.sysConsoleUsers.written consoleUserRows 2 h.2.1
  sysPermissions := db.sysPermissions.written permissionRows 11 h.2.2.1
  sysRoles := db.sysRoles.written roleRows 11 h.2.2.2.1
  sysRolePermissions := db.sysRolePermissions.written rolePermissionRows 21 h.2.2.2.2.1
  sysUserRoles := db.sysUserRoles.written userRoleRows 41 h.2.2.2.2.2.1
  sysAuditLogs := db.sysAuditLogs.written auditLogRows 4 h.2.2.2.2.2.2

theorem Holds.eq_written (h : Holds db) : db = h.written := by
  simp only [written, ← Table.eq_written]

/-- A collation under which the script leaves these rows. -/
class Loads (c : Collation) : Prop where
  holds : Holds (Db.initial 0 : Db c)

instance : Loads .binary := ⟨by decide +kernel⟩

instance : Loads .caseInsensitive := ⟨by decide +kernel⟩

end InitSql

variable [InitSql.Loads c]

/-- The initial tables, row by row. -/
def Db.seeded : Db c := (InitSql.Loads.holds (c := c)).written

theorem Db.initial_eq_seeded : (initial 0 : Db c) = seeded :=
  InitSql.Holds.eq_written _

theorem DaoState.start_eq_seeded : (DaoState.start 0 : DaoState c) = ⟨Db.seeded, "", [], 0⟩ := by
  rw [DaoState.start, Db.initial_eq_seeded]

end SiqiAuth
