import SiqiAuth.Store.Schema

/-!
# The writing statements of `permission_dao.cpp`

`Statement` lists the `INSERT`, `UPDATE` and `DELETE` statements the program can
send, with their parameters, and `Statement.exec` is what MySQL does with one: it
refuses it with an exception and then changes nothing, or reports how many rows it
touched.  As MySQL does by default, an `UPDATE` reports the rows it changed rather
than the rows it matched, and text longer than its column is refused, unless only by
spaces at its end: these are cut off.

## Main definitions

* `SqlError` — the exceptions a well-formed statement can raise.
* `Statement` — the statements.
* `Statement.exec` — their execution.
-/

namespace SiqiAuth
open Lib

/-- What a `SQLException` of the server is about. -/
inductive SqlError
  | dataTooLong (column : String)
  | outOfRange (column : String)
  | duplicateEntry (entry key : String)
  deriving DecidableEq, Repr

/-- `SQLException::what()`. -/
def SqlError.what : SqlError → String
  | .dataTooLong column => "Data too long for column '" ++ column ++ "' at row 1"
  | .outOfRange column => "Out of range value for column '" ++ column ++ "' at row 1"
  | .duplicateEntry entry key => "Duplicate entry '" ++ entry ++ "' for key '" ++ key ++ "'"

/-- The first of the values that its `VARCHAR` column cannot hold. -/
def tooLong (values : List (String × ℕ × String)) : Option SqlError :=
  (values.find? fun v => decide (v.2.1 < (varchar v.2.1 v.2.2).length)).map fun v =>
    .dataTooLong v.1

/-- The values of an audit row. -/
structure AuditEntry where
  operatorId : ℤ
  operatorName : String
  appCode : String
  action : String
  targetType : String
  targetId : String
  targetName : String
  objectType : String
  objectId : String
  objectName : String
  deriving DecidableEq, Repr

/-- The writing statements, under the verb and the table of each. -/
inductive Statement
  | insertApp (appName appCode appSecret description : String)
  | updateApp (appCode : String) (appName description : Option String) (status : Option ℤ)
  | deleteApp (appCode : String)
  | insertRole (appId : ℕ) (roleName roleKey description : String) (isDefault : Bool)
  | updateRole (appId : ℕ) (roleKey : String) (roleName description : Option String)
      (isDefault : Option Bool)
  | deleteRole (appId : ℕ) (roleKey : String)
  | insertPermission (appId : ℕ) (permName permKey description : String)
  | updatePermission (appId : ℕ) (permKey : String) (permName description : Option String)
  | deletePermission (appId : ℕ) (permKey : String)
  | insertUserRole (appId : ℕ) (appUserId : String) (roleId : ℕ)
  | deleteUserRole (appCode appUserId roleKey : String)
  | insertRolePermission (roleId permId : ℕ)
  | deleteRolePermission (appCode roleKey permKey : String)
  | insertAuditLog (entry : AuditEntry)
  deriving DecidableEq, Repr

variable {c : Collation}

/-! ## Rows that a statement writes -/

/-- The row of an audit entry. -/
def AuditEntry.row (e : AuditEntry) (id : ℕ) (now : DateTime) : SysAuditLog :=
  ⟨id, e.operatorId, varchar 32 e.operatorName, varchar 32 e.appCode, varchar 32 e.action,
    varchar 16 e.targetType, varchar 128 e.targetId, varchar 64 e.targetName,
    varchar 16 e.objectType, varchar 128 e.objectId, varchar 64 e.objectName, now⟩

/-- `SET` of `updateApp`; `updated_at` moves only when another column does. -/
def SysApp.set (now : DateTime) (appName description : Option String) (status : Option ℤ)
    (a : SysApp) : SysApp :=
  let a' := { a with
    appName := (appName.map (varchar 50)).getD a.appName
    description := (description.map (varchar 255)).getD a.description
    status := status.getD a.status }
  if a' = a then a else { a' with updatedAt := now }

/-- `SET` of `updateRole`. -/
def SysRole.set (now : DateTime) (roleName description : Option String)
    (isDefault : Option Bool) (r : SysRole) : SysRole :=
  { r with
    roleName := (roleName.map (varchar 32)).getD r.roleName
    description := (description.map (varchar 255)).getD r.description
    isDefault := isDefault.getD r.isDefault
    updatedAt := now }

/-- `SET` of `updatePermission`. -/
def SysPermission.set (now : DateTime) (permName description : Option String)
    (p : SysPermission) : SysPermission :=
  { p with
    permName := (permName.map (varchar 64)).getD p.permName
    description := (description.map (varchar 255)).getD p.description
    updatedAt := now }

@[simp] theorem SysApp.id_set (now : DateTime) (n d : Option String) (st : Option ℤ) (a : SysApp) :
    (a.set now n d st).id = a.id := by
  simp only [SysApp.set]
  split <;> rfl

@[simp] theorem SysApp.appCode_set (now : DateTime) (n d : Option String) (st : Option ℤ)
    (a : SysApp) : (a.set now n d st).appCode = a.appCode := by
  simp only [SysApp.set]
  split <;> rfl

/-- An `UPDATE` of an app keeps its unique key. -/
theorem SysApp.clash_set (now : DateTime) (n d : Option String) (st : Option ℤ) (a b : SysApp) :
    (sysAppsSchema c).clash (a.set now n d st) b = (sysAppsSchema c).clash a b ∧
      (sysAppsSchema c).clash a (b.set now n d st) = (sysAppsSchema c).clash a b := by
  simp only [sysAppsSchema, appCode_set, and_self]

theorem SysRole.id_set (now : DateTime) (n d : Option String) (df : Option Bool) (r : SysRole) :
    (r.set now n d df).id = r.id := rfl

/-- An `UPDATE` of a role keeps its unique key. -/
theorem SysRole.clash_set (now : DateTime) (n d : Option String) (df : Option Bool)
    (r s : SysRole) :
    (sysRolesSchema c).clash (r.set now n d df) s = (sysRolesSchema c).clash r s ∧
      (sysRolesSchema c).clash r (s.set now n d df) = (sysRolesSchema c).clash r s :=
  ⟨rfl, rfl⟩

theorem SysPermission.id_set (now : DateTime) (n d : Option String) (p : SysPermission) :
    (p.set now n d).id = p.id := rfl

/-- An `UPDATE` of a permission keeps its unique key. -/
theorem SysPermission.clash_set (now : DateTime) (n d : Option String) (p q : SysPermission) :
    (sysPermissionsSchema c).clash (p.set now n d) q = (sysPermissionsSchema c).clash p q ∧
      (sysPermissionsSchema c).clash p (q.set now n d) = (sysPermissionsSchema c).clash p q :=
  ⟨rfl, rfl⟩

theorem SysApp.status_set (now : DateTime) (n d : Option String) (st : Option ℤ) (a : SysApp) :
    (a.set now n d st).status = st.getD a.status := by
  simp only [SysApp.set]
  split
  case isTrue h => exact (congrArg SysApp.status h).symm
  case isFalse => rfl

/-! ## Rows that a statement deletes -/

namespace Db
variable (db : Db c)

/-- Whether `DELETE ur … JOIN sys_apps a … JOIN sys_roles r … WHERE a.app_code = ? AND
ur.app_user_id = ? AND r.role_key = ?` takes an assignment. -/
def dropsUserRole (appCode appUserId roleKey : String) (ur : SysUserRole) : Bool :=
  (db.sysApps.rows.any fun a => ur.appId == a.id && c.same a.appCode appCode) &&
    c.same ur.appUserId appUserId &&
    db.sysRoles.rows.any fun r => ur.roleId == r.id && c.same r.roleKey roleKey

/-- Whether `DELETE rp … JOIN sys_roles r … JOIN sys_permissions p … JOIN sys_apps a ON
r.app_id = a.id WHERE a.app_code = ? AND r.role_key = ? AND p.perm_key = ?` takes a
binding. -/
def dropsRolePermission (appCode roleKey permKey : String) (rp : SysRolePermission) : Bool :=
  (db.sysRoles.rows.any fun r => rp.roleId == r.id && c.same r.roleKey roleKey &&
      db.sysApps.rows.any fun a => r.appId == a.id && c.same a.appCode appCode) &&
    db.sysPermissions.rows.any fun p => rp.permId == p.id && c.same p.permKey permKey

end Db

/-! ## Execution -/

/-- The report of an `INSERT` of one row. -/
def inserted {α : Type} {S : Schema α} (refusal : SqlError) (put : Table S → Db c) :
    Option (Table S) → Except SqlError (ℕ × Db c)
  | some t => .ok (1, put t)
  | none => .error refusal

theorem inserted_eq_ok {α : Type} {S : Schema α} {refusal : SqlError} {put : Table S → Db c}
    {t : Option (Table S)} {n : ℕ} {db' : Db c} (h : inserted refusal put t = .ok (n, db')) :
    ∃ t', t = some t' ∧ db' = put t' := by
  cases t with
  | some t' => cases h; exact ⟨t', rfl, rfl⟩
  | none => cases h

namespace Statement

/-- The values that a statement stores, with the widths of their columns. -/
def values : Statement → List (String × ℕ × String)
  | .insertApp appName appCode appSecret description =>
      [("app_name", 50, appName), ("app_code", 32, appCode), ("app_secret", 64, appSecret),
        ("description", 255, description)]
  | .updateApp _ appName description _ =>
      [("app_name", 50, appName.getD ""), ("description", 255, description.getD "")]
  | .insertRole _ roleName roleKey description _ =>
      [("role_name", 32, roleName), ("role_key", 32, roleKey), ("description", 255, description)]
  | .updateRole _ _ roleName description _ =>
      [("role_name", 32, roleName.getD ""), ("description", 255, description.getD "")]
  | .insertPermission _ permName permKey description =>
      [("perm_name", 64, permName), ("perm_key", 64, permKey), ("description", 255, description)]
  | .updatePermission _ _ permName description =>
      [("perm_name", 64, permName.getD ""), ("description", 255, description.getD "")]
  | .insertUserRole _ appUserId _ => [("app_user_id", 128, appUserId)]
  | .insertAuditLog e =>
      [("operator_name", 32, e.operatorName), ("app_code", 32, e.appCode), ("action", 32, e.action),
        ("target_type", 16, e.targetType), ("target_id", 128, e.targetId),
        ("target_name", 64, e.targetName), ("object_type", 16, e.objectType),
        ("object_id", 128, e.objectId), ("object_name", 64, e.objectName)]
  | _ => []

/-- The refusal of a statement for a value its column cannot hold.  `status` is a
`TINYINT`, and the last column of its `SET`. -/
def overflow (w : Statement) : Option SqlError :=
  match w with
  | .updateApp _ _ _ (some status) =>
      (tooLong w.values).or
        (if status < -128 ∨ 127 < status then some (.outOfRange "status") else none)
  | _ => tooLong w.values

/-- Whether a statement would store anything: an `UPDATE` that matches no row stores
nothing and is refused for no value. -/
def stores (w : Statement) (db : Db c) : Bool :=
  match w with
  | .updateApp appCode _ _ _ => db.sysApps.rows.any fun a => c.same a.appCode appCode
  | .updateRole appId roleKey _ _ _ =>
      db.sysRoles.rows.any fun r => r.appId == appId && c.same r.roleKey roleKey
  | .updatePermission appId permKey _ _ =>
      db.sysPermissions.rows.any fun p => p.appId == appId && c.same p.permKey permKey
  | _ => true

/-- The statement's effect, once its values fit their columns. -/
def write (now : DateTime) (db : Db c) : Statement → Except SqlError (ℕ × Db c)
  | .insertApp appName appCode appSecret description =>
      inserted (.duplicateEntry (varchar 32 appCode) "sys_apps.app_code")
        (fun t => { db with sysApps := t })
        (db.sysApps.insert
          (fun id => ⟨id, varchar 50 appName, varchar 32 appCode, varchar 64 appSecret,
            varchar 255 description, 1, now, now⟩) fun _ => rfl)
  | .updateApp appCode appName description status =>
      .ok ((db.sysApps.rows.filter fun a => c.same a.appCode appCode &&
          decide (a.set now appName description status ≠ a)).length,
        { db with
          sysApps := db.sysApps.update (fun a => c.same a.appCode appCode)
            (SysApp.set now appName description status) (SysApp.id_set _ _ _ _)
            (SysApp.clash_set _ _ _ _) })
  | .deleteApp appCode =>
      .ok ((db.sysApps.rows.filter fun a => c.same a.appCode appCode).length,
        { db with sysApps := db.sysApps.delete fun a => c.same a.appCode appCode })
  | .insertRole appId roleName roleKey description isDefault =>
      inserted (.duplicateEntry (toString appId ++ "-" ++ varchar 32 roleKey)
          "sys_roles.uk_app_role")
        (fun t => { db with sysRoles := t })
        (db.sysRoles.insert
          (fun id => ⟨id, appId, varchar 32 roleName, varchar 32 roleKey, varchar 255 description,
            isDefault, now⟩) fun _ => rfl)
  | .updateRole appId roleKey roleName description isDefault =>
      .ok ((db.sysRoles.rows.filter fun r => r.appId == appId && c.same r.roleKey roleKey &&
          decide (r.set now roleName description isDefault ≠ r)).length,
        { db with
          sysRoles := db.sysRoles.update
            (fun r => r.appId == appId && c.same r.roleKey roleKey)
            (SysRole.set now roleName description isDefault)
            (SysRole.id_set now roleName description isDefault)
            (SysRole.clash_set now roleName description isDefault) })
  | .deleteRole appId roleKey =>
      .ok ((db.sysRoles.rows.filter fun r => r.appId == appId && c.same r.roleKey roleKey).length,
        { db with
          sysRoles := db.sysRoles.delete fun r => r.appId == appId && c.same r.roleKey roleKey })
  | .insertPermission appId permName permKey description =>
      inserted (.duplicateEntry (toString appId ++ "-" ++ varchar 64 permKey)
          "sys_permissions.uk_app_perm")
        (fun t => { db with sysPermissions := t })
        (db.sysPermissions.insert
          (fun id => ⟨id, appId, varchar 64 permName, varchar 64 permKey, varchar 255 description,
            now⟩) fun _ => rfl)
  | .updatePermission appId permKey permName description =>
      .ok ((db.sysPermissions.rows.filter fun p => p.appId == appId && c.same p.permKey permKey &&
          decide (p.set now permName description ≠ p)).length,
        { db with
          sysPermissions := db.sysPermissions.update
            (fun p => p.appId == appId && c.same p.permKey permKey)
            (SysPermission.set now permName description)
            (SysPermission.id_set now permName description)
            (SysPermission.clash_set now permName description) })
  | .deletePermission appId permKey =>
      .ok ((db.sysPermissions.rows.filter fun p =>
          p.appId == appId && c.same p.permKey permKey).length,
        { db with
          sysPermissions := db.sysPermissions.delete fun p =>
            p.appId == appId && c.same p.permKey permKey })
  | .insertUserRole appId appUserId roleId =>
      inserted (.duplicateEntry
          (toString appId ++ "-" ++ varchar 128 appUserId ++ "-" ++ toString roleId)
          "sys_user_roles.uk_app_user_role")
        (fun t => { db with sysUserRoles := t })
        (db.sysUserRoles.insert (fun id => ⟨id, appId, varchar 128 appUserId, roleId, now⟩)
          fun _ => rfl)
  | .deleteUserRole appCode appUserId roleKey =>
      .ok ((db.sysUserRoles.rows.filter (db.dropsUserRole appCode appUserId roleKey)).length,
        { db with
          sysUserRoles := db.sysUserRoles.delete (db.dropsUserRole appCode appUserId roleKey) })
  | .insertRolePermission roleId permId =>
      inserted (.duplicateEntry (toString roleId ++ "-" ++ toString permId)
          "sys_role_permissions.uk_role_perm")
        (fun t => { db with sysRolePermissions := t })
        (db.sysRolePermissions.insert (fun id => ⟨id, roleId, permId⟩) fun _ => rfl)
  | .deleteRolePermission appCode roleKey permKey =>
      .ok ((db.sysRolePermissions.rows.filter
          (db.dropsRolePermission appCode roleKey permKey)).length,
        { db with
          sysRolePermissions :=
            db.sysRolePermissions.delete (db.dropsRolePermission appCode roleKey permKey) })
  | .insertAuditLog e =>
      inserted (.duplicateEntry "" "PRIMARY") (fun t => { db with sysAuditLogs := t })
        (db.sysAuditLogs.insert
          (fun id => e.row id now) fun _ => rfl)

/-- `executeUpdate`: a refusal leaves the tables alone, and a report counts rows. -/
def exec (now : DateTime) (w : Statement) (db : Db c) : Except SqlError (ℕ × Db c) :=
  match w.overflow with
  | some refusal => if w.stores db then .error refusal else w.write now db
  | none => w.write now db

/-- What a statement that was not refused has done. -/
theorem write_of_exec {now : DateTime} {w : Statement} {db db' : Db c} {n : ℕ}
    (h : w.exec now db = .ok (n, db')) : w.write now db = .ok (n, db') := by
  simp only [exec] at h
  split at h
  case h_1 =>
    split at h
    · cases h
    · exact h
  case h_2 => exact h

end Statement
end SiqiAuth
