import SiqiAuth.Store.Operation

/-!
# What an operation does to the tables

`DaoOp.Effect` says once, operation by operation, how the tables after an operation
relate to the tables before it; invariants of the store are proved by cases on it
and never look into the statements again.  Text widths, row counts and failures of
the environment have disappeared here: any of them may turn an operation into one
that does nothing.

## Main definitions

* `DaoOp.Effect` — the possible effects of each operation.
* `DaoOp.run_effect` — an execution, in whatever environment, has one of them.
* `DaoCall`, `DaoState.call` — an operation executed in an environment of its own,
  the step that runs of the store are made of.
-/

namespace SiqiAuth
open Lib

variable {c : Collation}

/-! ## Tables changed by a statement -/

namespace Db
variable (db : Db c)

/-- The tables after an `UPDATE` of an app. -/
def setApp (now : DateTime) (appCode : String) (n d : Option String) (st : Option ℤ) : Db c :=
  { db with
    sysApps := db.sysApps.update (fun a => c.same a.appCode appCode) (SysApp.set now n d st)
      (SysApp.id_set _ _ _ _) (SysApp.clash_set _ _ _ _) }

def dropApp (appCode : String) : Db c :=
  { db with sysApps := db.sysApps.delete fun a => c.same a.appCode appCode }

def setRole (now : DateTime) (appId : ℕ) (k : String) (n d : Option String) (df : Option Bool) :
    Db c :=
  { db with
    sysRoles := db.sysRoles.update (fun r => r.appId == appId && c.same r.roleKey k)
      (SysRole.set now n d df) (SysRole.id_set now n d df) (SysRole.clash_set now n d df) }

def dropRole (appId : ℕ) (k : String) : Db c :=
  { db with sysRoles := db.sysRoles.delete fun r => r.appId == appId && c.same r.roleKey k }

def setPermission (now : DateTime) (appId : ℕ) (k : String) (n d : Option String) : Db c :=
  { db with
    sysPermissions := db.sysPermissions.update (fun p => p.appId == appId && c.same p.permKey k)
      (SysPermission.set now n d) (SysPermission.id_set now n d)
      (SysPermission.clash_set now n d) }

def dropPermission (appId : ℕ) (k : String) : Db c :=
  { db with
    sysPermissions := db.sysPermissions.delete fun p => p.appId == appId && c.same p.permKey k }

def dropUserRole (appCode u k : String) : Db c :=
  { db with sysUserRoles := db.sysUserRoles.delete (db.dropsUserRole appCode u k) }

def dropRolePermission (appCode k p : String) : Db c :=
  { db with
    sysRolePermissions := db.sysRolePermissions.delete (db.dropsRolePermission appCode k p) }

variable {db} {now : DateTime} {appId : ℕ} {a k : String} {n d : Option String}

theorem mem_setApp {st : Option ℤ} {x' : SysApp} :
    x' ∈ (db.setApp now a n d st).sysApps ↔
      ∃ x ∈ db.sysApps, (if c.same x.appCode a then x.set now n d st else x) = x' :=
  List.mem_map

theorem mem_setRole {df : Option Bool} {r' : SysRole} :
    r' ∈ (db.setRole now appId k n d df).sysRoles ↔ ∃ r ∈ db.sysRoles,
      (if r.appId == appId && c.same r.roleKey k then r.set now n d df else r) = r' :=
  List.mem_map

theorem mem_setPermission {p' : SysPermission} :
    p' ∈ (db.setPermission now appId k n d).sysPermissions ↔ ∃ p ∈ db.sysPermissions,
      (if p.appId == appId && c.same p.permKey k then p.set now n d else p) = p' :=
  List.mem_map

/-- An updated app keeps its number and its code. -/
theorem exists_of_mem_setApp {st : Option ℤ} {x' : SysApp}
    (h : x' ∈ (db.setApp now a n d st).sysApps) :
    ∃ x ∈ db.sysApps, x.id = x'.id ∧ x.appCode = x'.appCode := by
  obtain ⟨x, hx, rfl⟩ := mem_setApp.mp h
  refine ⟨x, hx, ?_⟩
  split
  · exact ⟨(SysApp.id_set _ _ _ _ _).symm, (SysApp.appCode_set _ _ _ _ _).symm⟩
  · exact ⟨rfl, rfl⟩

/-- An updated role keeps its number, its app and its key. -/
theorem exists_of_mem_setRole {df : Option Bool} {r' : SysRole}
    (h : r' ∈ (db.setRole now appId k n d df).sysRoles) :
    ∃ r ∈ db.sysRoles, r.id = r'.id ∧ r.appId = r'.appId ∧ r.roleKey = r'.roleKey := by
  obtain ⟨r, hr, rfl⟩ := mem_setRole.mp h
  refine ⟨r, hr, ?_⟩
  split <;> exact ⟨rfl, rfl, rfl⟩

/-- An updated permission keeps its number, its app and its key. -/
theorem exists_of_mem_setPermission {p' : SysPermission}
    (h : p' ∈ (db.setPermission now appId k n d).sysPermissions) :
    ∃ p ∈ db.sysPermissions, p.id = p'.id ∧ p.appId = p'.appId ∧ p.permKey = p'.permKey := by
  obtain ⟨p, hp, rfl⟩ := mem_setPermission.mp h
  refine ⟨p, hp, ?_⟩
  split <;> exact ⟨rfl, rfl, rfl⟩

end Db

namespace DaoOp

/-! ## Effects -/

/-- The effects of an operation: the operation, what it returns, the tables after it. -/
inductive Effect (db : Db c) : DaoOp → Bool → Db c → Prop
  | nothing {op : DaoOp} {r : Bool} (hr : r = true → op.idle = true) : Effect db op r db
  | createApp {n a d : String} (secret : String) (now : DateTime) {t : Table (sysAppsSchema c)}
      (ht : db.sysApps.insert (fun id => ⟨id, varchar 50 n, varchar 32 a, varchar 64 secret,
        varchar 255 d, 1, now, now⟩) (fun _ => rfl) = some t) :
      Effect db (createApp n a d) true { db with sysApps := t }
  | updateApp {a : String} {n d : Option String} {st : Option ℤ} (r : Bool) (now : DateTime) :
      Effect db (updateApp a n d st) r (db.setApp now a n d st)
  | deleteApp {a : String} (r : Bool) : Effect db (deleteApp a) r (db.dropApp a)
  | createRole {a n k d : String} {df : Bool} {app : SysApp} (now : DateTime)
      {t : Table (sysRolesSchema c)} (happ : app ∈ db.sysApps)
      (hcode : c.same app.appCode a = true)
      (ht : db.sysRoles.insert (fun id => ⟨id, app.id, varchar 32 n, varchar 32 k, varchar 255 d,
        df, now⟩) (fun _ => rfl) = some t) :
      Effect db (createRole a n k d df) true { db with sysRoles := t }
  | updateRole {a k : String} {n d : Option String} {df : Option Bool} {app : SysApp}
      (now : DateTime) (happ : app ∈ db.sysApps) (hcode : c.same app.appCode a = true) :
      Effect db (updateRole a k n d df) true (db.setRole now app.id k n d df)
  | deleteRole {a k : String} {app : SysApp} (r : Bool) (happ : app ∈ db.sysApps)
      (hcode : c.same app.appCode a = true) :
      Effect db (deleteRole a k) r (db.dropRole app.id k)
  | createPermission {a n k d : String} {app : SysApp} (now : DateTime)
      {t : Table (sysPermissionsSchema c)} (happ : app ∈ db.sysApps)
      (hcode : c.same app.appCode a = true)
      (ht : db.sysPermissions.insert (fun id => ⟨id, app.id, varchar 64 n, varchar 64 k,
        varchar 255 d, now⟩) (fun _ => rfl) = some t) :
      Effect db (createPermission a n k d) true { db with sysPermissions := t }
  | updatePermission {a k : String} {n d : Option String} {app : SysApp} (now : DateTime)
      (happ : app ∈ db.sysApps) (hcode : c.same app.appCode a = true) :
      Effect db (updatePermission a k n d) true (db.setPermission now app.id k n d)
  | deletePermission {a k : String} {app : SysApp} (r : Bool) (happ : app ∈ db.sysApps)
      (hcode : c.same app.appCode a = true) :
      Effect db (deletePermission a k) r (db.dropPermission app.id k)
  | assignRoleToUser {a u k : String} {app : SysApp} {role : SysRole} (now : DateTime)
      {t : Table (sysUserRolesSchema c)} (happ : app ∈ db.sysApps)
      (hcode : c.same app.appCode a = true) (hrole : role ∈ db.sysRoles)
      (hkey : c.same role.roleKey k = true) (hid : role.appId = app.id)
      (ht : db.sysUserRoles.insert (fun id => ⟨id, role.appId, varchar 128 u, role.id, now⟩)
        (fun _ => rfl) = some t) :
      Effect db (assignRoleToUser a u k) true { db with sysUserRoles := t }
  | removeRoleFromUser {a u k : String} (r : Bool) :
      Effect db (removeRoleFromUser a u k) r (db.dropUserRole a u k)
  | addPermissionToRole {a k p : String} {app : SysApp} {role : SysRole} {perm : SysPermission}
      {t : Table sysRolePermissionsSchema} (happ : app ∈ db.sysApps)
      (hcode : c.same app.appCode a = true) (hrole : role ∈ db.sysRoles)
      (hkey : c.same role.roleKey k = true) (hid : role.appId = app.id)
      (hperm : perm ∈ db.sysPermissions) (hkey' : c.same perm.permKey p = true)
      (hid' : perm.appId = app.id)
      (ht : db.sysRolePermissions.insert (fun id => ⟨id, role.id, perm.id⟩) (fun _ => rfl) =
        some t) :
      Effect db (addPermissionToRole a k p) true { db with sysRolePermissions := t }
  | removePermissionFromRole {a k p : String} (r : Bool) :
      Effect db (removePermissionFromRole a k p) r (db.dropRolePermission a k p)

/-- No operation writes to the console users. -/
theorem Effect.sysConsoleUsers_eq {db db' : Db c} {op : DaoOp} {r : Bool}
    (h : Effect db op r db') : db'.sysConsoleUsers = db.sysConsoleUsers := by
  cases h <;> rfl

/-- Nor to the audit log. -/
theorem Effect.sysAuditLogs_eq {db db' : Db c} {op : DaoOp} {r : Bool}
    (h : Effect db op r db') : db'.sysAuditLogs = db.sysAuditLogs := by
  cases h <;> rfl

/-- Either an operation has no effect, or it has sent its statement. -/
theorem apply_cases (op : DaoOp) (t : ℤ) (db : Db c) :
    (∃ r, (r = true → op.idle = true) ∧ op.apply t db = (r, db)) ∨
      ∃ w rows db', op.plan t db = some w ∧ w.write (dateTime t) db = .ok (rows, db') ∧
        op.apply t db = (op.verdict rows, db') := by
  simp only [apply]
  split
  case isTrue hi => exact Or.inl ⟨true, fun _ => hi, rfl⟩
  case isFalse hi =>
    cases hp : op.plan t db with
    | none => exact Or.inl ⟨false, fun h => (Bool.false_ne_true h).elim, rfl⟩
    | some w =>
        cases hw : w.exec (dateTime t) db with
        | error e => exact Or.inl ⟨false, fun h => (Bool.false_ne_true h).elim, by simp [hw]⟩
        | ok x =>
            refine Or.inr ⟨w, x.1, x.2, rfl, Statement.write_of_exec hw, ?_⟩
            simp [hw]

theorem exists_app_of_head? {db : Db c} {a : String} {n : ℕ}
    (h : (db.snapshot.selectAppId a).head? = some n) :
    ∃ app ∈ db.sysApps, c.same app.appCode a = true ∧ app.id = n :=
  (Snapshot.mem_selectAppId _).mp (List.mem_of_head? h)

theorem effect_of_write {op : DaoOp} {t : ℤ} {db db' : Db c} {w : Statement} {rows : ℕ}
    (hp : op.plan t db = some w) (hw : w.write (dateTime t) db = .ok (rows, db')) :
    Effect db op (op.verdict rows) db' := by
  cases op with
  | createApp n a d =>
      cases hp
      obtain ⟨t', ht, rfl⟩ := inserted_eq_ok hw
      exact .createApp _ _ ht
  | updateApp a n d st =>
      cases hp
      cases hw
      exact .updateApp _ _
  | deleteApp a =>
      cases hp
      cases hw
      exact .deleteApp _
  | createRole a n k d df =>
      obtain ⟨appId, hhead, rfl⟩ := Option.map_eq_some_iff.mp hp
      obtain ⟨app, happ, hcode, rfl⟩ := exists_app_of_head? hhead
      obtain ⟨t', ht, rfl⟩ := inserted_eq_ok hw
      exact .createRole _ happ hcode ht
  | updateRole a k n d df =>
      obtain ⟨appId, hhead, rfl⟩ := Option.map_eq_some_iff.mp hp
      obtain ⟨app, happ, hcode, rfl⟩ := exists_app_of_head? hhead
      cases hw
      exact .updateRole _ happ hcode
  | deleteRole a k =>
      obtain ⟨appId, hhead, rfl⟩ := Option.map_eq_some_iff.mp hp
      obtain ⟨app, happ, hcode, rfl⟩ := exists_app_of_head? hhead
      cases hw
      exact .deleteRole _ happ hcode
  | createPermission a n k d =>
      obtain ⟨appId, hhead, rfl⟩ := Option.map_eq_some_iff.mp hp
      obtain ⟨app, happ, hcode, rfl⟩ := exists_app_of_head? hhead
      obtain ⟨t', ht, rfl⟩ := inserted_eq_ok hw
      exact .createPermission _ happ hcode ht
  | updatePermission a k n d =>
      obtain ⟨appId, hhead, rfl⟩ := Option.map_eq_some_iff.mp hp
      obtain ⟨app, happ, hcode, rfl⟩ := exists_app_of_head? hhead
      cases hw
      exact .updatePermission _ happ hcode
  | deletePermission a k =>
      obtain ⟨appId, hhead, rfl⟩ := Option.map_eq_some_iff.mp hp
      obtain ⟨app, happ, hcode, rfl⟩ := exists_app_of_head? hhead
      cases hw
      exact .deletePermission _ happ hcode
  | assignRoleToUser a u k =>
      obtain ⟨role, hhead, rfl⟩ := Option.map_eq_some_iff.mp hp
      obtain ⟨hrole, hkey, app, happ, hid, hcode⟩ :=
        (Snapshot.mem_selectRole _).mp (List.mem_of_head? hhead)
      obtain ⟨t', ht, rfl⟩ := inserted_eq_ok hw
      exact .assignRoleToUser _ happ hcode hrole hkey hid ht
  | removeRoleFromUser a u k =>
      cases hp
      cases hw
      exact .removeRoleFromUser _
  | addPermissionToRole a k p =>
      obtain ⟨role, hhead, hp⟩ := Option.bind_eq_some_iff.mp hp
      obtain ⟨perm, hhead', rfl⟩ := Option.map_eq_some_iff.mp hp
      obtain ⟨hrole, hkey, app, happ, hid, hcode⟩ :=
        (Snapshot.mem_selectRole _).mp (List.mem_of_head? hhead)
      obtain ⟨hperm, hkey', app', happ', hid', hcode'⟩ :=
        (Snapshot.mem_selectPermission _).mp (List.mem_of_head? hhead')
      obtain rfl : app = app' := db.app_unique happ happ' hcode hcode'
      obtain ⟨t', ht, rfl⟩ := inserted_eq_ok hw
      exact .addPermissionToRole happ hcode hrole hkey hid hperm hkey' hid' ht
  | removePermissionFromRole a k p =>
      cases hp
      cases hw
      exact .removePermissionFromRole _

theorem apply_effect (op : DaoOp) (t : ℤ) (db : Db c) :
    Effect db op (op.apply t db).1 (op.apply t db).2 := by
  obtain ⟨r, hr, h⟩ | ⟨w, rows, db', hp, hw, h⟩ := apply_cases op t db
  · rw [h]
    exact .nothing hr
  · rw [h]
    exact effect_of_write hp hw

/-- What reports failure has changed nothing. -/
theorem apply_of_false {op : DaoOp} {t : ℤ} {db : Db c} (h : (op.apply t db).1 = false) :
    (op.apply t db).2 = db := by
  obtain ⟨r, -, happly⟩ | ⟨w, rows, db', hp, hw, happly⟩ := apply_cases op t db
  · rw [happly]
  · rw [happly] at h ⊢
    cases op with
    | createApp | createRole | updateRole | createPermission | updatePermission
    | assignRoleToUser | addPermissionToRole => cases h
    | updateApp a n d st =>
        cases hp
        cases hw
        have hrows := Nat.eq_zero_of_not_pos (of_decide_eq_false h)
        exact congrArg (fun t => { db with sysApps := t }) (Table.update_eq_self hrows)
    | deleteApp a =>
        cases hp
        cases hw
        have hrows := Nat.eq_zero_of_not_pos (of_decide_eq_false h)
        simp only [Table.delete_eq_self hrows]
    | deleteRole a k =>
        obtain ⟨appId, -, rfl⟩ := Option.map_eq_some_iff.mp hp
        cases hw
        have hrows := Nat.eq_zero_of_not_pos (of_decide_eq_false h)
        simp only [Table.delete_eq_self hrows]
    | deletePermission a k =>
        obtain ⟨appId, -, rfl⟩ := Option.map_eq_some_iff.mp hp
        cases hw
        have hrows := Nat.eq_zero_of_not_pos (of_decide_eq_false h)
        simp only [Table.delete_eq_self hrows]
    | removeRoleFromUser a u k =>
        cases hp
        cases hw
        have hrows := Nat.eq_zero_of_not_pos (of_decide_eq_false h)
        simp only [Table.delete_eq_self hrows]
    | removePermissionFromRole a k p =>
        cases hp
        cases hw
        have hrows := Nat.eq_zero_of_not_pos (of_decide_eq_false h)
        simp only [Table.delete_eq_self hrows]

/-- An execution that returns false has changed nothing, whatever the environment
does. -/
theorem run_of_false {op : DaoOp} {σ τ : DaoState c} (h : op.run.run σ = (false, τ)) :
    τ.db = σ.db := by
  have heffect := (run_performs op σ).effect
  rw [h] at heffect
  obtain happly | ⟨-, -, hdb⟩ := heffect
  · have hfalse := congrArg Prod.fst happly
    have hdb := congrArg Prod.snd happly
    exact hdb.trans (apply_of_false hfalse.symm)
  · exact hdb

/-- **An execution has one of the effects of its operation**, whatever the
environment does. -/
theorem run_effect (op : DaoOp) (σ : DaoState c) :
    Effect σ.db op (op.run.run σ).1 (op.run.run σ).2.db := by
  obtain h | ⟨-, hr, hdb⟩ := (run_performs op σ).effect
  · have heffect := apply_effect op σ.wallClock σ.db
    rw [← h] at heffect
    exact heffect
  · rw [hr, hdb]
    exact .nothing fun h => (Bool.false_ne_true h).elim

end DaoOp

/-! ## Runs -/

/-- An operation, with what the environment does during it and the time it is called
at. -/
structure DaoCall where
  op : DaoOp
  outcomes : List Outcome
  wallClock : ℤ

namespace DaoState

/-- The same tables before an environment of its own. -/
def facing (σ : DaoState c) (outcomes : List Outcome) (wallClock : ℤ) : DaoState c :=
  { σ with outcomes := outcomes, wallClock := wallClock }

@[simp] theorem db_facing (σ : DaoState c) (outcomes : List Outcome) (wallClock : ℤ) :
    (σ.facing outcomes wallClock).db = σ.db := rfl

/-- What a call returns. -/
def returns (σ : DaoState c) (x : DaoCall) : Bool :=
  (x.op.run.run (σ.facing x.outcomes x.wallClock)).1

/-- The state after a call. -/
def call (σ : DaoState c) (x : DaoCall) : DaoState c :=
  (x.op.run.run (σ.facing x.outcomes x.wallClock)).2

theorem call_effect (σ : DaoState c) (x : DaoCall) :
    DaoOp.Effect σ.db x.op (σ.returns x) (σ.call x).db :=
  DaoOp.run_effect x.op (σ.facing x.outcomes x.wallClock)

end DaoState
end SiqiAuth
