import SiqiAuth.Store.Effect

/-!
# When an operation writes

Whether an operation changes a row, and whether it reports success, are two questions.
For most operations they have one answer.  `updateRole` and `updatePermission` report
success whatever the row count, and `updateApp` when it is given nothing to update.

## Main definitions

* `Statement.Changes` — the statement changes a row, if its values fit.
* `DaoOp.Writes` — the operation changes a row.
* `DaoOp.Vacuous` — the operation reports success and changes nothing.
* `DaoOp.apply_of_writes`, `DaoOp.apply_of_vacuous`, `DaoOp.apply_of_neither` — what an
  operation does in each case.
-/

namespace SiqiAuth
open Lib

variable {c : Collation}

/-! ## Statements -/

/-- The statement changes a row, if its values fit: the unique keys admit the new row, an
`UPDATE` sets a column of some row to something else, or there is a row to delete. -/
def Statement.Changes (now : DateTime) (db : Db c) : Statement → Prop
  | .insertApp _ a _ _ => ∀ app ∈ db.sysApps, c.same app.appCode (varchar 32 a) = false
  | .updateApp a n d st =>
      ∃ app ∈ db.sysApps, c.same app.appCode a = true ∧ app.set now n d st ≠ app
  | .deleteApp a => ∃ app ∈ db.sysApps, c.same app.appCode a = true
  | .insertRole appId _ k _ _ =>
      ∀ role ∈ db.sysRoles, role.appId = appId → c.same role.roleKey (varchar 32 k) = false
  | .updateRole appId k n d df => ∃ role ∈ db.sysRoles, role.appId = appId ∧
      c.same role.roleKey k = true ∧ role.set now n d df ≠ role
  | .deleteRole appId k =>
      ∃ role ∈ db.sysRoles, role.appId = appId ∧ c.same role.roleKey k = true
  | .insertPermission appId _ k _ =>
      ∀ perm ∈ db.sysPermissions, perm.appId = appId → c.same perm.permKey (varchar 64 k) = false
  | .updatePermission appId k n d => ∃ perm ∈ db.sysPermissions, perm.appId = appId ∧
      c.same perm.permKey k = true ∧ perm.set now n d ≠ perm
  | .deletePermission appId k =>
      ∃ perm ∈ db.sysPermissions, perm.appId = appId ∧ c.same perm.permKey k = true
  | .insertUserRole appId u roleId => ∀ ur ∈ db.sysUserRoles, ur.appId = appId →
      c.same ur.appUserId (varchar 128 u) = true → ur.roleId ≠ roleId
  | .deleteUserRole a u k => ∃ ur ∈ db.sysUserRoles, db.dropsUserRole a u k ur = true
  | .insertRolePermission roleId permId =>
      ∀ rp ∈ db.sysRolePermissions, rp.roleId = roleId → rp.permId ≠ permId
  | .deleteRolePermission a k p =>
      ∃ rp ∈ db.sysRolePermissions, db.dropsRolePermission a k p rp = true
  | .insertAuditLog _ => True

instance (now : DateTime) (db : Db c) (w : Statement) : Decidable (w.Changes now db) := by
  induction w using Statement.casesOn <;> dsimp only [Statement.Changes] <;> infer_instance

namespace Statement
variable {now : DateTime} {db : Db c} {w : Statement}

/-- Whether a statement adds a row, and is refused when it cannot. -/
def inserts : Statement → Bool
  | insertApp .. | insertRole .. | insertPermission .. | insertUserRole .. | insertRolePermission ..
  | insertAuditLog .. => true
  | _ => false

/-- The values of a statement fit their columns, or are not stored. -/
def Admitted (db : Db c) (w : Statement) : Prop := w.overflow = none ∨ w.stores db = false

instance (db : Db c) (w : Statement) : Decidable (w.Admitted db) :=
  inferInstanceAs (Decidable (_ ∨ _))

theorem exec_of_admitted (h : w.Admitted db) : w.exec now db = w.write now db := by
  rcases h with h | h
  · simp [exec, h]
  · cases hover : w.overflow <;> simp [exec, hover, h]

theorem exec_of_not_admitted (now : DateTime) (h : ¬ w.Admitted db) :
    ∃ e, w.exec now db = .error e := by
  cases hover : w.overflow with
  | none => exact absurd (Or.inl hover) h
  | some refusal =>
      have hstores : w.stores db = true := by
        by_contra hnot
        exact h (Or.inr (by simpa using hnot))
      exact ⟨refusal, by simp [exec, hover, hstores]⟩

theorem length_filter_pos {α : Type} {S : Schema α} {t : Table S} {p : α → Bool} {r : α} (hr : r ∈ t)
    (hp : p r = true) : 0 < (t.rows.filter p).length :=
  List.length_pos_of_mem (List.mem_filter.mpr ⟨hr, hp⟩)

section Insert
variable {α : Type} {S : Schema α} {t : Table S} {mk : ℕ → α} {hmk : ∀ n, S.id (mk n) = n}
  {refusal : SqlError} {put : Table S → Db c}

/-- A row that clashes with none is inserted. -/
theorem inserted_of_fresh (rowsOf : Snapshot c → List α)
    (hput : ∀ t', rowsOf (put t').snapshot = t'.rows) (hdb : rowsOf db.snapshot = t.rows)
    (h : ∀ r ∈ t, S.clash r (mk t.next) = false) :
    ∃ rows db', inserted refusal put (t.insert mk hmk) = .ok (rows, db') ∧ 0 < rows ∧
      db'.snapshot ≠ db.snapshot := by
  obtain ⟨t', ht⟩ := Table.exists_insert t mk hmk h
  refine ⟨1, put t', by rw [ht, inserted], Nat.one_pos, fun heq => ?_⟩
  have hrows := congrArg rowsOf heq
  rw [hput, hdb] at hrows
  exact Table.rows_insert_ne ht hrows

/-- A row that clashes with one is refused. -/
theorem inserted_of_clash (h : ¬ ∀ r ∈ t, S.clash r (mk t.next) = false) :
    ∃ e, inserted refusal put (t.insert mk hmk) = .error e := by
  cases ht : t.insert mk hmk with
  | none => exact ⟨refusal, rfl⟩
  | some t' => exact absurd (Table.insert_eq_some ht).2.2 h

end Insert

/-- A statement that changes a row reports a row. -/
theorem write_of_changes (hw : ∀ e, w ≠ .insertAuditLog e) (h : w.Changes now db) :
    ∃ rows db', w.write now db = .ok (rows, db') ∧ 0 < rows ∧ db'.snapshot ≠ db.snapshot := by
  cases w with
  | insertApp n a s d =>
      exact inserted_of_fresh Snapshot.apps (fun _ => rfl) rfl h
  | updateApp a n d st =>
      obtain ⟨app, happ, hcode, hset⟩ := h
      refine ⟨_, _, rfl, length_filter_pos happ (by simp [hcode, hset]), fun heq => ?_⟩
      exact Table.rows_update_ne (SysApp.id_set now n d st) happ hcode hset
        (congrArg Snapshot.apps heq)
  | deleteApp a =>
      obtain ⟨app, happ, hcode⟩ := h
      refine ⟨_, _, rfl, length_filter_pos happ hcode, fun heq => ?_⟩
      exact Table.rows_delete_ne happ hcode (congrArg Snapshot.apps heq)
  | insertRole appId n k d df =>
      refine inserted_of_fresh Snapshot.roles (fun _ => rfl) rfl fun role hrole => ?_
      simpa [sysRolesSchema] using h role hrole
  | updateRole appId k n d df =>
      obtain ⟨role, hrole, hid, hkey, hset⟩ := h
      refine ⟨_, _, rfl, length_filter_pos hrole (by simp [hid, hkey, hset]), fun heq => ?_⟩
      exact Table.rows_update_ne (f := SysRole.set now n d df) (fun _ => rfl) hrole
        (by simp [hid, hkey]) hset (congrArg Snapshot.roles heq)
  | deleteRole appId k =>
      obtain ⟨role, hrole, hid, hkey⟩ := h
      refine ⟨_, _, rfl, length_filter_pos hrole (by simp [hid, hkey]), fun heq => ?_⟩
      exact Table.rows_delete_ne hrole (by simp [hid, hkey]) (congrArg Snapshot.roles heq)
  | insertPermission appId n k d =>
      refine inserted_of_fresh Snapshot.permissions (fun _ => rfl) rfl fun perm hperm => ?_
      simpa [sysPermissionsSchema] using h perm hperm
  | updatePermission appId k n d =>
      obtain ⟨perm, hperm, hid, hkey, hset⟩ := h
      refine ⟨_, _, rfl, length_filter_pos hperm (by simp [hid, hkey, hset]), fun heq => ?_⟩
      exact Table.rows_update_ne (f := SysPermission.set now n d) (fun _ => rfl) hperm
        (by simp [hid, hkey]) hset (congrArg Snapshot.permissions heq)
  | deletePermission appId k =>
      obtain ⟨perm, hperm, hid, hkey⟩ := h
      refine ⟨_, _, rfl, length_filter_pos hperm (by simp [hid, hkey]), fun heq => ?_⟩
      exact Table.rows_delete_ne hperm (by simp [hid, hkey]) (congrArg Snapshot.permissions heq)
  | insertUserRole appId u roleId =>
      refine inserted_of_fresh Snapshot.userRoles (fun _ => rfl) rfl fun ur hur => ?_
      simpa [sysUserRolesSchema] using h ur hur
  | deleteUserRole a u k =>
      obtain ⟨ur, hur, hdrops⟩ := h
      refine ⟨_, _, rfl, length_filter_pos hur hdrops, fun heq => ?_⟩
      exact Table.rows_delete_ne hur hdrops (congrArg Snapshot.userRoles heq)
  | insertRolePermission roleId permId =>
      refine inserted_of_fresh Snapshot.rolePermissions (fun _ => rfl) rfl fun rp hrp => ?_
      simpa [sysRolePermissionsSchema] using h rp hrp
  | deleteRolePermission a k p =>
      obtain ⟨rp, hrp, hdrops⟩ := h
      refine ⟨_, _, rfl, length_filter_pos hrp hdrops, fun heq => ?_⟩
      exact Table.rows_delete_ne hrp hdrops (congrArg Snapshot.rolePermissions heq)
  | insertAuditLog e => exact absurd rfl (hw e)

theorem length_filter_eq_zero {α : Type} {S : Schema α} {t : Table S} {p : α → Bool}
    (h : ∀ r ∈ t, p r = false) : (t.rows.filter p).length = 0 := by
  rw [List.length_eq_zero_iff, List.filter_eq_nil_iff]
  intro r hr
  simp [h r hr]

/-- An `INSERT` that does not change anything is refused. -/
theorem write_of_clash (hw : w.inserts = true) (h : ¬ w.Changes now db) :
    ∃ e, w.write now db = .error e := by
  cases w with
  | insertApp n a s d =>
      exact inserted_of_clash h
  | insertRole appId n k d df =>
      refine inserted_of_clash fun hfresh => h fun role hrole => ?_
      simpa [sysRolesSchema] using hfresh role hrole
  | insertPermission appId n k d =>
      refine inserted_of_clash fun hfresh => h fun perm hperm => ?_
      simpa [sysPermissionsSchema] using hfresh perm hperm
  | insertUserRole appId u roleId =>
      refine inserted_of_clash fun hfresh => h fun ur hur => ?_
      simpa [sysUserRolesSchema] using hfresh ur hur
  | insertRolePermission roleId permId =>
      refine inserted_of_clash fun hfresh => h fun rp hrp => ?_
      simpa [sysRolePermissionsSchema] using hfresh rp hrp
  | insertAuditLog e => exact absurd trivial h
  | _ => simp [inserts] at hw

/-- An `UPDATE` or a `DELETE` that does not change anything reports no row. -/
theorem write_of_unchanged (hw : w.inserts = false) (h : ¬ w.Changes now db) :
    w.write now db = .ok (0, db) := by
  cases w with
  | updateApp a n d st =>
      have hnone : (db.sysApps.rows.filter fun app => c.same app.appCode a &&
          decide (app.set now n d st ≠ app)).length = 0 := by
        refine length_filter_eq_zero fun app happ => ?_
        by_contra hne
        exact h ⟨app, happ, by simpa using hne⟩
      simp only [write, hnone]
      exact congrArg (fun t => Except.ok (0, { db with sysApps := t })) (Table.update_eq_self hnone)
  | deleteApp a =>
      have hnone : (db.sysApps.rows.filter fun app => c.same app.appCode a).length = 0 := by
        refine length_filter_eq_zero fun app happ => ?_
        by_contra hne
        exact h ⟨app, happ, by simpa using hne⟩
      simp only [write, hnone, Table.delete_eq_self hnone]
  | updateRole appId k n d df =>
      have hnone : (db.sysRoles.rows.filter fun role => role.appId == appId &&
          c.same role.roleKey k && decide (role.set now n d df ≠ role)).length = 0 := by
        refine length_filter_eq_zero fun role hrole => ?_
        by_contra hne
        exact h ⟨role, hrole, by simpa [and_assoc] using hne⟩
      simp only [write, hnone]
      exact congrArg (fun t => Except.ok (0, { db with sysRoles := t })) (Table.update_eq_self hnone)
  | deleteRole appId k =>
      have hnone : (db.sysRoles.rows.filter fun role => role.appId == appId &&
          c.same role.roleKey k).length = 0 := by
        refine length_filter_eq_zero fun role hrole => ?_
        by_contra hne
        exact h ⟨role, hrole, by simpa using hne⟩
      simp only [write, hnone, Table.delete_eq_self hnone]
  | updatePermission appId k n d =>
      have hnone : (db.sysPermissions.rows.filter fun perm => perm.appId == appId &&
          c.same perm.permKey k && decide (perm.set now n d ≠ perm)).length = 0 := by
        refine length_filter_eq_zero fun perm hperm => ?_
        by_contra hne
        exact h ⟨perm, hperm, by simpa [and_assoc] using hne⟩
      simp only [write, hnone]
      exact congrArg (fun t => Except.ok (0, { db with sysPermissions := t }))
        (Table.update_eq_self hnone)
  | deletePermission appId k =>
      have hnone : (db.sysPermissions.rows.filter fun perm => perm.appId == appId &&
          c.same perm.permKey k).length = 0 := by
        refine length_filter_eq_zero fun perm hperm => ?_
        by_contra hne
        exact h ⟨perm, hperm, by simpa using hne⟩
      simp only [write, hnone, Table.delete_eq_self hnone]
  | deleteUserRole a u k =>
      have hnone : (db.sysUserRoles.rows.filter (db.dropsUserRole a u k)).length = 0 := by
        refine length_filter_eq_zero fun ur hur => ?_
        by_contra hne
        exact h ⟨ur, hur, by simpa using hne⟩
      simp only [write, hnone, Table.delete_eq_self hnone]
  | deleteRolePermission a k p =>
      have hnone : (db.sysRolePermissions.rows.filter (db.dropsRolePermission a k p)).length = 0 := by
        refine length_filter_eq_zero fun rp hrp => ?_
        by_contra hne
        exact h ⟨rp, hrp, by simpa using hne⟩
      simp only [write, hnone, Table.delete_eq_self hnone]
  | _ => simp [inserts] at hw

/-- Only its own `INSERT` writes to the audit log. -/
theorem sysAuditLogs_write {db' : Db c} {n : ℕ} (hw : ∀ e, w ≠ .insertAuditLog e)
    (h : w.write now db = .ok (n, db')) : db'.sysAuditLogs = db.sysAuditLogs := by
  cases w with
  | insertAuditLog e => exact absurd rfl (hw e)
  | insertApp | insertRole | insertPermission | insertUserRole | insertRolePermission =>
      obtain ⟨t, -, rfl⟩ := inserted_eq_ok h
      rfl
  | _ =>
      cases h
      rfl

end Statement

/-! ## Operations -/

namespace DaoOp
variable {t : ℤ} {db : Db c} {op : DaoOp}

/-- The operation changes a row: it sends a statement whose values fit, and that changes
one. -/
def Writes (t : ℤ) (db : Db c) (op : DaoOp) : Prop :=
  ∃ w ∈ op.plan t db, w.Admitted db ∧ w.Changes (dateTime t) db

/-- The operation reports success and changes nothing: `updateApp` without anything to
update; and `updateRole` and `updatePermission` in an app that exists, when it has no such
role or permission or this has the values already. -/
def Vacuous (t : ℤ) (db : Db c) : DaoOp → Prop
  | updateApp _ n d st => n = none ∧ d = none ∧ st = none
  | updateRole a k n d df => ∃ w ∈ (updateRole a k n d df).plan t db,
      w.Admitted db ∧ ¬ w.Changes (dateTime t) db
  | updatePermission a k n d => ∃ w ∈ (updatePermission a k n d).plan t db,
      w.Admitted db ∧ ¬ w.Changes (dateTime t) db
  | _ => False

instance (t : ℤ) (db : Db c) (op : DaoOp) : Decidable (op.Writes t db) :=
  inferInstanceAs (Decidable (∃ w ∈ op.plan t db, _))

instance (t : ℤ) (db : Db c) (op : DaoOp) : Decidable (op.Vacuous t db) := by
  induction op using DaoOp.casesOn <;> dsimp only [Vacuous] <;> infer_instance

theorem plan_ne_insertAuditLog {w : Statement} (h : w ∈ op.plan t db) (e : AuditEntry) :
    w ≠ .insertAuditLog e := by
  intro heq
  subst heq
  cases op <;> simp [plan, Option.bind_eq_some_iff] at h

/-- Only the updates send an `UPDATE` and report success whatever it reports. -/
theorem verdict_zero {w : Statement} (h : w ∈ op.plan t db) (hw : w.inserts = false)
    (hop : op.verdict 0 = true) : (∃ a k n d df, op = updateRole a k n d df) ∨
      ∃ a k n d, op = updatePermission a k n d := by
  cases op with
  | updateRole a k n d df => exact Or.inl ⟨a, k, n, d, df, rfl⟩
  | updatePermission a k n d => exact Or.inr ⟨a, k, n, d, rfl⟩
  | updateApp | deleteApp | deleteRole | deletePermission | removeRoleFromUser
  | removePermissionFromRole => simp [verdict] at hop
  | createApp =>
      simp only [plan, Option.mem_some_iff] at h
      simp [← h, Statement.inserts] at hw
  | createRole | createPermission | assignRoleToUser =>
      obtain ⟨x, -, rfl⟩ := Option.map_eq_some_iff.mp h
      simp [Statement.inserts] at hw
  | addPermissionToRole =>
      obtain ⟨role, -, h⟩ := Option.bind_eq_some_iff.mp h
      obtain ⟨perm, -, rfl⟩ := Option.map_eq_some_iff.mp h
      simp [Statement.inserts] at hw

theorem idle_eq_false_of_writes (h : op.Writes t db) : op.idle = false := by
  cases op with
  | updateApp a n d st =>
      obtain ⟨w, hw, -, hchanges⟩ := h
      obtain rfl : .updateApp a n d st = w := Option.some_inj.mp hw
      obtain ⟨app, -, -, hset⟩ := hchanges
      by_contra hidle
      simp only [idle, Bool.not_eq_false, Bool.and_eq_true, Option.isNone_iff_eq_none] at hidle
      exact hset (by simp [SysApp.set, hidle.1.1, hidle.1.2, hidle.2])
  | _ => rfl

/-- **What writes reports success and changes a row.** -/
theorem apply_of_writes (h : op.Writes t db) :
    (op.apply t db).1 = true ∧ (op.apply t db).2.snapshot ≠ db.snapshot := by
  have hidle := idle_eq_false_of_writes h
  obtain ⟨w, hw, hfits, hchanges⟩ := h
  obtain ⟨rows, db', hwrite, hpos, hne⟩ :=
    Statement.write_of_changes (plan_ne_insertAuditLog hw) hchanges
  have hplan : op.plan t db = some w := hw
  have happly : op.apply t db = (op.verdict rows, db') := by
    simp [apply, hidle, hplan, Statement.exec_of_admitted hfits, hwrite]
  rw [happly]
  refine ⟨?_, hne⟩
  cases op <;> simp [verdict, hpos]

theorem apply_of_admitted_unchanged {w : Statement} (hidle : op.idle = false) (hw : w ∈ op.plan t db)
    (hfits : w.Admitted db) (hins : w.inserts = false) (hsame : ¬ w.Changes (dateTime t) db) :
    op.apply t db = (op.verdict 0, db) := by
  have hplan : op.plan t db = some w := hw
  simp [apply, hidle, hplan, Statement.exec_of_admitted hfits,
    Statement.write_of_unchanged hins hsame]

/-- **What is vacuous reports success and changes nothing.** -/
theorem apply_of_vacuous (h : op.Vacuous t db) : op.apply t db = (true, db) := by
  cases op with
  | updateApp a n d st => simp [apply, idle, h.1, h.2.1, h.2.2]
  | updateRole a k n d df =>
      obtain ⟨w, hw, hfits, hsame⟩ := h
      obtain ⟨appId, -, rfl⟩ := Option.map_eq_some_iff.mp hw
      exact apply_of_admitted_unchanged rfl hw hfits rfl hsame
  | updatePermission a k n d =>
      obtain ⟨w, hw, hfits, hsame⟩ := h
      obtain ⟨appId, -, rfl⟩ := Option.map_eq_some_iff.mp hw
      exact apply_of_admitted_unchanged rfl hw hfits rfl hsame
  | _ => simp [Vacuous] at h

/-- **Whatever else is called reports failure and changes nothing.** -/
theorem apply_of_neither (hw : ¬ op.Writes t db) (hv : ¬ op.Vacuous t db) :
    op.apply t db = (false, db) := by
  have hidle : op.idle = false := by
    cases op with
    | updateApp a n d st =>
        by_contra hidle
        simp only [idle, Bool.not_eq_false, Bool.and_eq_true, Option.isNone_iff_eq_none] at hidle
        exact hv ⟨hidle.1.1, hidle.1.2, hidle.2⟩
    | _ => rfl
  cases hplan : op.plan t db with
  | none => simp [apply, hidle, hplan]
  | some w =>
      by_cases hfits : w.Admitted db
      · have hsame : ¬ w.Changes (dateTime t) db := fun hc => hw ⟨w, hplan, hfits, hc⟩
        cases hins : w.inserts with
        | true =>
            obtain ⟨e, he⟩ := Statement.write_of_clash hins hsame
            simp [apply, hidle, hplan, Statement.exec_of_admitted hfits, he]
        | false =>
            rw [apply_of_admitted_unchanged hidle hplan hfits hins hsame]
            by_contra hne
            have hzero : op.verdict 0 = true := by
              by_contra hfalse
              exact hne (by simp [hfalse])
            rcases verdict_zero hplan hins hzero with ⟨a, k, n, d, df, rfl⟩ | ⟨a, k, n, d, rfl⟩
            · exact hv ⟨w, hplan, hfits, hsame⟩
            · exact hv ⟨w, hplan, hfits, hsame⟩
      · obtain ⟨e, he⟩ := Statement.exec_of_not_admitted (dateTime t) hfits
        simp [apply, hidle, hplan, he]

/-- An operation reports success when it writes, and when it is vacuous. -/
theorem apply_fst_eq_true_iff (t : ℤ) (db : Db c) (op : DaoOp) :
    (op.apply t db).1 = true ↔ op.Writes t db ∨ op.Vacuous t db := by
  by_cases hw : op.Writes t db
  · simp [hw, (apply_of_writes hw).1]
  · by_cases hv : op.Vacuous t db
    · simp [hv, apply_of_vacuous hv]
    · simp [hw, hv, apply_of_neither hw hv]

/-- It changes a row just when it writes. -/
theorem snapshot_apply_ne_iff (t : ℤ) (db : Db c) (op : DaoOp) :
    (op.apply t db).2.snapshot ≠ db.snapshot ↔ op.Writes t db := by
  by_cases hw : op.Writes t db
  · simp [hw, (apply_of_writes hw).2]
  · by_cases hv : op.Vacuous t db
    · simp [hw, apply_of_vacuous hv]
    · simp [hw, apply_of_neither hw hv]

end DaoOp
end SiqiAuth
