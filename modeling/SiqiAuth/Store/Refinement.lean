import SiqiAuth.Store.Edits
import SiqiAuth.Store.ViewLinks
import SiqiAuth.Store.ViewRows
import SiqiAuth.Store.Writes

/-!
# The operations refine edits of the view

What an operation of the DAO does to the tables is what one edit of one app does to the
view, and it reports success when that edit is accepted.  This is shown of the writing
statement, whatever the operation has done before to learn the numbers in it, as long as
what they refer to is still there; so it holds of an operation that runs alone, and of one
among many.

## Main definitions

* `DaoOp.edit` — the edit that an operation is.
* `DaoOp.sends` — what the writing statement of an operation does and is judged to be.
* `DaoOp.Aims`, `Statement.Finds` — the statement is one for the keys of the operation, and
  what it refers to by number is there.
* `DaoOp.refines` — the statement does to the view what the edit does.
-/

namespace SiqiAuth
open Lib

variable {c : Collation}

/-! ## Operations as edits -/

/-- An edit of the view of an app. -/
abbrev ViewEdit (c : Collation) :=
  Rbac.Edit c.Value c.Value c.Value SysApp SysRole SysPermission SysUserRole

namespace DaoOp

/-- The edit, if the values of the statement fit their columns. -/
def fitting (w : Statement) (e : ViewEdit c) : ViewEdit c :=
  if w.overflow = none then e else .answer false

/-- What an update makes of a row, if its values fit their columns. -/
def updating {α : Type} (w : Statement) (set : α → α) (x : α) : Option α :=
  if w.overflow = none then some (set x) else none

/-- The edit that an operation is, of the app with its code.  What it adds is what the columns
keep. -/
def edit (t : ℤ) : DaoOp → ViewEdit c
  | createApp n a d =>
      let secret := "secret_" ++ a ++ "_" ++ toString t
      fitting (.insertApp n a secret d) (.create ⟨0, varchar 50 n, varchar 32 a, varchar 64 secret,
        varchar 255 d, 1, dateTime t, dateTime t⟩)
  | updateApp a n d st =>
      if n.isNone && d.isNone && st.isNone then .answer true
      else .update (updating (.updateApp a n d st) (SysApp.set (dateTime t) n d st))
  | deleteApp _ => .delete
  | createRole _ n k d df =>
      fitting (.insertRole 0 n k d df) (.createRole (c.value (varchar 32 k))
        ⟨0, 0, varchar 32 n, varchar 32 k, varchar 255 d, df, dateTime t⟩)
  | updateRole _ k n d df =>
      .updateRole (c.value k) (updating (.updateRole 0 k n d df) (SysRole.set (dateTime t) n d df))
  | deleteRole _ k => .deleteRole (c.value k)
  | createPermission _ n k d =>
      fitting (.insertPermission 0 n k d) (.createPerm (c.value (varchar 64 k))
        ⟨0, 0, varchar 64 n, varchar 64 k, varchar 255 d, dateTime t⟩)
  | updatePermission _ k n d =>
      .updatePerm (c.value k)
        (updating (.updatePermission 0 k n d) (SysPermission.set (dateTime t) n d))
  | deletePermission _ k => .deletePerm (c.value k)
  | assignRoleToUser _ u k =>
      fitting (.insertUserRole 0 u 0) (.assign (c.value (varchar 128 u)) (c.value k)
        ⟨0, 0, varchar 128 u, 0, dateTime t⟩)
  | removeRoleFromUser _ u k => .revoke (c.value u) (c.value k)
  | addPermissionToRole _ k p => .bind (c.value k) (c.value p)
  | removePermissionFromRole _ k p => .unbind (c.value k) (c.value p)

/-! ## The writing statement -/

/-- What the writing statement of an operation is judged to be, and the tables after it. -/
def sends (t : ℤ) (db : Db c) (w : Statement) (op : DaoOp) : Bool × Db c :=
  match w.exec (dateTime t) db with
  | .ok (rows, db') => (op.verdict rows, db')
  | .error _ => (false, db)

section Sends
variable {t : ℤ} {db : Db c} {w : Statement} {op : DaoOp}

theorem apply_of_plan (hidle : op.idle = false) (hplan : op.plan t db = some w) :
    op.apply t db = op.sends t db w := by
  simp only [apply, hidle, hplan, Bool.false_eq_true, if_false]
  rfl

theorem verdict_of_pos {rows : ℕ} (h : 0 < rows) (op : DaoOp) : op.verdict rows = true := by
  cases op <;> simp [verdict, h]

theorem sends_of_not_admitted (h : ¬ w.Admitted db) : op.sends t db w = (false, db) := by
  obtain ⟨e, he⟩ := Statement.exec_of_not_admitted (dateTime t) h
  simp only [sends, he]

/-- A statement that changes nothing leaves the tables as they are, and only an update of a
role or a permission reports success of it. -/
theorem sends_of_unchanged (h : ¬ w.Changes (dateTime t) db) :
    op.sends t db w = (decide (w.Admitted db) && !w.inserts && op.verdict 0, db) := by
  by_cases hfits : w.Admitted db
  · cases hins : w.inserts with
    | true =>
        obtain ⟨e, he⟩ := Statement.write_of_clash hins h
        simp [sends, Statement.exec_of_admitted hfits, he]
    | false =>
        simp [sends, Statement.exec_of_admitted hfits, Statement.write_of_unchanged hins h, hfits]
  · simp [sends_of_not_admitted hfits, hfits]

/-- When the judgement is good. -/
theorem sends_fst_iff (hw : ∀ e, w ≠ .insertAuditLog e) : (op.sends t db w).1 = true ↔
    w.Admitted db ∧ (w.Changes (dateTime t) db ∨ w.inserts = false ∧ op.verdict 0 = true) := by
  by_cases hchanges : w.Changes (dateTime t) db
  · by_cases hfits : w.Admitted db
    · obtain ⟨rows, db', hwrite, hpos, -⟩ := Statement.write_of_changes hw hchanges
      simp [sends, Statement.exec_of_admitted hfits, hwrite, verdict_of_pos hpos, hfits, hchanges]
    · simp [sends_of_not_admitted hfits, hfits]
  · simp [sends_of_unchanged hchanges, hchanges, and_assoc]

/-- What is judged a failure has changed nothing. -/
theorem sends_of_false (hw : ∀ e, w ≠ .insertAuditLog e) (h : (op.sends t db w).1 = false) :
    (op.sends t db w).2 = db := by
  by_cases hchanges : w.Changes (dateTime t) db
  · have hfits : ¬ w.Admitted db := by
      intro hfits
      rw [(sends_fst_iff hw).mpr ⟨hfits, Or.inl hchanges⟩] at h
      cases h
    rw [sends_of_not_admitted hfits]
  · rw [sends_of_unchanged hchanges]

/-- What is judged a success has been written. -/
theorem write_of_sends (h : (op.sends t db w).1 = true) :
    w.Admitted db ∧ ∃ rows, w.write (dateTime t) db = .ok (rows, (op.sends t db w).2) := by
  have hfits : w.Admitted db := by
    by_contra hfits
    rw [sends_of_not_admitted hfits] at h
    cases h
  refine ⟨hfits, ?_⟩
  simp only [sends, Statement.exec_of_admitted hfits] at h ⊢
  split at h
  case h_1 rows db' hwrite => exact ⟨rows, by simp [hwrite]⟩
  case h_2 => cases h

end Sends
end DaoOp

/-! ## What the statement is about -/

namespace Db
variable (db : Db c)

/-- The number is that of the app with the code, if the app is still there. -/
def Numbers (appId : ℕ) (a : String) : Prop :=
  appId < db.sysApps.next ∧ ∀ app ∈ db.sysApps, app.id = appId → c.same app.appCode a = true

/-- The numbers are those of the role with the key and of its app. -/
def NumbersRole (roleId appId : ℕ) (a k : String) : Prop :=
  roleId < db.sysRoles.next ∧ db.Numbers appId a ∧
    ∀ r ∈ db.sysRoles, r.id = roleId → r.appId = appId ∧ c.same r.roleKey k = true

/-- The numbers are those of the permission with the key and of its app. -/
def NumbersPermission (permId appId : ℕ) (a p : String) : Prop :=
  permId < db.sysPermissions.next ∧ db.Numbers appId a ∧
    ∀ q ∈ db.sysPermissions, q.id = permId → q.appId = appId ∧ c.same q.permKey p = true

/-- There is an app with the number. -/
def FindsApp (appId : ℕ) : Prop := ∃ app ∈ db.sysApps, app.id = appId

instance (appId : ℕ) : Decidable (db.FindsApp appId) :=
  inferInstanceAs (Decidable (∃ app ∈ db.sysApps, _))

end Db

/-- What the statement refers to by number is there. -/
def Statement.Finds (db : Db c) : Statement → Prop
  | .insertRole appId .. | .updateRole appId .. | .deleteRole appId _
  | .insertPermission appId .. | .updatePermission appId .. | .deletePermission appId _ =>
      db.FindsApp appId
  | .insertUserRole _ _ roleId => ∃ r ∈ db.sysRoles, r.id = roleId ∧ db.FindsApp r.appId
  | .insertRolePermission roleId permId =>
      (∃ r ∈ db.sysRoles, r.id = roleId ∧ db.FindsApp r.appId) ∧
        ∃ q ∈ db.sysPermissions, q.id = permId
  | _ => True

instance (db : Db c) (w : Statement) : Decidable (w.Finds db) := by
  induction w using Statement.casesOn <;> dsimp only [Statement.Finds] <;> infer_instance

namespace DaoOp

/-- The statement is one that the operation sends, for rows that its keys name. -/
def Aims (t : ℤ) (db : Db c) (w : Statement) : DaoOp → Prop
  | createApp n a d => w = .insertApp n a ("secret_" ++ a ++ "_" ++ toString t) d
  | updateApp a n d st => (updateApp a n d st).idle = false ∧ w = .updateApp a n d st
  | deleteApp a => w = .deleteApp a
  | createRole a n k d df => ∃ appId, db.Numbers appId a ∧ w = .insertRole appId n k d df
  | updateRole a k n d df => ∃ appId, db.Numbers appId a ∧ w = .updateRole appId k n d df
  | deleteRole a k => ∃ appId, db.Numbers appId a ∧ w = .deleteRole appId k
  | createPermission a n k d => ∃ appId, db.Numbers appId a ∧ w = .insertPermission appId n k d
  | updatePermission a k n d => ∃ appId, db.Numbers appId a ∧ w = .updatePermission appId k n d
  | deletePermission a k => ∃ appId, db.Numbers appId a ∧ w = .deletePermission appId k
  | assignRoleToUser a u k =>
      ∃ roleId appId, db.NumbersRole roleId appId a k ∧ w = .insertUserRole appId u roleId
  | removeRoleFromUser a u k => w = .deleteUserRole a u k
  | addPermissionToRole a k p => ∃ roleId appId permId appId', db.NumbersRole roleId appId a k ∧
      db.NumbersPermission permId appId' a p ∧ w = .insertRolePermission roleId permId
  | removePermissionFromRole a k p => w = .deleteRolePermission a k p

theorem Aims.ne_insertAuditLog {t : ℤ} {db : Db c} {w : Statement} {op : DaoOp}
    (h : op.Aims t db w) (e : AuditEntry) : w ≠ .insertAuditLog e := by
  rintro rfl
  cases op <;> simp [Aims] at h

/-- What the statement does to the view and what it is judged to be are what the edit does
and whether it is accepted. -/
structure Refines (t : ℤ) (db : Db c) (w : Statement) (op : DaoOp) : Prop where
  view : (op.sends t db w).2.view = Rbac.perform db.view (c.value op.storedCode, op.edit t)
  accepts : (op.sends t db w).1 = true ↔ (db.view (c.value op.storedCode)).Accepts (op.edit t)

section Refines
variable {t : ℤ} {db : Db c} {w : Statement} {op : DaoOp}

/-- It is enough to know when the edit is accepted, and what the statement writes then. -/
theorem Refines.of_write (hw : ∀ e, w ≠ .insertAuditLog e)
    (haccepts : w.Admitted db ∧ (w.Changes (dateTime t) db ∨ w.inserts = false ∧
      op.verdict 0 = true) ↔ (db.view (c.value op.storedCode)).Accepts (op.edit t))
    (hview : w.Admitted db → ∀ rows db', w.write (dateTime t) db = .ok (rows, db') →
      db'.view = Rbac.perform db.view (c.value op.storedCode, op.edit t)) : Refines t db w op := by
  have hiff := (sends_fst_iff hw).trans haccepts
  refine ⟨?_, hiff⟩
  cases hjudged : (op.sends t db w).1 with
  | true =>
      obtain ⟨hfits, rows, hwrite⟩ := write_of_sends hjudged
      exact hview hfits rows _ hwrite
  | false =>
      rw [sends_of_false hw hjudged, Rbac.perform_of_refused]
      intro hacc
      rw [hiff.mpr hacc] at hjudged
      cases hjudged

/-! ## Operation by operation -/

theorem accepts_fitting {s : Rbac c.Value c.Value c.Value SysApp SysRole SysPermission SysUserRole}
    {e : ViewEdit c} : s.Accepts (fitting w e) ↔ w.overflow = none ∧ s.Accepts e := by
  by_cases h : w.overflow = none
  · simp [fitting, h]
  · simp [fitting, h, Rbac.Accepts]

theorem fitting_of_fits {e : ViewEdit c} (h : w.overflow = none) : fitting w e = e := if_pos h

theorem updating_of_fits {α : Type} (h : w.overflow = none) (set : α → α) :
    updating w set = fun x => some (set x) := funext fun _ => if_pos h

theorem updating_of_not_fits {α : Type} (h : ¬ w.overflow = none) (set : α → α) :
    updating w set = fun _ => none := funext fun _ => if_neg h

theorem admitted_of_stores (h : w.stores db = true) : w.Admitted db ↔ w.overflow = none := by
  simp [Statement.Admitted, h]

theorem view_info_iff {a : String} :
    (∃ i, (db.view (c.value a)).info i) ↔ ∃ app ∈ db.sysApps, c.same app.appCode a = true := by
  constructor
  · rintro ⟨i, app, happ, -⟩
    exact ⟨app, happ.1, happ.same⟩
  · rintro ⟨app, happ, hcode⟩
    exact ⟨app.info, app, .of_same happ hcode, rfl⟩

theorem view_role_iff {app : SysApp} {k r : c.Value} (h : AppOf db.sysApps k app) :
    (∃ j, (db.view k).role r j) ↔
      ∃ x ∈ db.sysRoles, x.appId = app.id ∧ c.value x.roleKey = r := by
  constructor
  · rintro ⟨j, x, ⟨hx, hr, app', happ', hid⟩, -⟩
    obtain rfl := h.unique happ'
    exact ⟨x, hx, hid, hr⟩
  · rintro ⟨x, hx, hid, hr⟩
    exact ⟨x.info, x, ⟨hx, hr, app, h, hid⟩, rfl⟩

theorem view_perm_iff {app : SysApp} {k p : c.Value} (h : AppOf db.sysApps k app) :
    (∃ j, (db.view k).perm p j) ↔
      ∃ x ∈ db.sysPermissions, x.appId = app.id ∧ c.value x.permKey = p := by
  constructor
  · rintro ⟨j, x, ⟨hx, hr, app', happ', hid⟩, -⟩
    obtain rfl := h.unique happ'
    exact ⟨x, hx, hid, hr⟩
  · rintro ⟨x, hx, hid, hr⟩
    exact ⟨x.info, x, ⟨hx, hr, app, h, hid⟩, rfl⟩

theorem refines_createApp (hdb : db.Founded) (n a d : String) :
    Refines t db (.insertApp n a ("secret_" ++ a ++ "_" ++ toString t) d) (createApp n a d) := by
  refine .of_write (fun e => by simp) ?_ fun hfits rows db' h => ?_
  · rw [edit, accepts_fitting, admitted_of_stores rfl]
    refine and_congr_right fun _ => ?_
    simp only [Statement.Changes, Statement.inserts, Bool.true_eq_false, false_and, or_false,
      Rbac.Accepts, ← not_exists, storedCode, view_info_iff]
    simp only [not_exists, not_and, Bool.not_eq_true]
  · obtain ⟨t', ht, rfl⟩ := inserted_eq_ok h
    rw [edit, fitting_of_fits ((admitted_of_stores rfl).mp hfits)]
    exact Db.view_insertApp hdb ht

theorem refines_updateApp {a : String} {n d : Option String} {st : Option ℤ}
    (hidle : (updateApp a n d st).idle = false) :
    Refines t db (.updateApp a n d st) (updateApp a n d st) := by
  have hedit : ((updateApp a n d st).edit t : ViewEdit c) =
      .update (updating (.updateApp a n d st) (SysApp.set (dateTime t) n d st)) := by
    simp only [idle] at hidle
    simp [edit, hidle]
  refine .of_write (fun e => by simp) ?_ fun hfits rows db' h => ?_
  · rw [hedit]
    simp only [Statement.Changes, verdict, lt_irrefl, decide_false, Bool.false_eq_true, and_false,
      or_false, Rbac.Accepts, storedCode, appCode]
    constructor
    · rintro ⟨hfits, app, happ, hcode, hset⟩
      have hover : (Statement.updateApp a n d st).overflow = none := by
        refine hfits.resolve_right fun hnot => ?_
        rw [Statement.stores, List.any_eq_false] at hnot
        exact hnot app happ hcode
      exact ⟨app.info, ⟨app, .of_same happ hcode, rfl⟩, _, by rw [updating, if_pos hover]; rfl,
        SysApp.info_set_ne_iff.mpr hset⟩
    · rintro ⟨_, ⟨app, happ, rfl⟩, i', hi', hne⟩
      by_cases hover : (Statement.updateApp a n d st).overflow = none
      · rw [updating, if_pos hover, Option.mem_some_iff] at hi'
        subst hi'
        exact ⟨Or.inl hover, app, happ.1, happ.same, SysApp.info_set_ne_iff.mp hne⟩
      · simp [updating, hover] at hi'
  · cases h
    rw [hedit]
    by_cases hover : (Statement.updateApp a n d st).overflow = none
    · rw [updating_of_fits hover]
      exact Db.view_setApp
    · -- The values do not fit, and there is no app to store them.
      have hnone : ∀ i, ¬ (db.view (c.value a)).info i := by
        rintro i ⟨app, happ, rfl⟩
        have hnot := hfits.resolve_left hover
        rw [Statement.stores, List.any_eq_false] at hnot
        exact hnot app happ.1 happ.same
      simp only [storedCode, appCode]
      rw [Rbac.perform_update_absent hnone]
      exact Db.view_setApp.trans (Rbac.perform_update_absent hnone)

theorem refines_deleteApp (a : String) : Refines t db (.deleteApp a) (deleteApp a) := by
  refine .of_write (fun e => by simp) ?_ fun hfits rows db' h => ?_
  · have hfits : (Statement.deleteApp a).Admitted db := Or.inl rfl
    simp only [hfits, true_and, Statement.Changes, verdict, lt_irrefl, decide_false,
      Bool.false_eq_true, and_false, or_false, edit, Rbac.Accepts, storedCode, appCode,
      view_info_iff]
  · cases h
    exact Db.view_dropApp

section InApp
variable {a k : String} {app : SysApp}

/-- The tables find the app under the code that the operation was given. -/
theorem Numbers.finds {appId : ℕ} (h : db.Numbers appId a) (hfinds : db.FindsApp appId) :
    ∃ app, AppOf db.sysApps (c.value a) app ∧ app.id = appId := by
  obtain ⟨app, happ, rfl⟩ := hfinds
  exact ⟨app, .of_same happ (h.2 app happ rfl), rfl⟩

theorem refines_createRole (hdb : db.Founded) (happ : AppOf db.sysApps (c.value a) app)
    (n k d : String) (df : Bool) :
    Refines t db (.insertRole app.id n k d df) (createRole a n k d df) := by
  refine .of_write (fun e => by simp) ?_ fun hfits rows db' h => ?_
  · rw [edit, accepts_fitting, admitted_of_stores rfl]
    refine and_congr_right fun _ => ?_
    simp only [Statement.Changes, Statement.inserts, Bool.true_eq_false, false_and, or_false,
      Rbac.Accepts, ← not_exists, storedCode, appCode, view_role_iff happ, ← c.same_iff_value]
    rw [and_iff_right ⟨app.info, app, happ, rfl⟩]
    simp only [not_exists, not_and, Bool.not_eq_true]
  · obtain ⟨t', ht, rfl⟩ := inserted_eq_ok h
    have hover : (Statement.insertRole app.id n k d df).overflow = none :=
      (admitted_of_stores rfl).mp hfits
    change (Statement.insertRole 0 n k d df).overflow = none at hover
    simp only [edit, fitting_of_fits hover, storedCode, appCode]
    rw [← happ.2]
    exact Db.view_insertRole hdb happ.1 ht

theorem refines_deleteRole (happ : AppOf db.sysApps (c.value a) app) (k : String) :
    Refines t db (.deleteRole app.id k) (deleteRole a k) := by
  refine .of_write (fun e => by simp) ?_ fun hfits rows db' h => ?_
  · have hfits : (Statement.deleteRole app.id k).Admitted db := Or.inl rfl
    simp only [hfits, true_and, Statement.Changes, verdict, lt_irrefl, decide_false,
      Bool.false_eq_true, and_false, or_false, edit, Rbac.Accepts, storedCode, appCode,
      view_role_iff happ,
      c.same_iff_value]
  · cases h
    simp only [edit, storedCode, appCode]
    rw [← happ.2]
    exact Db.view_dropRole happ.1

theorem refines_updateRole (happ : AppOf db.sysApps (c.value a) app) (k : String)
    (n d : Option String) (df : Option Bool) :
    Refines t db (.updateRole app.id k n d df) (updateRole a k n d df) := by
  have hstores : (Statement.updateRole app.id k n d df).stores db = true ↔
      ∃ j, (db.view (c.value a)).role (c.value k) j := by
    simp only [Statement.stores, List.any_eq_true, Bool.and_eq_true, beq_iff_eq,
      view_role_iff happ, c.same_iff_value]
    rfl
  refine .of_write (fun e => by simp) ?_ fun hfits rows db' h => ?_
  · simp only [Statement.inserts, verdict, and_self, or_true, and_true, edit, Rbac.Accepts,
      storedCode, appCode]
    rw [and_iff_right ⟨app.info, app, happ, rfl⟩]
    by_cases hover : (Statement.updateRole 0 k n d df).overflow = none
    · exact iff_of_true (Or.inl hover) fun j _ => by rw [updating_of_fits hover]; rfl
    · constructor
      · intro hfits j hj
        have hnot := hfits.resolve_left hover
        rw [hstores.mpr ⟨j, hj⟩] at hnot
        cases hnot
      · intro hall
        refine Or.inr (Bool.eq_false_iff.mpr fun hst => ?_)
        obtain ⟨j, hj⟩ := hstores.mp hst
        have hsome := hall j hj
        rw [updating_of_not_fits hover] at hsome
        cases hsome
  · cases h
    simp only [edit, storedCode, appCode]
    by_cases hover : (Statement.updateRole 0 k n d df).overflow = none
    · rw [updating_of_fits hover, ← happ.2]
      exact Db.view_setRole happ.1
    · have hnone : ∀ j, ¬ (db.view (c.value a)).role (c.value k) j := by
        intro j hj
        have hnot := hfits.resolve_left hover
        rw [hstores.mpr ⟨j, hj⟩] at hnot
        cases hnot
      rw [Rbac.perform_updateRole_absent hnone]
      refine (Db.view_setRole happ.1).trans ?_
      rw [happ.2]
      exact Rbac.perform_updateRole_absent hnone

theorem refines_createPermission (hdb : db.Founded) (happ : AppOf db.sysApps (c.value a) app)
    (n k d : String) :
    Refines t db (.insertPermission app.id n k d) (createPermission a n k d) := by
  refine .of_write (fun e => by simp) ?_ fun hfits rows db' h => ?_
  · rw [edit, accepts_fitting, admitted_of_stores rfl]
    refine and_congr_right fun _ => ?_
    simp only [Statement.Changes, Statement.inserts, Bool.true_eq_false, false_and, or_false,
      Rbac.Accepts, ← not_exists, storedCode, appCode, view_perm_iff happ, ← c.same_iff_value]
    rw [and_iff_right ⟨app.info, app, happ, rfl⟩]
    simp only [not_exists, not_and, Bool.not_eq_true]
  · obtain ⟨t', ht, rfl⟩ := inserted_eq_ok h
    have hover : (Statement.insertPermission app.id n k d).overflow = none :=
      (admitted_of_stores rfl).mp hfits
    change (Statement.insertPermission 0 n k d).overflow = none at hover
    simp only [edit, fitting_of_fits hover, storedCode, appCode]
    rw [← happ.2]
    exact Db.view_insertPermission hdb happ.1 ht

theorem refines_deletePermission (happ : AppOf db.sysApps (c.value a) app) (k : String) :
    Refines t db (.deletePermission app.id k) (deletePermission a k) := by
  refine .of_write (fun e => by simp) ?_ fun hfits rows db' h => ?_
  · have hfits : (Statement.deletePermission app.id k).Admitted db := Or.inl rfl
    simp only [hfits, true_and, Statement.Changes, verdict, lt_irrefl, decide_false,
      Bool.false_eq_true, and_false, or_false, edit, Rbac.Accepts, storedCode, appCode,
      view_perm_iff happ,
      c.same_iff_value]
  · cases h
    simp only [edit, storedCode, appCode]
    rw [← happ.2]
    exact Db.view_dropPermission happ.1

theorem refines_updatePermission (happ : AppOf db.sysApps (c.value a) app) (k : String)
    (n d : Option String) :
    Refines t db (.updatePermission app.id k n d) (updatePermission a k n d) := by
  have hstores : (Statement.updatePermission app.id k n d).stores db = true ↔
      ∃ j, (db.view (c.value a)).perm (c.value k) j := by
    simp only [Statement.stores, List.any_eq_true, Bool.and_eq_true, beq_iff_eq,
      view_perm_iff happ, c.same_iff_value]
    rfl
  refine .of_write (fun e => by simp) ?_ fun hfits rows db' h => ?_
  · simp only [Statement.inserts, verdict, and_self, or_true, and_true, edit, Rbac.Accepts,
      storedCode, appCode]
    rw [and_iff_right ⟨app.info, app, happ, rfl⟩]
    by_cases hover : (Statement.updatePermission 0 k n d).overflow = none
    · exact iff_of_true (Or.inl hover) fun j _ => by rw [updating_of_fits hover]; rfl
    · constructor
      · intro hfits j hj
        have hnot := hfits.resolve_left hover
        rw [hstores.mpr ⟨j, hj⟩] at hnot
        cases hnot
      · intro hall
        refine Or.inr (Bool.eq_false_iff.mpr fun hst => ?_)
        obtain ⟨j, hj⟩ := hstores.mp hst
        have hsome := hall j hj
        rw [updating_of_not_fits hover] at hsome
        cases hsome
  · cases h
    simp only [edit, storedCode, appCode]
    by_cases hover : (Statement.updatePermission 0 k n d).overflow = none
    · rw [updating_of_fits hover, ← happ.2]
      exact Db.view_setPermission happ.1
    · have hnone : ∀ j, ¬ (db.view (c.value a)).perm (c.value k) j := by
        intro j hj
        have hnot := hfits.resolve_left hover
        rw [hstores.mpr ⟨j, hj⟩] at hnot
        cases hnot
      rw [Rbac.perform_updatePerm_absent hnone]
      refine (Db.view_setPermission happ.1).trans ?_
      rw [happ.2]
      exact Rbac.perform_updatePerm_absent hnone

end InApp

section Linking
variable {a u k p : String} {x : SysRole} {y : SysPermission}

theorem refines_assignRoleToUser (hx : db.RoleOf (c.value a) (c.value k) x) :
    Refines t db (.insertUserRole x.appId u x.id) (assignRoleToUser a u k) := by
  refine .of_write (fun e => by simp) ?_ fun hfits rows db' h => ?_
  · rw [edit, accepts_fitting, admitted_of_stores rfl]
    refine and_congr_right fun _ => ?_
    simp only [Statement.Changes, Statement.inserts, Bool.true_eq_false, false_and, or_false,
      Rbac.Accepts, storedCode, appCode]
    rw [and_iff_right ⟨x.info, x, hx, rfl⟩]
    constructor
    · rintro hnew m ⟨ur, ⟨hur, hu, x', hx', hid, hrid⟩, -⟩
      obtain rfl := Db.RoleOf.unique hx hx'
      exact hnew ur hur hid ((c.same_iff_value _ _).mpr hu) hrid
    · intro hnew ur hur hid hu hrid
      exact hnew ur.info ⟨ur, ⟨hur, (c.same_iff_value _ _).mp hu, x, hx, hid, hrid⟩, rfl⟩
  · obtain ⟨t', ht, rfl⟩ := inserted_eq_ok h
    have hover : (Statement.insertUserRole x.appId u x.id).overflow = none :=
      (admitted_of_stores rfl).mp hfits
    change (Statement.insertUserRole 0 u 0).overflow = none at hover
    rw [edit, fitting_of_fits hover]
    exact Db.view_insertUserRole hx ht

theorem refines_removeRoleFromUser (hdb : db.Founded) (a u k : String) :
    Refines t db (.deleteUserRole a u k) (removeRoleFromUser a u k) := by
  refine .of_write (fun e => by simp) ?_ fun hfits rows db' h => ?_
  · have hfits : (Statement.deleteUserRole a u k).Admitted db := Or.inl rfl
    simp only [hfits, true_and, Statement.Changes, verdict, lt_irrefl, decide_false,
      Bool.false_eq_true, and_false, or_false, edit, Rbac.Accepts, storedCode, appCode]
    constructor
    · rintro ⟨ur, hur, hdrops⟩
      obtain ⟨app, role, hrole, hid, hu, hrid⟩ :=
        Db.exists_namesRole_of_drops hdb.toLinked hur hdrops
      exact ⟨ur.info, ur, ⟨hur, (c.same_iff_value _ _).mp hu, role,
        ⟨hrole.role_mem, (c.same_iff_value _ _).mp hrole.key, app,
          .of_same hrole.app_mem hrole.code, hrole.appId⟩, hid.trans hrole.appId.symm, hrid⟩, rfl⟩
    · rintro ⟨_, ur, hur, -⟩
      exact ⟨ur, hur.1, hur.dropped_iff.mpr ⟨rfl, rfl, rfl⟩⟩
  · cases h
    exact Db.view_dropUserRole

theorem refines_addPermissionToRole (hx : db.RoleOf (c.value a) (c.value k) x)
    (hy : db.PermOf (c.value a) (c.value p) y) :
    Refines t db (.insertRolePermission x.id y.id) (addPermissionToRole a k p) := by
  refine .of_write (fun e => by simp) ?_ fun hfits rows db' h => ?_
  · have hfits : (Statement.insertRolePermission x.id y.id).Admitted db := Or.inl rfl
    simp only [hfits, true_and, Statement.Changes, Statement.inserts, Bool.true_eq_false, false_and,
      or_false, edit, Rbac.Accepts, storedCode, appCode]
    rw [and_iff_right ⟨x.info, x, hx, rfl⟩, and_iff_right ⟨y.info, y, hy, rfl⟩]
    constructor
    · rintro hnew ⟨rp, hrp, x', hx', hrid, y', hy', hpid⟩
      obtain rfl := Db.RoleOf.unique hx hx'
      obtain rfl := Db.PermOf.unique hy hy'
      exact hnew rp hrp hrid hpid
    · exact fun hnew rp hrp hrid hpid => hnew ⟨rp, hrp, x, hx, hrid, y, hy, hpid⟩
  · obtain ⟨t', ht, rfl⟩ := inserted_eq_ok h
    exact Db.view_insertRolePermission hx hy ht

theorem refines_removePermissionFromRole (hdb : db.Founded) (a k p : String) :
    Refines t db (.deleteRolePermission a k p) (removePermissionFromRole a k p) := by
  refine .of_write (fun e => by simp) ?_ fun hfits rows db' h => ?_
  · have hfits : (Statement.deleteRolePermission a k p).Admitted db := Or.inl rfl
    simp only [hfits, true_and, Statement.Changes, verdict, lt_irrefl, decide_false,
      Bool.false_eq_true, and_false, or_false, edit, Rbac.Accepts, storedCode, appCode]
    constructor
    · rintro ⟨rp, hrp, hdrops⟩
      obtain ⟨app, role, perm, hrole, hperm, hrid, hpid⟩ :=
        Db.exists_namesPermission_of_drops hdb.toLinked hrp hdrops
      have happ : AppOf db.sysApps (c.value a) app := .of_same hrole.app_mem hrole.code
      exact ⟨rp, hrp, role, ⟨hrole.role_mem, (c.same_iff_value _ _).mp hrole.key, app, happ,
        hrole.appId⟩, hrid, perm, ⟨hperm.perm_mem, (c.same_iff_value _ _).mp hperm.key, app, happ,
          hperm.appId⟩, hpid⟩
    · rintro ⟨rp, hrp, x, hx, hrid, y, hy, hpid⟩
      exact ⟨rp, hrp, (Db.dropsRolePermission_of hx hy hrid hpid).mpr ⟨rfl, rfl, rfl⟩⟩
  · cases h
    exact Db.view_dropRolePermission

end Linking

/-- **What an operation sends for its keys does to the view what its edit does**, as long as
it refers to what is there. -/
theorem refines (hdb : db.Founded) (hw : op.Aims t db w) (hrefers : w.Refers db)
    (hfinds : w.Finds db) : Refines t db w op := by
  have hrole : ∀ {roleId appId a k}, db.NumbersRole roleId appId a k →
      (∃ r ∈ db.sysRoles, r.id = roleId ∧ db.FindsApp r.appId) → ∃ x app, x.id = roleId ∧
        x.appId = appId ∧ AppOf db.sysApps (c.value a) app ∧ app.id = appId ∧
          db.RoleOf (c.value a) (c.value k) x := by
    rintro roleId appId a k ⟨-, hnumbers, hrow⟩ ⟨x, hx, hid, hfound⟩
    obtain ⟨rfl, hkey⟩ := hrow x hx hid
    obtain ⟨app, happ, happId⟩ := Numbers.finds hnumbers hfound
    exact ⟨x, app, hid, rfl, happ, happId, hx, (c.same_iff_value _ _).mp hkey, app, happ,
      happId.symm⟩
  cases op with
  | createApp n a d =>
      subst hw
      exact refines_createApp hdb n a d
  | updateApp a n d st =>
      obtain ⟨hidle, rfl⟩ := hw
      exact refines_updateApp hidle
  | deleteApp a =>
      subst hw
      exact refines_deleteApp a
  | createRole a n k d df =>
      obtain ⟨appId, hnumbers, rfl⟩ := hw
      obtain ⟨app, happ, rfl⟩ := Numbers.finds hnumbers hfinds
      exact refines_createRole hdb happ n k d df
  | updateRole a k n d df =>
      obtain ⟨appId, hnumbers, rfl⟩ := hw
      obtain ⟨app, happ, rfl⟩ := Numbers.finds hnumbers hfinds
      exact refines_updateRole happ k n d df
  | deleteRole a k =>
      obtain ⟨appId, hnumbers, rfl⟩ := hw
      obtain ⟨app, happ, rfl⟩ := Numbers.finds hnumbers hfinds
      exact refines_deleteRole happ k
  | createPermission a n k d =>
      obtain ⟨appId, hnumbers, rfl⟩ := hw
      obtain ⟨app, happ, rfl⟩ := Numbers.finds hnumbers hfinds
      exact refines_createPermission hdb happ n k d
  | updatePermission a k n d =>
      obtain ⟨appId, hnumbers, rfl⟩ := hw
      obtain ⟨app, happ, rfl⟩ := Numbers.finds hnumbers hfinds
      exact refines_updatePermission happ k n d
  | deletePermission a k =>
      obtain ⟨appId, hnumbers, rfl⟩ := hw
      obtain ⟨app, happ, rfl⟩ := Numbers.finds hnumbers hfinds
      exact refines_deletePermission happ k
  | assignRoleToUser a u k =>
      obtain ⟨roleId, appId, hnumbers, rfl⟩ := hw
      obtain ⟨x, app, rfl, rfl, -, -, hx⟩ := hrole hnumbers hfinds
      exact refines_assignRoleToUser hx
  | removeRoleFromUser a u k =>
      subst hw
      exact refines_removeRoleFromUser hdb a u k
  | addPermissionToRole a k p =>
      obtain ⟨roleId, appId, permId, appId', hnumbers, hnumbers', rfl⟩ := hw
      obtain ⟨hfinds, y, hy, rfl⟩ := hfinds
      obtain ⟨x, app, rfl, rfl, happ, happId, hx⟩ := hrole hnumbers hfinds
      obtain ⟨-, hkey⟩ := hnumbers'.2.2 y hy rfl
      have hown := hrefers.2.2 app happ.1 x hx.1 rfl happId.symm y hy rfl
      exact refines_addPermissionToRole hx
        ⟨hy, (c.same_iff_value _ _).mp hkey, app, happ, hown⟩
  | removePermissionFromRole a k p =>
      subst hw
      exact refines_removePermissionFromRole hdb a k p

/-- And it does nothing that can be seen if it refers to what is gone. -/
theorem view_of_not_finds (hdb : db.Founded) (hfinds : ¬ w.Finds db) {now : DateTime} {rows : ℕ}
    {db' : Db c} (h : w.write now db = .ok (rows, db')) : db'.view = db.view := by
  have hdead : ∀ {appId}, ¬ db.FindsApp appId → ∀ a ∈ db.sysApps, a.id ≠ appId :=
    fun hnot a ha hid => hnot ⟨a, ha, hid⟩
  cases w with
  | insertRole appId n k d df =>
      obtain ⟨t', ht, rfl⟩ := inserted_eq_ok h
      exact Db.view_insertRole_dead hdb (hdead hfinds) ht
  | updateRole appId k n d df =>
      cases h
      exact Db.view_setRole_dead (hdead hfinds)
  | deleteRole appId k =>
      cases h
      exact Db.view_dropRole_dead (hdead hfinds)
  | insertPermission appId n k d =>
      obtain ⟨t', ht, rfl⟩ := inserted_eq_ok h
      exact Db.view_insertPermission_dead hdb (hdead hfinds) ht
  | updatePermission appId k n d =>
      cases h
      exact Db.view_setPermission_dead (hdead hfinds)
  | deletePermission appId k =>
      cases h
      exact Db.view_dropPermission_dead (hdead hfinds)
  | insertUserRole appId u roleId =>
      obtain ⟨t', ht, rfl⟩ := inserted_eq_ok h
      refine Db.view_insertUserRole_dead ?_ ht
      rintro k r x ⟨hx, -, app, happ, hown⟩ hid
      exact hfinds ⟨x, hx, hid, app, happ.1, hown.symm⟩
  | insertRolePermission roleId permId =>
      obtain ⟨t', ht, rfl⟩ := inserted_eq_ok h
      refine Db.view_insertRolePermission_dead ?_ ht
      rintro k r x p y ⟨hx, -, app, happ, hown⟩ hid hy hpid
      exact hfinds ⟨⟨x, hx, hid, app, happ.1, hown.symm⟩, y, hy.1, hpid⟩
  | _ => exact absurd trivial hfinds

end Refines

/-! ## Operations that run alone -/

section Apply
variable {t : ℤ} {db : Db c} {w : Statement} {op : DaoOp}

theorem numbers_of_mem {app : SysApp} (happ : app ∈ db.sysApps) {a : String}
    (hcode : c.same app.appCode a = true) : db.Numbers app.id a := by
  refine ⟨Table.id_lt_next happ, fun app' happ' hid => ?_⟩
  rw [Table.eq_of_id happ' happ hid]
  exact hcode

theorem numbersRole_of_mem {a k : String} {role : SysRole}
    (h : role ∈ db.snapshot.selectRole a k) : db.NumbersRole role.id role.appId a k ∧
      db.FindsApp role.appId ∧ role ∈ db.sysRoles := by
  obtain ⟨hrole, hkey, app, happ, hid, hcode⟩ := (Snapshot.mem_selectRole _).mp h
  rw [hid]
  refine ⟨⟨Table.id_lt_next hrole, numbers_of_mem happ hcode, fun r hr hrid => ?_⟩,
    ⟨app, happ, rfl⟩, hrole⟩
  rw [Table.eq_of_id hr hrole hrid]
  exact ⟨hid, hkey⟩

theorem numbersPermission_of_mem {a p : String} {perm : SysPermission}
    (h : perm ∈ db.snapshot.selectPermission a p) :
    db.NumbersPermission perm.id perm.appId a p ∧ perm ∈ db.sysPermissions := by
  obtain ⟨hperm, hkey, app, happ, hid, hcode⟩ := (Snapshot.mem_selectPermission _).mp h
  rw [hid]
  refine ⟨⟨Table.id_lt_next hperm, numbers_of_mem happ hcode, fun q hq hqid => ?_⟩, hperm⟩
  rw [Table.eq_of_id hq hperm hqid]
  exact ⟨hid, hkey⟩

/-- What an operation that runs alone sends refers to what it has just looked up. -/
theorem aims_of_plan (hidle : op.idle = false) (h : op.plan t db = some w) :
    op.Aims t db w ∧ w.Refers db ∧ w.Finds db := by
  have happ : ∀ {a n}, (db.snapshot.selectAppId a).head? = some n →
      db.Numbers n a ∧ n < db.sysApps.next ∧ db.FindsApp n := by
    intro a n hn
    obtain ⟨app, happ, hcode, rfl⟩ := exists_app_of_head? hn
    exact ⟨numbers_of_mem happ hcode, Table.id_lt_next happ, app, happ, rfl⟩
  cases op with
  | createApp | deleteApp | removeRoleFromUser | removePermissionFromRole =>
      cases h
      exact ⟨rfl, trivial, trivial⟩
  | updateApp =>
      cases h
      exact ⟨⟨hidle, rfl⟩, trivial, trivial⟩
  | createRole =>
      obtain ⟨n, hn, rfl⟩ := Option.map_eq_some_iff.mp h
      obtain ⟨hnumbers, hlt, hfound⟩ := happ hn
      exact ⟨⟨n, hnumbers, rfl⟩, hlt, hfound⟩
  | updateRole | deleteRole | createPermission | updatePermission | deletePermission =>
      obtain ⟨n, hn, rfl⟩ := Option.map_eq_some_iff.mp h
      obtain ⟨hnumbers, -, hfound⟩ := happ hn
      exact ⟨⟨n, hnumbers, rfl⟩, trivial, hfound⟩
  | assignRoleToUser a u k =>
      obtain ⟨role, hrole, rfl⟩ := Option.map_eq_some_iff.mp h
      obtain ⟨hnumbers, hfound, hmem⟩ := numbersRole_of_mem (List.mem_of_head? hrole)
      exact ⟨⟨role.id, role.appId, hnumbers, rfl⟩,
        ⟨hnumbers.1, fun r hr hid => (hnumbers.2.2 r hr hid).1⟩, role, hmem, rfl, hfound⟩
  | addPermissionToRole a k p =>
      obtain ⟨role, hrole, h⟩ := Option.bind_eq_some_iff.mp h
      obtain ⟨perm, hperm, rfl⟩ := Option.map_eq_some_iff.mp h
      obtain ⟨hnumbers, hfound, hmem⟩ := numbersRole_of_mem (List.mem_of_head? hrole)
      obtain ⟨hnumbers', hmem'⟩ := numbersPermission_of_mem (List.mem_of_head? hperm)
      refine ⟨⟨_, _, _, _, hnumbers, hnumbers', rfl⟩, ⟨hnumbers.1, hnumbers'.1, ?_⟩,
        ⟨role, hmem, rfl, hfound⟩, perm, hmem', rfl⟩
      intro app happ r hr hrid hown q hq hqid
      obtain rfl : r = role := Table.eq_of_id hr hmem hrid
      obtain rfl : q = perm := Table.eq_of_id hq hmem' hqid
      obtain ⟨-, -, app', happ', hid', hcode'⟩ :=
        (Snapshot.mem_selectPermission _).mp (List.mem_of_head? hperm)
      rw [hid', db.app_unique happ happ' (hnumbers.2.1.2 app happ hown.symm) hcode']

/-- An operation that finds no row to refer to is an edit that is refused. -/
theorem not_accepts_of_plan (hidle : op.idle = false) (h : op.plan t db = none) :
    ¬ (db.view (c.value op.storedCode)).Accepts (op.edit t) := by
  have happ : ∀ {a}, (db.snapshot.selectAppId a).head? = none →
      ∀ i, ¬ (db.view (c.value a)).info i := by
    rintro a hnone i ⟨app, happ, -⟩
    rw [db.head?_selectAppId happ.1 happ.same] at hnone
    cases hnone
  have hrole : ∀ {a k}, (db.snapshot.selectRole a k).head? = none →
      ∀ j, ¬ (db.view (c.value a)).role (c.value k) j := by
    rintro a k hnone j ⟨x, ⟨hx, hkey, app, happ, hid⟩, -⟩
    rw [db.head?_selectRole happ.1 happ.same hx hid ((c.same_iff_value _ _).mpr hkey)] at hnone
    cases hnone
  cases op with
  | createApp | updateApp | deleteApp | removeRoleFromUser | removePermissionFromRole => cases h
  | createRole =>
      intro hacc
      rw [edit, accepts_fitting] at hacc
      obtain ⟨i, hi⟩ := hacc.2.1
      exact happ (Option.map_eq_none_iff.mp h) i hi
  | updateRole =>
      rintro ⟨⟨i, hi⟩, -⟩
      exact happ (Option.map_eq_none_iff.mp h) i hi
  | deleteRole =>
      rintro ⟨j, hj⟩
      obtain ⟨i, hi⟩ := (db.view _).info_of_role hj
      exact happ (Option.map_eq_none_iff.mp h) i hi
  | createPermission =>
      intro hacc
      rw [edit, accepts_fitting] at hacc
      obtain ⟨i, hi⟩ := hacc.2.1
      exact happ (Option.map_eq_none_iff.mp h) i hi
  | updatePermission =>
      rintro ⟨⟨i, hi⟩, -⟩
      exact happ (Option.map_eq_none_iff.mp h) i hi
  | deletePermission =>
      rintro ⟨j, hj⟩
      obtain ⟨i, hi⟩ := (db.view _).info_of_perm hj
      exact happ (Option.map_eq_none_iff.mp h) i hi
  | assignRoleToUser =>
      intro hacc
      rw [edit, accepts_fitting] at hacc
      obtain ⟨j, hj⟩ := hacc.2.1
      exact hrole (Option.map_eq_none_iff.mp h) j hj
  | addPermissionToRole a k p =>
      rintro ⟨⟨j, hj⟩, ⟨j', y, ⟨hy, hkey, app, happ', hid⟩, -⟩, -⟩
      rw [plan, Option.bind_eq_none_iff] at h
      cases hfound : (db.snapshot.selectRole a k).head? with
      | none => exact hrole hfound j hj
      | some role =>
          have hnone := Option.map_eq_none_iff.mp (h role hfound)
          have hcode : c.same app.appCode a = true := happ'.same
          rw [db.head?_selectPermission happ'.1 hcode hy hid
            ((c.same_iff_value _ _).mpr hkey)] at hnone
          cases hnone

/-- **An operation that runs alone does to the view what its edit does**, and succeeds when
that is accepted. -/
theorem apply_refines (hdb : db.Founded) (t : ℤ) (op : DaoOp) :
    (op.apply t db).2.view = Rbac.perform db.view (c.value op.storedCode, op.edit t) ∧
      ((op.apply t db).1 = true ↔ (db.view (c.value op.storedCode)).Accepts (op.edit t)) := by
  cases hidle : op.idle with
  | true =>
      have hedit : (op.edit t : ViewEdit c) = .answer true := by
        cases op with
        | updateApp a n d st => exact if_pos hidle
        | _ => cases hidle
      rw [hedit, apply, hidle, if_pos rfl]
      exact ⟨(Rbac.perform_eq_self rfl).symm, by simp [Rbac.Accepts]⟩
  | false =>
      cases hplan : op.plan t db with
      | none =>
          have hnot := not_accepts_of_plan hidle hplan
          have happly : op.apply t db = (false, db) := by simp [apply, hidle, hplan]
          rw [happly, Rbac.perform_of_refused hnot]
          exact ⟨rfl, by simpa using hnot⟩
      | some w =>
          obtain ⟨haims, hrefers, hfinds⟩ := aims_of_plan hidle hplan
          have h := refines hdb haims hrefers hfinds
          rw [apply_of_plan hidle hplan]
          exact ⟨h.view, h.accepts⟩

end Apply
end DaoOp
end SiqiAuth
