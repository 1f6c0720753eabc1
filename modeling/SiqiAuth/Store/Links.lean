import SiqiAuth.Store.OneApp

/-!
# Links between existing rows

A binding across apps can only be left behind by an app that was deleted: the role that
`addPermissionToRole` has found belongs to the app with the code it was given, for as long
as that app exists.  So after every interleaving of concurrent operations, whatever starts
from an app, a role of it, an assignment or a binding of the role, stays in the app.

## Main definitions

* `Db.Linked` — the links that start from an existing app stay in it.
* `Statement.Yields` — what a statement does to the rows that links are made of.
* `Statement.Refers`, `Progress.Refers` — what an operation has looked up is still so.
* `Db.Reachable` — the tables after some interleaving.
* `linked_run`, `Db.Reachable.linked` — the links after every interleaving.
-/

namespace SiqiAuth
open Lib

variable {c : Collation}

/-- An assignment of an existing role is in the app of the role, and a binding of a role
whose app exists is to a permission of that app. -/
structure Db.Linked (db : Db c) : Prop where
  role_lt : ∀ r ∈ db.sysRoles, r.appId < db.sysApps.next
  assignment_lt : ∀ ur ∈ db.sysUserRoles, ur.roleId < db.sysRoles.next
  binding_lt : ∀ rp ∈ db.sysRolePermissions,
    rp.roleId < db.sysRoles.next ∧ rp.permId < db.sysPermissions.next
  assignment : ∀ ur ∈ db.sysUserRoles, ∀ r ∈ db.sysRoles, r.id = ur.roleId → r.appId = ur.appId
  binding : ∀ rp ∈ db.sysRolePermissions, ∀ app ∈ db.sysApps, ∀ r ∈ db.sysRoles,
    r.id = rp.roleId → r.appId = app.id → ∀ p ∈ db.sysPermissions, p.id = rp.permId →
      p.appId = app.id

/-- Tables that agree with a record of owners are linked. -/
theorem Owners.Consistent.linked {o : Owners} {db : Db c} (ho : o.Consistent db) : db.Linked where
  role_lt := by
    intro r hr
    rw [← ho.role_appId r hr]
    exact ho.role_lt r.id (Table.id_lt_next hr)
  assignment_lt := ho.assignment_lt
  binding_lt := ho.binding_lt
  assignment := by
    intro ur hur r hr hid
    exact (ho.withinOneApp.assignment ur hur r hr hid.symm).symm
  binding := by
    intro rp hrp app _ r hr hid happ p hp hperm
    rw [← ho.withinOneApp.binding rp hrp r hr p hp hid.symm hperm.symm]
    exact happ

/-! ## What a statement does -/

/-- Row numbers are only ever issued; a row has the number, the app and the code of one that
was there before, or a number that was not issued before; and an assignment or a binding was
there before, or is what the statement inserts. -/
structure Statement.Yields (w : Statement) (db db' : Db c) : Prop where
  apps_le : db.sysApps.next ≤ db'.sysApps.next
  roles_le : db.sysRoles.next ≤ db'.sysRoles.next
  perms_le : db.sysPermissions.next ≤ db'.sysPermissions.next
  app : ∀ a' ∈ db'.sysApps, a'.id < db.sysApps.next →
    ∃ a ∈ db.sysApps, a.id = a'.id ∧ a.appCode = a'.appCode
  role : ∀ r' ∈ db'.sysRoles, r'.id < db.sysRoles.next →
    ∃ r ∈ db.sysRoles, r.id = r'.id ∧ r.appId = r'.appId
  newRole : ∀ r' ∈ db'.sysRoles, db.sysRoles.next ≤ r'.id →
    ∃ n k d df, w = .insertRole r'.appId n k d df
  perm : ∀ p' ∈ db'.sysPermissions, p'.id < db.sysPermissions.next →
    ∃ p ∈ db.sysPermissions, p.id = p'.id ∧ p.appId = p'.appId
  userRole : ∀ ur ∈ db'.sysUserRoles, ur ∈ db.sysUserRoles ∨
    ∃ u, w = .insertUserRole ur.appId u ur.roleId
  rolePermission : ∀ rp ∈ db'.sysRolePermissions, rp ∈ db.sysRolePermissions ∨
    w = .insertRolePermission rp.roleId rp.permId

namespace Statement
variable {w : Statement} {db db' : Db c} {now : DateTime} {rows : ℕ}

/-- A statement that leaves everything as it is. -/
theorem Yields.refl (w : Statement) (db : Db c) : w.Yields db db where
  apps_le := le_refl _
  roles_le := le_refl _
  perms_le := le_refl _
  app := fun a ha _ => ⟨a, ha, rfl, rfl⟩
  role := fun r hr _ => ⟨r, hr, rfl, rfl⟩
  newRole := by
    intro r hr hle
    have hlt : r.id < db.sysRoles.next := Table.id_lt_next hr
    omega
  perm := fun p hp _ => ⟨p, hp, rfl, rfl⟩
  userRole := fun _ => Or.inl
  rolePermission := fun _ => Or.inl

/-- **What a statement does**, as far as links are concerned. -/
theorem yields (h : w.write now db = .ok (rows, db')) : w.Yields db db' := by
  have hrefl := Yields.refl w db
  cases w with
  | insertApp n a s d =>
      obtain ⟨t, ht, rfl⟩ := inserted_eq_ok h
      obtain ⟨-, hnext, -⟩ := Table.insert_eq_some ht
      refine { hrefl with apps_le := by rw [hnext]; omega, app := ?_ }
      intro a' ha' hlt
      rcases (Table.mem_insert_iff ht a').mp ha' with ha | rfl
      · exact hrefl.app a' ha hlt
      · exact absurd hlt (lt_irrefl _)
  | updateApp a n d st =>
      cases h
      exact { hrefl with app := fun a' ha' _ => Db.exists_of_mem_setApp ha' }
  | deleteApp a =>
      cases h
      exact { hrefl with app := fun a' ha' => hrefl.app a' (Table.mem_delete.mp ha').1 }
  | insertRole appId n k d df =>
      obtain ⟨t, ht, rfl⟩ := inserted_eq_ok h
      obtain ⟨-, hnext, -⟩ := Table.insert_eq_some ht
      refine { hrefl with roles_le := by rw [hnext]; omega, role := ?_, newRole := ?_ }
      · intro r' hr' hlt
        rcases (Table.mem_insert_iff ht r').mp hr' with hr | rfl
        · exact hrefl.role r' hr hlt
        · exact absurd hlt (lt_irrefl _)
      · intro r' hr' hle
        rcases (Table.mem_insert_iff ht r').mp hr' with hr | rfl
        · exact hrefl.newRole r' hr hle
        · exact ⟨n, k, d, df, rfl⟩
  | updateRole appId k n d df =>
      cases h
      refine { hrefl with role := ?_, newRole := ?_ }
      · intro r' hr' _
        obtain ⟨r, hr, hid, happ, -⟩ := Db.exists_of_mem_setRole hr'
        exact ⟨r, hr, hid, happ⟩
      · intro r' hr' hle
        obtain ⟨r, hr, hid, -⟩ := Db.exists_of_mem_setRole hr'
        have hlt : r.id < db.sysRoles.next := Table.id_lt_next hr
        omega
  | deleteRole appId k =>
      cases h
      exact { hrefl with
        role := fun r' hr' => hrefl.role r' (Table.mem_delete.mp hr').1
        newRole := fun r' hr' => hrefl.newRole r' (Table.mem_delete.mp hr').1 }
  | insertPermission appId n k d =>
      obtain ⟨t, ht, rfl⟩ := inserted_eq_ok h
      obtain ⟨-, hnext, -⟩ := Table.insert_eq_some ht
      refine { hrefl with perms_le := by rw [hnext]; omega, perm := ?_ }
      intro p' hp' hlt
      rcases (Table.mem_insert_iff ht p').mp hp' with hp | rfl
      · exact hrefl.perm p' hp hlt
      · exact absurd hlt (lt_irrefl _)
  | updatePermission appId k n d =>
      cases h
      refine { hrefl with perm := ?_ }
      intro p' hp' _
      obtain ⟨p, hp, hid, happ, -⟩ := Db.exists_of_mem_setPermission hp'
      exact ⟨p, hp, hid, happ⟩
  | deletePermission appId k =>
      cases h
      exact { hrefl with perm := fun p' hp' => hrefl.perm p' (Table.mem_delete.mp hp').1 }
  | insertUserRole appId u roleId =>
      obtain ⟨t, ht, rfl⟩ := inserted_eq_ok h
      refine { hrefl with userRole := ?_ }
      intro ur hur
      rcases (Table.mem_insert_iff ht ur).mp hur with hur | rfl
      · exact Or.inl hur
      · exact Or.inr ⟨u, rfl⟩
  | deleteUserRole a u k =>
      cases h
      exact { hrefl with userRole := fun ur hur => Or.inl (Table.mem_delete.mp hur).1 }
  | insertRolePermission roleId permId =>
      obtain ⟨t, ht, rfl⟩ := inserted_eq_ok h
      refine { hrefl with rolePermission := ?_ }
      intro rp hrp
      rcases (Table.mem_insert_iff ht rp).mp hrp with hrp | rfl
      · exact Or.inl hrp
      · exact Or.inr rfl
  | deleteRolePermission a k p =>
      cases h
      exact { hrefl with rolePermission := fun rp hrp => Or.inl (Table.mem_delete.mp hrp).1 }
  | insertAuditLog e =>
      obtain ⟨t, -, rfl⟩ := inserted_eq_ok h
      exact { hrefl with }

/-- What an inserting statement refers to, as far as it exists, is in the app it should
be in. -/
def Refers (db : Db c) : Statement → Prop
  | .insertRole appId .. => appId < db.sysApps.next
  | .insertUserRole appId _ roleId => roleId < db.sysRoles.next ∧
      ∀ r ∈ db.sysRoles, r.id = roleId → r.appId = appId
  | .insertRolePermission roleId permId => roleId < db.sysRoles.next ∧
      permId < db.sysPermissions.next ∧ ∀ app ∈ db.sysApps, ∀ r ∈ db.sysRoles, r.id = roleId →
        r.appId = app.id → ∀ p ∈ db.sysPermissions, p.id = permId → p.appId = app.id
  | _ => True

namespace Yields

/-- A role and a permission that have been issued and the app of the role are what they
were. -/
theorem binding (h : w.Yields db db') (hdb : db.Linked) {n m : ℕ} (hn : n < db.sysRoles.next)
    (hm : m < db.sysPermissions.next)
    (hold : ∀ app ∈ db.sysApps, ∀ r ∈ db.sysRoles, r.id = n → r.appId = app.id →
      ∀ p ∈ db.sysPermissions, p.id = m → p.appId = app.id) :
    ∀ app ∈ db'.sysApps, ∀ r ∈ db'.sysRoles, r.id = n → r.appId = app.id →
      ∀ p ∈ db'.sysPermissions, p.id = m → p.appId = app.id := by
  intro app' happ' r' hr' hid hrapp p' hp' hperm
  obtain ⟨r, hr, hrid, hrappId⟩ := h.role r' hr' (by omega)
  obtain ⟨p, hp, hpid, hpappId⟩ := h.perm p' hp' (by omega)
  have hlt := hdb.role_lt r hr
  obtain ⟨app, happ, happId, -⟩ := h.app app' happ' (by omega)
  have happ := hold app happ r hr (by omega) (by omega) p hp (by omega)
  omega

/-- Links stay as they should be if the statement refers to what it should. -/
theorem linked (h : w.Yields db db') (hdb : db.Linked) (hw : w.Refers db) : db'.Linked := by
  have hroles := h.roles_le
  have hperms := h.perms_le
  have happs := h.apps_le
  constructor
  · intro r' hr'
    by_cases hlt : r'.id < db.sysRoles.next
    · obtain ⟨r, hr, -, happ⟩ := h.role r' hr' hlt
      have hrlt := hdb.role_lt r hr
      omega
    · obtain ⟨n, k, d, df, rfl⟩ := h.newRole r' hr' (by omega)
      simp only [Refers] at hw
      omega
  · intro ur hur
    rcases h.userRole ur hur with hold | ⟨u, rfl⟩
    · have hlt := hdb.assignment_lt ur hold
      omega
    · simp only [Refers] at hw
      omega
  · intro rp hrp
    rcases h.rolePermission rp hrp with hold | rfl
    · have hlt := hdb.binding_lt rp hold
      omega
    · simp only [Refers] at hw
      omega
  · intro ur hur r' hr' hid
    rcases h.userRole ur hur with hold | ⟨u, rfl⟩
    · have hlt := hdb.assignment_lt ur hold
      obtain ⟨r, hr, hrid, happ⟩ := h.role r' hr' (by omega)
      rw [← happ]
      exact hdb.assignment ur hold r hr (by omega)
    · simp only [Refers] at hw
      obtain ⟨r, hr, hrid, happ⟩ := h.role r' hr' (by omega)
      rw [← happ]
      exact hw.2 r hr (by omega)
  · intro rp hrp
    rcases h.rolePermission rp hrp with hold | rfl
    · have hlt := hdb.binding_lt rp hold
      exact h.binding hdb hlt.1 hlt.2 (hdb.binding rp hold)
    · exact h.binding hdb hw.1 hw.2.1 hw.2.2

/-- What another statement refers to stays as it should be. -/
theorem refers (h : w.Yields db db') (hdb : db.Linked) {w' : Statement} (hw' : w'.Refers db) :
    w'.Refers db' := by
  have hroles := h.roles_le
  have hperms := h.perms_le
  have happs := h.apps_le
  cases w' with
  | insertRole =>
      simp only [Refers] at hw' ⊢
      omega
  | insertUserRole appId u roleId =>
      simp only [Refers] at hw' ⊢
      refine ⟨by omega, fun r' hr' hid => ?_⟩
      obtain ⟨r, hr, hrid, happ⟩ := h.role r' hr' (by omega)
      rw [← happ]
      exact hw'.2 r hr (by omega)
  | insertRolePermission roleId permId =>
      simp only [Refers] at hw' ⊢
      exact ⟨by omega, by omega, h.binding hdb hw'.1 hw'.2.1 hw'.2.2⟩
  | _ => trivial

end Yields
end Statement

/-! ## Operations in steps -/

namespace Progress
variable {op : DaoOp} {wallClock : ℤ} {out : Outcome} {w : Statement} {db db' : Db c}

/-- What the operation has looked up is still so, as far as it exists: the role it has
found is in the app it was found in, and this has the code that the operation was given. -/
def Refers (op : DaoOp) (db : Db c) : Progress → Prop
  | selectPermission role => role.id < db.sysRoles.next ∧ role.appId < db.sysApps.next ∧
      (∀ r ∈ db.sysRoles, r.id = role.id → r.appId = role.appId) ∧
        ∀ app ∈ db.sysApps, app.id = role.appId → c.same app.appCode op.appCode = true
  | send w => w.Refers db
  | _ => True

/-- What an operation has looked up stays so, whatever statement is sent. -/
theorem refers_of_yields (h : w.Yields db db') (hdb : db.Linked) {p : Progress}
    (hp : p.Refers op db) : p.Refers op db' := by
  have hroles := h.roles_le
  have happs := h.apps_le
  cases p with
  | selectPermission role =>
      simp only [Refers] at hp ⊢
      obtain ⟨hlt, hlt', hrole, hcode⟩ := hp
      refine ⟨by omega, by omega, fun r' hr' hid => ?_, fun app' happ' hid => ?_⟩
      · obtain ⟨r, hr, hrid, happ⟩ := h.role r' hr' (by omega)
        rw [← happ]
        exact hrole r hr (by omega)
      · obtain ⟨app, happ, happId, hsame⟩ := h.app app' happ' (by omega)
        rw [← hsame]
        exact hcode app happ (by omega)
  | send w => exact h.refers hdb hp
  | _ => trivial

theorem refers_begin : (op.begin wallClock).Refers op db := by
  cases op with
  | updateApp a n d st =>
      simp only [DaoOp.begin]
      split <;> trivial
  | _ => trivial

theorem refers_withAppId {app : SysApp} (happ : app ∈ db.sysApps) :
    (op.withAppId app.id).Refers op db := by
  cases op with
  | createRole => exact Table.id_lt_next happ
  | _ => trivial

theorem refers_withRole (hdb : db.Linked) {role : SysRole} (hrole : role ∈ op.roles db.snapshot) :
    (op.withRole role).Refers op db := by
  have hfound : ∀ a k, role ∈ db.snapshot.selectRole a k → role.id < db.sysRoles.next ∧
      role.appId < db.sysApps.next ∧ (∀ r ∈ db.sysRoles, r.id = role.id → r.appId = role.appId) ∧
        ∀ app ∈ db.sysApps, app.id = role.appId → c.same app.appCode a = true := by
    intro a k hmem
    obtain ⟨hmem, -, app, happ, hid, hcode⟩ := (Snapshot.mem_selectRole _).mp hmem
    refine ⟨Table.id_lt_next hmem, hdb.role_lt role hmem, fun r hr hrid => ?_,
      fun app' happ' hid' => ?_⟩
    · rw [Table.eq_of_id hr hmem hrid]
    · rw [Table.eq_of_id happ' happ (hid'.trans hid)]
      exact hcode
  cases op with
  | assignRoleToUser a u k =>
      obtain ⟨hlt, -, happ, -⟩ := hfound a k hrole
      exact ⟨hlt, happ⟩
  | addPermissionToRole a k p => exact hfound a k hrole
  | _ => trivial

/-- The app of the role, if it still exists, is the one that the permission was found in. -/
theorem refers_withPermission {role : SysRole} {perm : SysPermission}
    (hrole : (selectPermission role).Refers op db) (hperm : perm ∈ op.permissions db.snapshot) :
    (DaoOp.withPermission role perm).Refers op db := by
  cases op with
  | addPermissionToRole a k p =>
      obtain ⟨hmem, -, app', happ', hid', hcode'⟩ := (Snapshot.mem_selectPermission _).mp hperm
      obtain ⟨hlt, -, happId, hcode⟩ := hrole
      refine ⟨hlt, Table.id_lt_next hmem, ?_⟩
      intro app happ r hr hrid hrapp q hq hqid
      have hown := happId r hr hrid
      have hsame : c.same app.appCode a = true := hcode app happ (by omega)
      rw [Table.eq_of_id hq hmem hqid, hid', db.app_unique happ happ' hsame hcode']
  | _ => simp [DaoOp.permissions] at hperm

/-- **A step keeps the links**, and what every operation has looked up stays so. -/
theorem next_linked (op : DaoOp) (wallClock : ℤ) (out : Outcome) {p : Progress}
    (hdb : db.Linked) (hp : p.Refers op db) :
    (p.next op wallClock out db).2.Linked ∧
      (p.next op wallClock out db).1.Refers op (p.next op wallClock out db).2 ∧
      ∀ op' (p' : Progress), p'.Refers op' db → p'.Refers op' (p.next op wallClock out db).2 := by
  cases p with
  | called =>
      refine ⟨hdb, ?_, fun _ _ => id⟩
      simp only [next]
      split
      · exact refers_begin
      · trivial
  | getAppId =>
      refine ⟨hdb, ?_, fun _ _ => id⟩
      simp only [next]
      split <;> trivial
  | selectAppId =>
      refine ⟨hdb, ?_, fun _ _ => id⟩
      simp only [next]
      rcases lookup_cases out (db.snapshot.selectAppId op.appCode) fun appId => op.withAppId appId
        with hstop | ⟨appId, happId, hgo⟩
      · rw [hstop]
        trivial
      · obtain ⟨app, happ, -, rfl⟩ := (Snapshot.mem_selectAppId _).mp happId
        rw [hgo]
        exact refers_withAppId happ
  | selectRole =>
      refine ⟨hdb, ?_, fun _ _ => id⟩
      simp only [next]
      rcases lookup_cases out (op.roles db.snapshot) fun role => op.withRole role
        with hstop | ⟨role, hrole, hgo⟩
      · rw [hstop]
        trivial
      · rw [hgo]
        exact refers_withRole hdb hrole
  | selectPermission role =>
      refine ⟨hdb, ?_, fun _ _ => id⟩
      simp only [next]
      rcases lookup_cases out (op.permissions db.snapshot) (DaoOp.withPermission role)
        with hstop | ⟨perm, hperm, hgo⟩
      · rw [hstop]
        trivial
      · rw [hgo]
        exact refers_withPermission hp hperm
  | send w =>
      by_cases hpass : out.completes = true
      · cases hexec : w.exec (dateTime wallClock) db with
        | error e =>
            simp only [next, hpass, hexec, if_true]
            exact ⟨hdb, trivial, fun _ _ => id⟩
        | ok x =>
            obtain ⟨rows, db'⟩ := x
            have hyields := Statement.yields (Statement.write_of_exec hexec)
            simp only [next, hpass, hexec, if_true]
            exact ⟨hyields.linked hdb hp, trivial, fun _ _ => refers_of_yields hyields hdb⟩
      · simp only [next, hpass]
        exact ⟨hdb, trivial, fun _ _ => id⟩
  | returned r => exact ⟨hdb, trivial, fun _ _ => id⟩

/-- No operation has looked up anything in the audit log. -/
theorem refers_log (op : DaoOp) (db : Db c) (t : Table sysAuditLogsSchema) (p : Progress) :
    p.Refers op { db with sysAuditLogs := t } ↔ p.Refers op db := by
  cases p with
  | send w => cases w <;> exact Iff.rfl
  | _ => exact Iff.rfl

end Progress

/-! ## Every interleaving -/

/-- A thread that takes its next step keeps the links, and what every thread has looked up
stays so. -/
theorem DaoThread.next_linked {db : Db c} {t : DaoThread} (hdb : db.Linked)
    (ht : t.progress.Refers t.call.op db) : (t.next db).2.Linked ∧
      (t.next db).1.progress.Refers t.call.op (t.next db).2 ∧
      ∀ t' : DaoThread, t'.progress.Refers t'.call.op db →
        t'.progress.Refers t'.call.op (t.next db).2 := by
  obtain ⟨hlinked, hrefers, hothers⟩ := Progress.next_linked t.call.op t.call.wallClock
    (t.call.outcomes.headD (.answered [])) hdb ht
  exact ⟨hlinked, hrefers, fun t' => hothers t'.call.op t'.progress⟩

theorem Db.linked_initial {installed : ℤ} {db : Db c} (hdb : db = Db.initial installed) :
    db.Linked := by
  obtain ⟨o, ho⟩ := Db.exists_owners (σ := ⟨db, "", [], 0⟩) hdb []
  exact ho.linked

/-- A move on the tables: one of the scheduler, or the audit log is written to. -/
inductive DbMove
  | dao (x : Move DaoCall)
  | log (t : Table sysAuditLogsSchema)

/-- What a move does. -/
def Db.move (p : Pool (Db c) DaoThread) : DbMove → Pool (Db c) DaoThread
  | .dao x => Db.step p x
  | .log t => { p with shared := { p.shared with sysAuditLogs := t } }

/-- The tables after some interleaving of concurrent operations that began on the tables of
`scripts/init.sql`, whatever has been written to the audit log in between. -/
def Db.Reachable (db : Db c) : Prop :=
  ∃ installed start, start = Db.initial installed ∧ ∃ l, db = (run Db.move ⟨start, []⟩ l).shared

/-- **After every interleaving of the statements of concurrent operations, the links that
start from an existing app stay in it.** -/
theorem linked_run {p : Pool (Db c) DaoThread}
    (hp : p.shared.Linked ∧ ∀ t ∈ p.threads, t.progress.Refers t.call.op p.shared)
    (l : List DbMove) : (run Db.move p l).shared.Linked := by
  refine (run_induction (P := fun p : Pool (Db c) DaoThread =>
    p.shared.Linked ∧ ∀ t ∈ p.threads, t.progress.Refers t.call.op p.shared) ?_ l hp).1
  intro p x hp
  cases x with
  | dao x =>
      have hmeets : Meets Db.step (fun _ _ => True) p [x] := ⟨trivial, trivial⟩
      obtain ⟨-, hnext⟩ := Pool.run_ghost (J := fun (_ : Unit) (db : Db c) => db.Linked)
        (T := fun _ db t => t.progress.Refers t.call.op db) (fun _ _ _ _ => trivial)
        (fun p _ t _ _ _ hlinked ht => ⟨(), DaoThread.next_linked hlinked ht⟩) ⟨(), hp⟩ hmeets
      exact hnext
  | log t =>
      have hlinked : ({ p.shared with sysAuditLogs := t } : Db c).Linked := { hp.1 with }
      exact ⟨hlinked, fun u hu => (Progress.refers_log _ _ _ _).mpr (hp.2 u hu)⟩

namespace Db.Reachable
variable {db : Db c}

theorem linked (h : db.Reachable) : db.Linked := by
  obtain ⟨installed, start, hstart, l, rfl⟩ := h
  exact linked_run ⟨Db.linked_initial hstart, fun t ht => by cases ht⟩ l

theorem initial {installed : ℤ} (h : db = Db.initial installed) : db.Reachable :=
  ⟨installed, db, h, [], rfl⟩

theorem log (h : db.Reachable) (t : Table sysAuditLogsSchema) :
    ({ db with sysAuditLogs := t } : Db c).Reachable := by
  obtain ⟨installed, start, hstart, l, rfl⟩ := h
  refine ⟨installed, start, hstart, l ++ [.log t], ?_⟩
  rw [run_append]
  rfl

theorem run_dao (p : Pool (Db c) DaoThread) (l : List (Move DaoCall)) :
    run Db.move p (l.map .dao) = run Db.step p l := by
  induction l generalizing p with
  | nil => rfl
  | cons x l ih => exact ih _

/-- An operation that runs alone prolongs an interleaving. -/
theorem run {σ : DaoState c} (h : σ.db.Reachable) (op : DaoOp) :
    (op.run.run σ).2.db.Reachable := by
  obtain ⟨installed, start, hstart, l, hσ⟩ := h
  generalize hp : Lib.run Db.move ⟨start, []⟩ l = p at hσ
  obtain ⟨os, hsolo⟩ := solo_eq_call p ⟨op, σ.outcomes, σ.wallClock⟩ hσ
  refine ⟨installed, start, hstart, l ++ (Move.start ⟨op, σ.outcomes, σ.wallClock⟩ ::
    List.replicate 4 (.advance p.threads.length)).map .dao, ?_⟩
  rw [run_append, hp, run_dao, hsolo]
  rfl

end Db.Reachable

end SiqiAuth
