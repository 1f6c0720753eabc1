import SiqiAuth.Store.Links

/-!
# The four authorization edits

Assigning and unassigning a role, binding and unbinding a permission: each puts in one link
between rows that stay as they are, or takes one out.  What they do to the decisions of
`checkPermission` follows from that; and an edit followed by its inverse puts back what was
there.

## Main definitions

* `Db.checkPermission`, `Db.getRolePermissions` — what these functions answer on some tables.
* `Link`, `Db.Has` — an assignment or a binding, and whether the tables have it.
* `DaoOp.Names`, `DaoOp.Edits` — the link that an edit is about, and what it does to it.
* `edits_exact` — what a successful edit does, row by row and decision by decision.
-/

namespace SiqiAuth
open Lib

variable {c : Collation}

/-! ## Answers -/

namespace Db

/-- What `checkPermission` answers on these tables when nothing fails. -/
def checkPermission (db : Db c) (a u p : String) : Bool :=
  ((PermissionDAO.checkPermission a u p "").run ⟨db, "", [], 0⟩).1

/-- What `getRolePermissions` answers on these tables when nothing fails. -/
def getRolePermissions (db : Db c) (a k : String) : List String :=
  ((PermissionDAO.getRolePermissions a k).run ⟨db, "", [], 0⟩).1

end Db

/-- Whatever else the state is, an undisturbed `checkPermission` answers by the tables. -/
theorem checkPermission_of_healthy {σ : DaoState c} (hσ : σ.Healthy) (a u p res : String) :
    ((PermissionDAO.checkPermission a u p res).run σ).1 = σ.db.checkPermission a u p := by
  have hquiet : (⟨σ.db, "", [], 0⟩ : DaoState c).Healthy := fun o ho => by cases ho
  rw [Bool.eq_iff_iff, (PermissionDAO.checkPermission_reads a u p res).result hσ]
  exact ((PermissionDAO.checkPermission_reads a u p "").result hquiet).symm

/-! ## Links -/

/-- `app` has the code, and `role` is its role with the key. -/
structure Db.NamesRole (db : Db c) (a k : String) (app : SysApp) (role : SysRole) : Prop where
  app_mem : app ∈ db.sysApps
  code : c.same app.appCode a = true
  role_mem : role ∈ db.sysRoles
  appId : role.appId = app.id
  key : c.same role.roleKey k = true

/-- `perm` is the permission of `app` with the key. -/
structure Db.NamesPermission (db : Db c) (app : SysApp) (p : String) (perm : SysPermission) :
    Prop where
  perm_mem : perm ∈ db.sysPermissions
  appId : perm.appId = app.id
  key : c.same perm.permKey p = true

/-- An assignment or a binding, by the row numbers it goes between. -/
inductive Link
  | assignment (appId : ℕ) (userId : String) (roleId : ℕ)
  | binding (roleId permId : ℕ)

/-- Links that the unique keys take to be one. -/
def Link.Same (c : Collation) : Link → Link → Prop
  | assignment i u n, assignment i' u' n' => i = i' ∧ c.same u u' = true ∧ n = n'
  | binding n m, binding n' m' => n = n' ∧ m = m'
  | _, _ => False

namespace Db
variable {db db' : Db c} {a k p u : String} {app app' : SysApp} {role role' : SysRole}
  {perm perm' : SysPermission}

/-- The tables have the link. -/
def Has (db : Db c) : Link → Prop
  | .assignment i u n => ∃ ur ∈ db.sysUserRoles, ur.appId = i ∧ c.same ur.appUserId u = true ∧
      ur.roleId = n
  | .binding n m => ∃ rp ∈ db.sysRolePermissions, rp.roleId = n ∧ rp.permId = m

theorem NamesRole.unique (h : db.NamesRole a k app role) (h' : db.NamesRole a k app' role') :
    app = app' ∧ role = role' := by
  obtain rfl := db.app_unique h.app_mem h'.app_mem h.code h'.code
  refine ⟨rfl, Table.eq_of_clash h.role_mem h'.role_mem ?_⟩
  have hkey := c.same_trans _ _ _ h.key (c.same_comm h'.key)
  simp [sysRolesSchema, h.appId, h'.appId, hkey]

theorem NamesPermission.unique (h : db.NamesPermission app p perm)
    (h' : db.NamesPermission app p perm') : perm = perm' := by
  refine Table.eq_of_clash h.perm_mem h'.perm_mem ?_
  have hkey := c.same_trans _ _ _ h.key (c.same_comm h'.key)
  simp [sysPermissionsSchema, h.appId, h'.appId, hkey]

theorem NamesRole.head? (h : db.NamesRole a k app role) :
    (db.snapshot.selectRole a k).head? = some role :=
  db.head?_selectRole h.app_mem h.code h.role_mem h.appId h.key

theorem NamesPermission.head? (hrole : db.NamesRole a k app role)
    (h : db.NamesPermission app p perm) : (db.snapshot.selectPermission a p).head? = some perm :=
  db.head?_selectPermission hrole.app_mem hrole.code h.perm_mem h.appId h.key

/-- Whether the tables have a link does not depend on how it is spelt. -/
theorem has_congr {x y : Link} (h : x.Same c y) : db.Has x ↔ db.Has y := by
  cases x with
  | assignment i u n =>
      cases y with
      | assignment i' u' n' =>
          obtain ⟨rfl, hsame, rfl⟩ := h
          simp only [Has, c.same_congr_right hsame]
      | binding => exact h.elim
  | binding n m =>
      cases y with
      | assignment => exact h.elim
      | binding n' m' =>
          obtain ⟨rfl, rfl⟩ := h
          exact Iff.rfl

/-! ## Decisions by links -/

/-- `checkPermission` goes from an enabled app along an assignment and a binding. -/
theorem checkPermission_iff : db.checkPermission a u p = true ↔ ∃ app ∈ db.sysApps,
    c.same app.appCode a = true ∧ app.status = 1 ∧ ∃ n, db.Has (.assignment app.id u n) ∧
      ∃ perm ∈ db.sysPermissions, db.Has (.binding n perm.id) ∧ c.same perm.permKey p = true := by
  have hquiet : (⟨db, "", [], 0⟩ : DaoState c).Healthy := fun o ho => by cases ho
  rw [checkPermission, (PermissionDAO.checkPermission_reads a u p "").result hquiet,
    exists_selectCheckPermission_iff]
  constructor
  · rintro ⟨app, happ, hcode, hst, perm, ⟨hperm, ur, hur, hid, huser, rp, hrp, hrole, hpid⟩, hkey⟩
    exact ⟨app, happ, hcode, hst, ur.roleId, ⟨ur, hur, hid, huser, rfl⟩, perm, hperm,
      ⟨rp, hrp, hrole, hpid⟩, hkey⟩
  · rintro ⟨app, happ, hcode, hst, n, ⟨ur, hur, hid, huser, rfl⟩, perm, hperm,
      ⟨rp, hrp, hrole, hpid⟩, hkey⟩
    exact ⟨app, happ, hcode, hst, perm, ⟨hperm, ur, hur, hid, huser, rp, hrp, hrole, hpid⟩, hkey⟩

/-- `getRolePermissions` follows the bindings of the role. -/
theorem mem_getRolePermissions {key : String} : key ∈ db.getRolePermissions a k ↔
    ∃ app role, db.NamesRole a k app role ∧ ∃ perm ∈ db.sysPermissions,
      db.Has (.binding role.id perm.id) ∧ perm.permKey = key := by
  have hquiet : (⟨db, "", [], 0⟩ : DaoState c).Healthy := fun o ho => by cases ho
  have hperm := (PermissionDAO.getRolePermissions_reads a k).result hquiet
  rw [getRolePermissions, hperm.mem_iff]
  simp only [List.mem_map, List.mem_flatMap, Option.mem_toList]
  constructor
  · rintro ⟨x, ⟨n, hn, hx⟩, rfl⟩
    obtain ⟨app, happ, hcode, rfl⟩ := (Snapshot.mem_selectAppId _).mp (List.mem_of_head? hn)
    simp only [Snapshot.selectRolePermissions, List.mem_filter, mem_join, Bool.and_eq_true,
      beq_iff_eq] at hx
    obtain ⟨⟨⟨hrp, hrole, hrid⟩, hp, hpid⟩, happId, hkey⟩ := hx
    exact ⟨app, x.1.2, ⟨happ, hcode, hrole, happId, hkey⟩, x.2, hp, ⟨x.1.1, hrp, hrid, hpid⟩, rfl⟩
  · rintro ⟨app, role, h, perm, hp, ⟨rp, hrp, hrid, hpid⟩, rfl⟩
    refine ⟨((rp, role), perm), ⟨app.id, db.head?_selectAppId h.app_mem h.code, ?_⟩, rfl⟩
    simp only [Snapshot.selectRolePermissions, List.mem_filter, mem_join, Bool.and_eq_true,
      beq_iff_eq]
    exact ⟨⟨⟨hrp, h.role_mem, hrid⟩, hp, hpid⟩, h.appId, h.key⟩

/-- Tables with the same apps, permissions and links decide alike. -/
theorem checkPermission_congr (happs : db'.sysApps = db.sysApps)
    (hperms : db'.sysPermissions = db.sysPermissions) (hlinks : ∀ x, db'.Has x ↔ db.Has x)
    (a u p : String) : db'.checkPermission a u p = db.checkPermission a u p := by
  rw [Bool.eq_iff_iff, checkPermission_iff, checkPermission_iff, happs, hperms]
  simp only [hlinks]

/-! ## Putting a link in and taking it out -/

theorem has_insertUserRole {i n : ℕ} {now : DateTime} {t : Table (sysUserRolesSchema c)}
    (ht : db.sysUserRoles.insert (fun id => ⟨id, i, u, n, now⟩) (fun _ => rfl) = some t)
    (y : Link) : ({ db with sysUserRoles := t } : Db c).Has y ↔
      db.Has y ∨ (Link.assignment i u n).Same c y := by
  cases y with
  | assignment i' u' n' =>
      simp only [Has, Link.Same, Table.mem_insert_iff ht, or_and_right, exists_or, exists_eq_left]
  | binding => simp [Has, Link.Same]

theorem has_insertRolePermission {n m : ℕ} {t : Table sysRolePermissionsSchema}
    (ht : db.sysRolePermissions.insert (fun id => ⟨id, n, m⟩) (fun _ => rfl) = some t) (y : Link) :
    ({ db with sysRolePermissions := t } : Db c).Has y ↔
      db.Has y ∨ (Link.binding n m).Same c y := by
  cases y with
  | assignment => simp [Has, Link.Same]
  | binding n' m' =>
      simp only [Has, Link.Same, Table.mem_insert_iff ht, or_and_right, exists_or, exists_eq_left]

/-- The `DELETE` of assignments never compares the app of the role with that of the
assignment, but in linked tables it takes what is assigned of the one role. -/
theorem exists_namesRole_of_drops (hdb : db.Linked) {ur : SysUserRole} (hur : ur ∈ db.sysUserRoles)
    (h : db.dropsUserRole a u k ur = true) : ∃ app role, db.NamesRole a k app role ∧
      ur.appId = app.id ∧ c.same ur.appUserId u = true ∧ ur.roleId = role.id := by
  simp only [dropsUserRole, Bool.and_eq_true, List.any_eq_true, beq_iff_eq] at h
  obtain ⟨⟨⟨app, happ, hid, hcode⟩, huser⟩, role, hrole, hrid, hkey⟩ := h
  have happId := hdb.assignment ur hur role hrole hrid.symm
  exact ⟨app, role, ⟨happ, hcode, hrole, happId.trans hid, hkey⟩, hid, huser, hrid⟩

theorem dropsUserRole_iff (hdb : db.Linked) (h : db.NamesRole a k app role) {ur : SysUserRole}
    (hur : ur ∈ db.sysUserRoles) : db.dropsUserRole a u k ur = true ↔
      ur.appId = app.id ∧ c.same ur.appUserId u = true ∧ ur.roleId = role.id := by
  constructor
  · intro hdrops
    obtain ⟨app', role', h', hlink⟩ := exists_namesRole_of_drops hdb hur hdrops
    obtain ⟨rfl, rfl⟩ := h.unique h'
    exact hlink
  · rintro ⟨hid, huser, hrid⟩
    simp only [dropsUserRole, Bool.and_eq_true, List.any_eq_true, beq_iff_eq]
    exact ⟨⟨⟨app, h.app_mem, hid, h.code⟩, huser⟩, role, h.role_mem, hrid, h.key⟩

theorem has_dropUserRole (hdb : db.Linked) (h : db.NamesRole a k app role) (y : Link) :
    (db.dropUserRole a u k).Has y ↔
      db.Has y ∧ ¬ (Link.assignment app.id u role.id).Same c y := by
  cases y with
  | assignment i u' n =>
      simp only [Has, Link.Same]
      constructor
      · rintro ⟨ur, hur, hid, huser, hrid⟩
        obtain ⟨hur, hkept⟩ := Table.mem_delete.mp hur
        refine ⟨⟨ur, hur, hid, huser, hrid⟩, ?_⟩
        rintro ⟨hid', hsame, hrid'⟩
        have hdrops : db.dropsUserRole a u k ur = true := (dropsUserRole_iff hdb h hur).mpr
          ⟨by omega, c.same_trans _ _ _ huser (c.same_comm hsame), by omega⟩
        simp [hdrops] at hkept
      · rintro ⟨⟨ur, hur, hid, huser, hrid⟩, hnot⟩
        refine ⟨ur, Table.mem_delete.mpr ⟨hur, ?_⟩, hid, huser, hrid⟩
        by_contra hne
        obtain ⟨hid', huser', hrid'⟩ := (dropsUserRole_iff hdb h hur).mp (by simpa using hne)
        exact hnot ⟨by omega, c.same_trans _ _ _ (c.same_comm huser') huser, by omega⟩
  | binding n m => simp [Has, Link.Same, dropUserRole]

/-- Nor does the `DELETE` of bindings compare the app of the permission with that of the
role. -/
theorem exists_namesPermission_of_drops (hdb : db.Linked) {rp : SysRolePermission}
    (hrp : rp ∈ db.sysRolePermissions) (h : db.dropsRolePermission a k p rp = true) :
    ∃ app role perm, db.NamesRole a k app role ∧ db.NamesPermission app p perm ∧
      rp.roleId = role.id ∧ rp.permId = perm.id := by
  simp only [dropsRolePermission, Bool.and_eq_true, List.any_eq_true, beq_iff_eq] at h
  obtain ⟨⟨role, hrole, ⟨hrid, hkey⟩, app, happ, hid, hcode⟩, perm, hperm, hpid, hkey'⟩ := h
  have happId := hdb.binding rp hrp app happ role hrole hrid.symm hid perm hperm hpid.symm
  exact ⟨app, role, perm, ⟨happ, hcode, hrole, hid, hkey⟩, ⟨hperm, happId, hkey'⟩, hrid, hpid⟩

theorem dropsRolePermission_iff (hdb : db.Linked) (h : db.NamesRole a k app role)
    (h' : db.NamesPermission app p perm) {rp : SysRolePermission}
    (hrp : rp ∈ db.sysRolePermissions) : db.dropsRolePermission a k p rp = true ↔
      rp.roleId = role.id ∧ rp.permId = perm.id := by
  constructor
  · intro hdrops
    obtain ⟨app', role', perm', hrole, hperm, hlink⟩ :=
      exists_namesPermission_of_drops hdb hrp hdrops
    obtain ⟨rfl, rfl⟩ := h.unique hrole
    obtain rfl := h'.unique hperm
    exact hlink
  · rintro ⟨hrid, hpid⟩
    simp only [dropsRolePermission, Bool.and_eq_true, List.any_eq_true, beq_iff_eq]
    exact ⟨⟨role, h.role_mem, ⟨hrid, h.key⟩, app, h.app_mem, h.appId, h.code⟩, perm, h'.perm_mem,
      hpid, h'.key⟩

theorem has_dropRolePermission (hdb : db.Linked) (h : db.NamesRole a k app role)
    (h' : db.NamesPermission app p perm) (y : Link) : (db.dropRolePermission a k p).Has y ↔
      db.Has y ∧ ¬ (Link.binding role.id perm.id).Same c y := by
  cases y with
  | assignment i u n => simp [Has, Link.Same, dropRolePermission]
  | binding n m =>
      simp only [Has, Link.Same]
      constructor
      · rintro ⟨rp, hrp, hrid, hpid⟩
        obtain ⟨hrp, hkept⟩ := Table.mem_delete.mp hrp
        refine ⟨⟨rp, hrp, hrid, hpid⟩, ?_⟩
        rintro ⟨hrid', hpid'⟩
        have hdrops : db.dropsRolePermission a k p rp = true :=
          (dropsRolePermission_iff hdb h h' hrp).mpr ⟨by omega, by omega⟩
        simp [hdrops] at hkept
      · rintro ⟨⟨rp, hrp, hrid, hpid⟩, hnot⟩
        refine ⟨rp, Table.mem_delete.mpr ⟨hrp, ?_⟩, hrid, hpid⟩
        by_contra hne
        obtain ⟨hrid', hpid'⟩ := (dropsRolePermission_iff hdb h h' hrp).mp (by simpa using hne)
        exact hnot ⟨by omega, by omega⟩

end Db

/-! ## The edits -/

namespace DaoOp
variable {db db' : Db c} {σ υ : DaoState c} {op inv : DaoOp} {x y : Link}

/-- The edit that takes back another. -/
def inverse : DaoOp → Option DaoOp
  | assignRoleToUser a u k => some (removeRoleFromUser a u k)
  | removeRoleFromUser a u k => some (assignRoleToUser a u k)
  | addPermissionToRole a k p => some (removePermissionFromRole a k p)
  | removePermissionFromRole a k p => some (addPermissionToRole a k p)
  | _ => none

/-- The edit is about the link `x`.  An assignment is made for the user id as its column keeps
it, and taken from the one that is given. -/
def Names (db : Db c) (x : Link) : DaoOp → Prop
  | assignRoleToUser a u k =>
      ∃ app role, db.NamesRole a k app role ∧ x = .assignment app.id (varchar 128 u) role.id
  | removeRoleFromUser a u k =>
      ∃ app role, db.NamesRole a k app role ∧ x = .assignment app.id u role.id
  | addPermissionToRole a k p | removePermissionFromRole a k p =>
      ∃ app role perm, db.NamesRole a k app role ∧ db.NamesPermission app p perm ∧
        x = .binding role.id perm.id
  | _ => False

/-- The user id of the edit, if any, is no longer than its column is wide. -/
def Fits : DaoOp → Prop
  | assignRoleToUser _ u _ | removeRoleFromUser _ u _ => u.length ≤ 128
  | _ => True

/-- The edit has put in the link that it is about, or has taken it out, and nothing else. -/
structure Edits (op : DaoOp) (db db' : Db c) (x : Link) : Prop where
  names : op.Names db x
  apps : db'.sysApps = db.sysApps
  roles : db'.sysRoles = db.sysRoles
  perms : db'.sysPermissions = db.sysPermissions
  has_iff : db.Has x ↔ op.creates = false
  has : ∀ y, db'.Has y ↔
    if op.creates = true then db.Has y ∨ x.Same c y else db.Has y ∧ ¬ x.Same c y

theorem Names.unique (h : op.Names db x) (h' : op.Names db y) : x = y := by
  cases op with
  | assignRoleToUser | removeRoleFromUser =>
      obtain ⟨app, role, hrole, rfl⟩ := h
      obtain ⟨app', role', hrole', rfl⟩ := h'
      obtain ⟨rfl, rfl⟩ := hrole.unique hrole'
      rfl
  | addPermissionToRole | removePermissionFromRole =>
      obtain ⟨app, role, perm, hrole, hperm, rfl⟩ := h
      obtain ⟨app', role', perm', hrole', hperm', rfl⟩ := h'
      obtain ⟨rfl, rfl⟩ := hrole.unique hrole'
      rw [hperm.unique hperm']
  | _ => exact h.elim

/-- What an edit is about does not depend on the links. -/
theorem Names.congr (h : op.Names db x) (happs : db'.sysApps = db.sysApps)
    (hroles : db'.sysRoles = db.sysRoles) (hperms : db'.sysPermissions = db.sysPermissions) :
    op.Names db' x := by
  have hrole : ∀ {a k app role}, db.NamesRole a k app role → db'.NamesRole a k app role := by
    intro a k app role hrole
    exact ⟨by rw [happs]; exact hrole.app_mem, hrole.code, by rw [hroles]; exact hrole.role_mem,
      hrole.appId, hrole.key⟩
  have hperm : ∀ {app p perm}, db.NamesPermission app p perm → db'.NamesPermission app p perm := by
    intro app p perm hperm
    exact ⟨by rw [hperms]; exact hperm.perm_mem, hperm.appId, hperm.key⟩
  cases op with
  | assignRoleToUser | removeRoleFromUser =>
      obtain ⟨app, role, h, rfl⟩ := h
      exact ⟨app, role, hrole h, rfl⟩
  | addPermissionToRole | removePermissionFromRole =>
      obtain ⟨app, role, perm, h, h', rfl⟩ := h
      exact ⟨app, role, perm, hrole h, hperm h', rfl⟩
  | _ => exact h.elim

/-- An edit and its inverse are about one link, and one of them takes it out. -/
theorem names_inverse (h : op.inverse = some inv) (hfits : inv.Fits) :
    inv.Names db x ↔ op.Names db x := by
  cases op with
  | assignRoleToUser | removeRoleFromUser =>
      obtain rfl := Option.some_inj.mp h
      simp only [Names, varchar_of_le hfits]
  | addPermissionToRole | removePermissionFromRole =>
      obtain rfl := Option.some_inj.mp h
      exact Iff.rfl
  | _ => simp [inverse] at h

theorem creates_inverse (h : op.inverse = some inv) : inv.creates = !op.creates := by
  cases op with
  | assignRoleToUser | removeRoleFromUser | addPermissionToRole | removePermissionFromRole =>
      obtain rfl := Option.some_inj.mp h
      rfl
  | _ => simp [inverse] at h

/-- What reports success has done what its plan says. -/
theorem apply_of_true (h : (op.run.run σ).1 = true) :
    op.apply σ.wallClock σ.db = (true, (op.run.run σ).2.db) := by
  rcases (run_performs op σ).effect with heffect | ⟨-, hfalse, -⟩
  · rw [← heffect, h]
  · simp [h] at hfalse

/-- A successful edit has changed a row. -/
theorem writes_of_true (hop : op.inverse = some inv) (h : (op.run.run σ).1 = true) :
    op.Writes σ.wallClock σ.db := by
  have happly := (apply_fst_eq_true_iff σ.wallClock σ.db op).mp (by rw [apply_of_true h])
  refine happly.resolve_right fun hvacuous => ?_
  cases op with
  | updateApp | updateRole | updatePermission => simp [inverse] at hop
  | _ => exact hvacuous

/-! ## What a successful edit has done -/

section Done
variable {a k p u : String}

theorem assignRoleToUser_done (h : ((assignRoleToUser a u k).run.run σ).1 = true) :
    ∃ app role now t, σ.db.NamesRole a k app role ∧
      σ.db.sysUserRoles.insert (fun id => ⟨id, app.id, varchar 128 u, role.id, now⟩)
        (fun _ => rfl) = some t ∧
      ((assignRoleToUser a u k).run.run σ).2.db = { σ.db with sysUserRoles := t } := by
  have heffect := run_effect (assignRoleToUser a u k) σ
  rw [h] at heffect
  generalize ((assignRoleToUser a u k).run.run σ).2.db = db' at heffect
  cases heffect with
  | nothing hidle => simp [idle] at hidle
  | @assignRoleToUser _ _ _ app role now t happ hcode hrole hkey hid ht =>
      rw [hid] at ht
      exact ⟨app, role, now, t, ⟨happ, hcode, hrole, hid, hkey⟩, ht, rfl⟩

theorem removeRoleFromUser_done (hdb : σ.db.Linked)
    (h : ((removeRoleFromUser a u k).run.run σ).1 = true) :
    ∃ app role, σ.db.NamesRole a k app role ∧ (∃ ur ∈ σ.db.sysUserRoles, ur.appId = app.id ∧
        c.same ur.appUserId u = true ∧ ur.roleId = role.id) ∧
      ((removeRoleFromUser a u k).run.run σ).2.db = σ.db.dropUserRole a u k := by
  obtain ⟨w, hw, -, hchanges⟩ := writes_of_true rfl h
  obtain rfl := Option.some_inj.mp hw
  obtain ⟨ur, hur, hdrops⟩ := hchanges
  obtain ⟨app, role, hrole, hlink⟩ := Db.exists_namesRole_of_drops hdb hur hdrops
  refine ⟨app, role, hrole, ⟨ur, hur, hlink⟩, ?_⟩
  have heffect := run_effect (removeRoleFromUser a u k) σ
  rw [h] at heffect
  generalize ((removeRoleFromUser a u k).run.run σ).2.db = db' at heffect
  cases heffect with
  | nothing hidle => simp [idle] at hidle
  | removeRoleFromUser => rfl

theorem addPermissionToRole_done (h : ((addPermissionToRole a k p).run.run σ).1 = true) :
    ∃ app role perm t, σ.db.NamesRole a k app role ∧ σ.db.NamesPermission app p perm ∧
      σ.db.sysRolePermissions.insert (fun id => ⟨id, role.id, perm.id⟩) (fun _ => rfl) = some t ∧
      ((addPermissionToRole a k p).run.run σ).2.db = { σ.db with sysRolePermissions := t } := by
  have heffect := run_effect (addPermissionToRole a k p) σ
  rw [h] at heffect
  generalize ((addPermissionToRole a k p).run.run σ).2.db = db' at heffect
  cases heffect with
  | nothing hidle => simp [idle] at hidle
  | @addPermissionToRole _ _ _ app role perm t happ hcode hrole hkey hid hperm hkey' hid' ht =>
      exact ⟨app, role, perm, t, ⟨happ, hcode, hrole, hid, hkey⟩, ⟨hperm, hid', hkey'⟩, ht, rfl⟩

theorem removePermissionFromRole_done (hdb : σ.db.Linked)
    (h : ((removePermissionFromRole a k p).run.run σ).1 = true) :
    ∃ app role perm, σ.db.NamesRole a k app role ∧ σ.db.NamesPermission app p perm ∧
      (∃ rp ∈ σ.db.sysRolePermissions, rp.roleId = role.id ∧ rp.permId = perm.id) ∧
      ((removePermissionFromRole a k p).run.run σ).2.db = σ.db.dropRolePermission a k p := by
  obtain ⟨w, hw, -, hchanges⟩ := writes_of_true rfl h
  obtain rfl := Option.some_inj.mp hw
  obtain ⟨rp, hrp, hdrops⟩ := hchanges
  obtain ⟨app, role, perm, hrole, hperm, hlink⟩ := Db.exists_namesPermission_of_drops hdb hrp hdrops
  refine ⟨app, role, perm, hrole, hperm, ⟨rp, hrp, hlink⟩, ?_⟩
  have heffect := run_effect (removePermissionFromRole a k p) σ
  rw [h] at heffect
  generalize ((removePermissionFromRole a k p).run.run σ).2.db = db' at heffect
  cases heffect with
  | nothing hidle => simp [idle] at hidle
  | removePermissionFromRole => rfl

end Done

/-- **What a successful edit does to the links.** -/
theorem run_edits (hop : op.inverse = some inv) (hdb : σ.db.Linked) (h : (op.run.run σ).1 = true) :
    ∃ x, op.Edits σ.db (op.run.run σ).2.db x := by
  cases op with
  | assignRoleToUser a u k =>
      obtain ⟨app, role, now, t, hrole, ht, hafter⟩ := assignRoleToUser_done h
      have hnone : ¬ σ.db.Has (.assignment app.id (varchar 128 u) role.id) := by
        rintro ⟨ur, hur, hid, huser, hrid⟩
        have hclash := (Table.insert_eq_some ht).2.2 ur hur
        simp [sysUserRolesSchema, hid, huser, hrid] at hclash
      rw [hafter]
      refine ⟨_, ⟨app, role, hrole, rfl⟩, rfl, rfl, rfl, by simp [hnone, creates], fun y => ?_⟩
      simp only [creates, if_true]
      exact Db.has_insertUserRole ht y
  | removeRoleFromUser a u k =>
      obtain ⟨app, role, hrole, hlink, hafter⟩ := removeRoleFromUser_done hdb h
      rw [hafter]
      refine ⟨_, ⟨app, role, hrole, rfl⟩, rfl, rfl, rfl, ?_, fun y => ?_⟩
      · simp only [creates, iff_true]
        exact hlink
      · simp only [creates, Bool.false_eq_true, if_false]
        exact Db.has_dropUserRole hdb hrole y
  | addPermissionToRole a k p =>
      obtain ⟨app, role, perm, t, hrole, hperm, ht, hafter⟩ := addPermissionToRole_done h
      have hnone : ¬ σ.db.Has (.binding role.id perm.id) := by
        rintro ⟨rp, hrp, hrid, hpid⟩
        have hclash := (Table.insert_eq_some ht).2.2 rp hrp
        simp [sysRolePermissionsSchema, hrid, hpid] at hclash
      rw [hafter]
      refine ⟨_, ⟨app, role, perm, hrole, hperm, rfl⟩, rfl, rfl, rfl, by simp [hnone, creates],
        fun y => ?_⟩
      simp only [creates, if_true]
      exact Db.has_insertRolePermission ht y
  | removePermissionFromRole a k p =>
      obtain ⟨app, role, perm, hrole, hperm, hlink, hafter⟩ := removePermissionFromRole_done hdb h
      rw [hafter]
      refine ⟨_, ⟨app, role, perm, hrole, hperm, rfl⟩, rfl, rfl, rfl, ?_, fun y => ?_⟩
      · simp only [creates, iff_true]
        exact hlink
      · simp only [creates, Bool.false_eq_true, if_false]
        exact Db.has_dropRolePermission hdb hrole hperm y
  | _ => simp [inverse] at hop

/-- An undisturbed edit succeeds if there is its link to take out, or to put in. -/
theorem run_of_names (hσ : σ.Healthy) (hnames : op.Names σ.db x) (hfits : op.Fits)
    (hx : σ.db.Has x ↔ op.creates = false) : (op.run.run σ).1 = true := by
  refine (run_of_writes (getThrough_of_succeeds hσ _) ?_).1
  cases op with
  | assignRoleToUser a u k =>
      have hkept : varchar 128 u = u := varchar_of_le hfits
      obtain ⟨app, role, hrole, rfl⟩ := hnames
      have hnone : ¬ σ.db.Has (.assignment app.id (varchar 128 u) role.id) := by simp [hx, creates]
      have hplan : (assignRoleToUser a u k).plan σ.wallClock σ.db =
          some (.insertUserRole role.appId u role.id) := by simp [plan, hrole.head?]
      refine ⟨_, hplan, Or.inl ?_, ?_⟩
      · simp only [Fits] at hfits
        simp [Statement.overflow, Statement.values, tooLong, hkept, hfits]
      · intro ur hur hid huser hrid
        exact hnone ⟨ur, hur, hid.trans hrole.appId, huser, hrid⟩
  | removeRoleFromUser a u k =>
      obtain ⟨app, role, hrole, rfl⟩ := hnames
      obtain ⟨ur, hur, hid, huser, hrid⟩ := hx.mpr rfl
      refine ⟨_, rfl, Or.inl rfl, ur, hur, ?_⟩
      simp only [Db.dropsUserRole, Bool.and_eq_true, List.any_eq_true, beq_iff_eq]
      exact ⟨⟨⟨app, hrole.app_mem, hid, hrole.code⟩, huser⟩, role, hrole.role_mem, hrid, hrole.key⟩
  | addPermissionToRole a k p =>
      obtain ⟨app, role, perm, hrole, hperm, rfl⟩ := hnames
      have hnone : ¬ σ.db.Has (.binding role.id perm.id) := by simp [hx, creates]
      have hplan : (addPermissionToRole a k p).plan σ.wallClock σ.db =
          some (.insertRolePermission role.id perm.id) := by
        simp [plan, hrole.head?, hperm.head? hrole]
      refine ⟨_, hplan, Or.inl rfl, fun rp hrp hrid hpid => ?_⟩
      exact hnone ⟨rp, hrp, hrid, hpid⟩
  | removePermissionFromRole a k p =>
      obtain ⟨app, role, perm, hrole, hperm, rfl⟩ := hnames
      obtain ⟨rp, hrp, hrid, hpid⟩ := hx.mpr rfl
      refine ⟨_, rfl, Or.inl rfl, rp, hrp, ?_⟩
      simp only [Db.dropsRolePermission, Bool.and_eq_true, List.any_eq_true, beq_iff_eq]
      exact ⟨⟨role, hrole.role_mem, ⟨hrid, hrole.key⟩, app, hrole.app_mem, hrole.appId,
        hrole.code⟩, perm, hperm.perm_mem, hpid, hperm.key⟩
  | _ => exact hnames.elim

/-! ## An edit and its inverse -/

theorem inverse_inverse (h : op.inverse = some inv) : inv.inverse = some op := by
  cases op with
  | assignRoleToUser | removeRoleFromUser | addPermissionToRole | removePermissionFromRole =>
      obtain rfl := Option.some_inj.mp h
      rfl
  | _ => simp [inverse] at h

/-- An undisturbed inverse of a successful edit succeeds, and puts back every decision. -/
theorem inverse_restores (hop : op.inverse = some inv) (hfits : inv.Fits) (hdb : σ.db.Linked)
    (h : (op.run.run σ).1 = true) (hυ : υ.db = (op.run.run σ).2.db) (hlinked : υ.db.Linked)
    (hhealthy : υ.Healthy) : (inv.run.run υ).1 = true ∧
      ∀ a u p, (inv.run.run υ).2.db.checkPermission a u p = σ.db.checkPermission a u p := by
  obtain ⟨x, hx⟩ := run_edits hop hdb h
  rw [← hυ] at hx
  have hsame : x.Same c x := by
    cases x <;> simp [Link.Same]
  have hnames : inv.Names υ.db x :=
    (names_inverse hop hfits).mpr (hx.names.congr hx.apps hx.roles hx.perms)
  have hthere : υ.db.Has x ↔ inv.creates = false := by
    rw [hx.has x, creates_inverse hop]
    cases hcreates : op.creates <;> simp [hsame]
  have hdone := run_of_names hhealthy hnames hfits hthere
  refine ⟨hdone, ?_⟩
  obtain ⟨y, hy⟩ := run_edits (inverse_inverse hop) hlinked hdone
  obtain rfl := hnames.unique hy.names
  refine Db.checkPermission_congr (hy.apps.trans hx.apps) (hy.perms.trans hx.perms) fun z => ?_
  -- Whether the link was there before is as the edit found it, in any spelling.
  have hbefore : x.Same c z → (σ.db.Has z ↔ op.creates = false) := fun hz => by
    rw [← Db.has_congr hz]
    exact hx.has_iff
  rw [hy.has z, hx.has z, creates_inverse hop]
  by_cases hz : x.Same c z
  · cases hcreates : op.creates <;> simp [hz, hbefore hz, hcreates]
  · cases hcreates : op.creates <;> simp [hz]

end DaoOp

/-! ## Decisions after an edit -/

section Decisions
variable {db db' : Db c} {op : DaoOp} {a k p u : String} {app : SysApp} {role : SysRole}
  {perm : SysPermission}

/-- After a role was assigned: what held before, and what the role permits. -/
def Db.Assigns (db db' : Db c) (a u k : String) : Prop :=
  ∀ a' u' p', db'.checkPermission a' u' p' = true ↔ db.checkPermission a' u' p' = true ∨
    c.same a' a = true ∧ c.same u' u = true ∧
      (∃ app ∈ db.sysApps, c.same app.appCode a = true ∧ app.status = 1) ∧
        ∃ key ∈ db.getRolePermissions a k, c.same key p' = true

/-- An assignment of an app grants a permission. -/
def Db.Grants (db : Db c) (app : SysApp) (ur : SysUserRole) (p : String) : Prop :=
  app.status = 1 ∧ ∃ perm ∈ db.sysPermissions, db.Has (.binding ur.roleId perm.id) ∧
    c.same perm.permKey p = true

/-- After a role was taken from a user: one row has disappeared, the one that links the user
to the role, and what the user has left is what the remaining assignments grant. -/
def Db.Unassigns (db db' : Db c) (a u k : String) : Prop :=
  ∃ app role, db.NamesRole a k app role ∧ ∃ ur ∈ db.sysUserRoles,
    (ur.appId = app.id ∧ c.same ur.appUserId u = true ∧ ur.roleId = role.id) ∧
      db' = { db with sysUserRoles := db'.sysUserRoles } ∧
      db'.sysUserRoles.rows = db.sysUserRoles.rows.erase ur ∧
      ∀ p', db'.checkPermission a u p' = true ↔ ∃ ur' ∈ db.sysUserRoles, ur' ≠ ur ∧
        ur'.appId = app.id ∧ c.same ur'.appUserId u = true ∧ db.Grants app ur' p'

/-- Decisions differ only about the permission in the app, and for users of the role. -/
def Db.DiffersFor (db db' : Db c) (a p : String) (app : SysApp) (role : SysRole) : Prop :=
  ∀ a' u' p', db'.checkPermission a' u' p' ≠ db.checkPermission a' u' p' →
    c.same a' a = true ∧ c.same p' p = true ∧ db.Has (.assignment app.id u' role.id)

/-- After a permission was bound to a role: there is a new row, which binds the two. -/
def Db.Binds (db db' : Db c) (a k p : String) : Prop :=
  ∃ app role perm, db.NamesRole a k app role ∧ db.NamesPermission app p perm ∧
    ¬ db.Has (.binding role.id perm.id) ∧
    db' = { db with sysRolePermissions := db'.sysRolePermissions } ∧
    db'.sysRolePermissions.rows =
      db.sysRolePermissions.rows ++ [⟨db.sysRolePermissions.next, role.id, perm.id⟩] ∧
    db.DiffersFor db' a p app role

/-- After it was unbound: one row has disappeared, which bound the two. -/
def Db.Unbinds (db db' : Db c) (a k p : String) : Prop :=
  ∃ app role perm, db.NamesRole a k app role ∧ db.NamesPermission app p perm ∧
    ∃ rp ∈ db.sysRolePermissions, (rp.roleId = role.id ∧ rp.permId = perm.id) ∧
      db' = { db with sysRolePermissions := db'.sysRolePermissions } ∧
      db'.sysRolePermissions.rows = db.sysRolePermissions.rows.erase rp ∧
      db.DiffersFor db' a p app role

theorem DaoOp.Edits.assigns {x : Link} (h : (assignRoleToUser a u k).Edits db db' x) :
    db.Assigns db' a (varchar 128 u) k := by
  intro a' u' p'
  obtain ⟨app, role, hrole, rfl⟩ := h.names
  have hassigned : ∀ i n, db'.Has (.assignment i u' n) ↔
      db.Has (.assignment i u' n) ∨ app.id = i ∧ c.same (varchar 128 u) u' = true ∧
        role.id = n := by
    intro i n
    simp [h.has, DaoOp.creates, Link.Same]
  have hbound : ∀ n m, db'.Has (.binding n m) ↔ db.Has (.binding n m) := by
    intro n m
    simp [h.has, DaoOp.creates, Link.Same]
  rw [Db.checkPermission_iff, Db.checkPermission_iff, h.apps, h.perms]
  simp only [hassigned, hbound]
  constructor
  · rintro ⟨app', happ', hcode', hst, n, hold | ⟨hid, huser, rfl⟩, perm, hperm, hbind, hkey⟩
    · exact Or.inl ⟨app', happ', hcode', hst, n, hold, perm, hperm, hbind, hkey⟩
    · obtain rfl := Table.eq_of_id hrole.app_mem happ' hid
      exact Or.inr ⟨c.same_trans _ _ _ (c.same_comm hcode') hrole.code, c.same_comm huser,
        ⟨app, happ', hrole.code, hst⟩, perm.permKey,
        Db.mem_getRolePermissions.mpr ⟨app, role, hrole, perm, hperm, hbind, rfl⟩, hkey⟩
  · rintro (⟨app', happ', hcode', hst, n, hold, hperm⟩ | ⟨hcode', huser, ⟨app₁, happ₁, hcode₁, hst⟩,
      key, hkey, hsame⟩)
    · exact ⟨app', happ', hcode', hst, n, Or.inl hold, hperm⟩
    · obtain rfl := db.app_unique hrole.app_mem happ₁ hrole.code hcode₁
      obtain ⟨app₂, role₂, hrole₂, perm, hperm, hbind, rfl⟩ := Db.mem_getRolePermissions.mp hkey
      obtain ⟨-, rfl⟩ := hrole.unique hrole₂
      exact ⟨app, happ₁, c.same_trans _ _ _ hcode₁ (c.same_comm hcode'), hst, role.id,
        Or.inr ⟨rfl, c.same_comm huser, rfl⟩, perm, hperm, hbind, hsame⟩

/-- Putting in or taking out a binding changes only decisions about its permission. -/
theorem DaoOp.Edits.differsFor (hdb : db.Linked) (hrole : db.NamesRole a k app role)
    (hperm : db.NamesPermission app p perm) (h : op.Edits db db' (.binding role.id perm.id)) :
    db.DiffersFor db' a p app role := by
  intro a' u' p' hne
  by_contra hnot
  have hassigned : ∀ i n, db'.Has (.assignment i u' n) ↔ db.Has (.assignment i u' n) := by
    intro i n
    rw [h.has]
    split <;> simp [Link.Same]
  have hbound : ∀ n m, ¬ (role.id = n ∧ perm.id = m) →
      (db'.Has (.binding n m) ↔ db.Has (.binding n m)) := by
    intro n m hother
    rw [h.has]
    split <;> simp [Link.Same, hother]
  refine hne ?_
  rw [Bool.eq_iff_iff, Db.checkPermission_iff, Db.checkPermission_iff, h.apps, h.perms]
  simp only [hassigned]
  refine exists_congr fun app' => and_congr_right fun happ' => and_congr_right fun hcode' =>
    and_congr_right fun _ => exists_congr fun n => and_congr_right fun hassign =>
      exists_congr fun perm' => and_congr_right fun hperm' => ?_
  by_cases hsame : role.id = n ∧ perm.id = perm'.id
  · -- The user has the role, so a decision along this binding is about the app of both.
    obtain ⟨rfl, hid⟩ := hsame
    obtain rfl := Table.eq_of_id hperm.perm_mem hperm' hid
    refine iff_of_false (fun hdec => hnot ?_) fun hdec => hnot ?_ <;>
    · obtain ⟨ur, hur, happId, huser, hrid⟩ := hassign
      have hown := hdb.assignment ur hur role hrole.role_mem hrid.symm
      obtain rfl := Table.eq_of_id hrole.app_mem happ'
        (hrole.appId.symm.trans (hown.trans happId))
      exact ⟨c.same_trans _ _ _ (c.same_comm hcode') hrole.code,
        c.same_trans _ _ _ (c.same_comm hdec.2) hperm.key, ur, hur, happId, huser, hrid⟩
  · rw [hbound _ _ hsame]

variable {σ : DaoState c}

theorem DaoOp.unassigns (hdb : σ.db.Linked) (h : ((removeRoleFromUser a u k).run.run σ).1 = true) :
    σ.db.Unassigns ((removeRoleFromUser a u k).run.run σ).2.db a u k := by
  obtain ⟨app, role, hrole, ⟨ur, hur, hid, huser, hrid⟩, hafter⟩ := removeRoleFromUser_done hdb h
  have hone : ∀ ur' ∈ σ.db.sysUserRoles, σ.db.dropsUserRole a u k ur' = true → ur' = ur := by
    intro ur' hur' hdrops
    obtain ⟨hid', huser', hrid'⟩ := (Db.dropsUserRole_iff hdb hrole hur').mp hdrops
    have hsame := c.same_trans _ _ _ huser' (c.same_comm huser)
    exact Table.eq_of_clash hur' hur (by simp [sysUserRolesSchema, hid, hid', hrid, hrid', hsame])
  have hdrops := (Db.dropsUserRole_iff hdb hrole hur).mpr ⟨hid, huser, hrid⟩
  rw [hafter]
  refine ⟨app, role, hrole, ur, hur, ⟨hid, huser, hrid⟩, rfl,
    Table.rows_delete_eq_erase hdrops hone, fun p' => ?_⟩
  have hmem : ∀ ur', ur' ∈ (σ.db.dropUserRole a u k).sysUserRoles ↔
      ur' ∈ σ.db.sysUserRoles ∧ ur' ≠ ur := by
    intro ur'
    refine Table.mem_delete.trans (and_congr_right fun hur' => ?_)
    constructor
    · rintro hkept rfl
      simp [hdrops] at hkept
    · intro hne
      by_contra hdrops'
      exact hne (hone ur' hur' (by simpa using hdrops'))
  rw [Db.checkPermission_iff]
  constructor
  · rintro ⟨app', happ', hcode', hst, n, ⟨ur', hur', hid', huser', rfl⟩, hgrants⟩
    obtain rfl := σ.db.app_unique hrole.app_mem happ' hrole.code hcode'
    obtain ⟨hur', hne⟩ := (hmem ur').mp hur'
    exact ⟨ur', hur', hne, hid', huser', hst, hgrants⟩
  · rintro ⟨ur', hur', hne, hid', huser', hst, hgrants⟩
    exact ⟨app, hrole.app_mem, hrole.code, hst, ur'.roleId,
      ⟨ur', (hmem ur').mpr ⟨hur', hne⟩, hid', huser', rfl⟩, hgrants⟩

theorem DaoOp.binds (hdb : σ.db.Linked) (h : ((addPermissionToRole a k p).run.run σ).1 = true) :
    σ.db.Binds ((addPermissionToRole a k p).run.run σ).2.db a k p := by
  obtain ⟨x, hx⟩ := run_edits rfl hdb h
  obtain ⟨app, role, perm, t, hrole, hperm, ht, hafter⟩ := addPermissionToRole_done h
  have hnames : (addPermissionToRole a k p).Names σ.db (.binding role.id perm.id) :=
    ⟨app, role, perm, hrole, hperm, rfl⟩
  obtain rfl := hnames.unique hx.names
  refine ⟨app, role, perm, hrole, hperm, by simp [hx.has_iff, creates], ?_, ?_,
    hx.differsFor hdb hrole hperm⟩
  · rw [hafter]
  · rw [hafter]
    exact (Table.insert_eq_some ht).1

theorem DaoOp.unbinds (hdb : σ.db.Linked)
    (h : ((removePermissionFromRole a k p).run.run σ).1 = true) :
    σ.db.Unbinds ((removePermissionFromRole a k p).run.run σ).2.db a k p := by
  obtain ⟨x, hx⟩ := run_edits rfl hdb h
  obtain ⟨app, role, perm, hrole, hperm, ⟨rp, hrp, hrid, hpid⟩, hafter⟩ :=
    removePermissionFromRole_done hdb h
  have hnames : (removePermissionFromRole a k p).Names σ.db (.binding role.id perm.id) :=
    ⟨app, role, perm, hrole, hperm, rfl⟩
  obtain rfl := hnames.unique hx.names
  have hone : ∀ rp' ∈ σ.db.sysRolePermissions,
      σ.db.dropsRolePermission a k p rp' = true → rp' = rp := by
    intro rp' hrp' hdrops
    obtain ⟨hrid', hpid'⟩ := (Db.dropsRolePermission_iff hdb hrole hperm hrp').mp hdrops
    exact Table.eq_of_clash hrp' hrp (by simp [sysRolePermissionsSchema, hrid, hrid', hpid, hpid'])
  have hdrops := (Db.dropsRolePermission_iff hdb hrole hperm hrp).mpr ⟨hrid, hpid⟩
  refine ⟨app, role, perm, hrole, hperm, rp, hrp, ⟨hrid, hpid⟩, ?_, ?_,
    hx.differsFor hdb hrole hperm⟩
  · rw [hafter]
    rfl
  · rw [hafter]
    exact Table.rows_delete_eq_erase hdrops hone

end Decisions

/-! ## Every state -/

/-- **What a successful edit does, after any interleaving of concurrent operations**: to the
rows, and to the decisions of every app and user; an assignment is one for the user id as its
column keeps it.  Its inverse, called when nothing fails and with a user id no longer than the
column is wide, succeeds and puts back every decision. -/
theorem edits_exact {σ : DaoState c} (hσ : σ.db.Reachable) :
    (∀ a u k, ((PermissionDAO.assignRoleToUser a u k).run σ).1 = true →
      σ.db.Assigns ((PermissionDAO.assignRoleToUser a u k).run σ).2.db a (varchar 128 u) k) ∧
    (∀ a u k, ((PermissionDAO.removeRoleFromUser a u k).run σ).1 = true →
      σ.db.Unassigns ((PermissionDAO.removeRoleFromUser a u k).run σ).2.db a u k) ∧
    (∀ a k p, ((PermissionDAO.addPermissionToRole a k p).run σ).1 = true →
      σ.db.Binds ((PermissionDAO.addPermissionToRole a k p).run σ).2.db a k p) ∧
    (∀ a k p, ((PermissionDAO.removePermissionFromRole a k p).run σ).1 = true →
      σ.db.Unbinds ((PermissionDAO.removePermissionFromRole a k p).run σ).2.db a k p) ∧
    ∀ op inv : DaoOp, op.inverse = some inv → inv.Fits → (op.run.run σ).1 = true →
      ∀ υ : DaoState c, υ.db = (op.run.run σ).2.db → υ.Healthy → (inv.run.run υ).1 = true ∧
        ∀ a u p, (inv.run.run υ).2.db.checkPermission a u p = σ.db.checkPermission a u p := by
  have hlinked := hσ.linked
  refine ⟨fun a u k h => ?_, fun a u k h => DaoOp.unassigns hlinked h,
    fun a k p h => DaoOp.binds hlinked h, fun a k p h => DaoOp.unbinds hlinked h,
    fun op inv hop hfits h υ hυ hhealthy => ?_⟩
  · have hrun : ((DaoOp.assignRoleToUser a u k).run.run σ).1 = true := h
    obtain ⟨x, hx⟩ := DaoOp.run_edits rfl hlinked hrun
    exact hx.assigns
  · have hlinked' : υ.db.Linked := by
      rw [hυ]
      exact (hσ.run op).linked
    exact DaoOp.inverse_restores hop hfits hlinked h hυ hlinked' hhealthy

/-- A role is taken from a user and given back. -/
theorem edits_exact_qq_bot :
    let σ : DaoState .binary := .start 0
    let τ := ((PermissionDAO.removeRoleFromUser "qq_bot" "100001" "admin").run σ).2
    let υ := ((PermissionDAO.assignRoleToUser "qq_bot" "100001" "admin").run τ).2
    σ.db.Unassigns τ.db "qq_bot" "100001" "admin" ∧
      ∀ a u p, υ.db.checkPermission a u p = σ.db.checkPermission a u p := by
  have hedits : ∀ σ : DaoState .binary, σ.db = Db.initial 0 → σ.Healthy →
      ((PermissionDAO.removeRoleFromUser "qq_bot" "100001" "admin").run σ).1 = true →
      let τ := ((PermissionDAO.removeRoleFromUser "qq_bot" "100001" "admin").run σ).2
      let υ := ((PermissionDAO.assignRoleToUser "qq_bot" "100001" "admin").run τ).2
      σ.db.Unassigns τ.db "qq_bot" "100001" "admin" ∧
        ∀ a u p, υ.db.checkPermission a u p = σ.db.checkPermission a u p := by
    intro σ hσ hquiet hdone τ υ
    obtain ⟨-, hremoved, -, -, hinverse⟩ := edits_exact (.initial hσ)
    have hhealthy : τ.Healthy :=
      (DaoOp.run_performs (.removeRoleFromUser "qq_bot" "100001" "admin") σ).healthy hquiet
    have hfits : (DaoOp.assignRoleToUser "qq_bot" "100001" "admin").Fits := by
      simp only [DaoOp.Fits]
      decide
    obtain ⟨-, hback⟩ := hinverse (.removeRoleFromUser "qq_bot" "100001" "admin") _ rfl hfits
      hdone τ rfl hhealthy
    exact ⟨hremoved _ _ _ hdone, hback⟩
  refine hedits (.start 0) (DaoState.db_start 0) (fun o ho => by cases ho) ?_
  rw [DaoState.start_eq_seeded]
  decide +kernel

/-- An assignment changes decisions about every spelling of its app; a user id that is only as
long as its column takes it in another spelling is found by a removal, but not stored again by
an assignment; and one that is longer by a space is stored without it. -/
theorem edits_cross_spellings :
    (let σ : DaoState .caseInsensitive := .start 0
      let τ := (PermissionDAO.assignRoleToUser "qq_bot" "42" "admin").run σ
      τ.1 = true ∧ σ.db.checkPermission "QQ_BOT" "42" "member:kick" = false ∧
        τ.2.db.checkPermission "QQ_BOT" "42" "member:kick" = true) ∧
    (let σ : DaoState (.ignoring fun a => a == Char.ofNat 0xAD) := .start 0
      let u := "100001" ++ String.ofList (List.replicate 123 (Char.ofNat 0xAD))
      let τ := (PermissionDAO.removeRoleFromUser "qq_bot" u "admin").run σ
      let υ := (PermissionDAO.assignRoleToUser "qq_bot" u "admin").run τ.2
      τ.1 = true ∧ υ.1 = false ∧ σ.db.checkPermission "qq_bot" "100001" "member:kick" = true ∧
        υ.2.db.checkPermission "qq_bot" "100001" "member:kick" = false) ∧
    (let σ : DaoState .binary := .start 0
      let u := String.ofList (List.replicate 128 '7')
      let τ := (PermissionDAO.assignRoleToUser "qq_bot" (u ++ " ") "admin").run σ
      τ.1 = true ∧ σ.db.checkPermission "qq_bot" u "member:kick" = false ∧
        τ.2.db.checkPermission "qq_bot" u "member:kick" = true ∧
        τ.2.db.checkPermission "qq_bot" (u ++ " ") "member:kick" = false) := by
  refine ⟨?_, ?_, ?_⟩
  · rw [DaoState.start_eq_seeded]
    decide +kernel
  · decide +kernel
  · rw [DaoState.start_eq_seeded]
    decide +kernel

end SiqiAuth
