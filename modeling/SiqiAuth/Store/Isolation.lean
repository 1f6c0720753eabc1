import SiqiAuth.Store.Lockstep
import SiqiAuth.Store.Ownership
import SiqiAuth.Store.Reading

/-!
# One app's share of the tables

`Db.slice` cuts from the tables the rows that belong to one app.  Because bindings
and assignments stay within one app, every query about the app has the same answer
on its slice as on the whole; and an operation called for another app leaves the
slice alone.

## Main definitions

* `Db.slice` — the rows that belong to the app of a code.
* `Db.selectCheckPermission_slice` and its siblings — queries see their slice only.
* `DaoOp.Effect.slice_eq` — an operation for another app keeps the slice.
* `Db.Unreferenced` — no row belongs to the app of a code.
* `AgreeFor` — two states answer every question about one app alike.
-/

namespace SiqiAuth
open Lib

variable {c : Collation}

namespace Db
variable (db : Db c)

/-- Whether a number is that of the app of a code. -/
def owns (appCode : String) (n : ℕ) : Bool := (db.snapshot.selectAppId appCode).contains n

/-- The rows that belong to the app of a code. -/
def slice (o : Owners) (appCode : String) : Snapshot c where
  apps := db.sysApps.rows.filter fun a => c.same a.appCode appCode
  permissions := db.sysPermissions.rows.filter fun p => db.owns appCode p.appId
  roles := db.sysRoles.rows.filter fun r => db.owns appCode r.appId
  rolePermissions := db.sysRolePermissions.rows.filter fun rp =>
    db.owns appCode (o.role rp.roleId)
  userRoles := db.sysUserRoles.rows.filter fun ur => db.owns appCode ur.appId

variable {db} {o : Owners} {a : String}

theorem owns_iff {n : ℕ} :
    db.owns a n = true ↔ ∃ app ∈ db.sysApps, c.same app.appCode a = true ∧ app.id = n := by
  rw [owns, List.contains_iff_mem]
  exact Snapshot.mem_selectAppId _

/-- The numbers of two apps with different codes differ. -/
theorem owns_eq_false {b : String} {app : SysApp} (happ : app ∈ db.sysApps)
    (hcode : c.same app.appCode b = true) (hab : c.same a b = false) : db.owns a app.id = false := by
  by_contra h
  obtain ⟨app', happ', hcode', hid⟩ := owns_iff.mp (Bool.eq_true_of_not_eq_false h)
  obtain rfl : app' = app := Table.eq_of_id happ' happ hid
  rw [c.same_trans _ _ _ (c.same_comm hcode') hcode] at hab
  exact Bool.false_ne_true hab.symm

/-! ## Queries see their slice only -/

theorem selectAppId_slice : (db.slice o a).selectAppId a = db.snapshot.selectAppId a := by
  simp [Snapshot.selectAppId, Snapshot.selectApp, slice, List.filter_filter]

theorem grants_slice : (db.slice o a).grants = db.snapshot.grants.filter fun g =>
    ((db.owns a g.ur.appId && c.same g.app.appCode a) && db.owns a (o.role g.rp.roleId)) &&
      db.owns a g.perm.appId := by
  simp only [Snapshot.grants, slice, join_filter_filter, List.filter_map]
  rfl

/-- Of an app's grants, every row belongs to the app. -/
theorem owns_of_grant (ho : o.Consistent db) {g : Grant} (hg : g ∈ db.snapshot.grants)
    (hcode : c.same g.app.appCode a = true) :
    (((db.owns a g.ur.appId && c.same g.app.appCode a) && db.owns a (o.role g.rp.roleId)) &&
      db.owns a g.perm.appId) = true := by
  obtain ⟨hur, happ, hrp, hp, hid, hrole, hperm⟩ := (Snapshot.mem_grants _).mp hg
  have howns : db.owns a g.ur.appId = true := owns_iff.mpr ⟨g.app, happ, hcode, hid.symm⟩
  have hrole' : o.role g.rp.roleId = g.ur.appId := by rw [← hrole, ho.assignment _ hur]
  rw [hrole', chain_one_app ho hur hrp hp hrole hperm, howns, hcode]
  rfl

theorem selectCheckPermission_slice (ho : o.Consistent db) (u p : String) :
    (db.slice o a).selectCheckPermission a u p = db.snapshot.selectCheckPermission a u p := by
  rw [Snapshot.selectCheckPermission, Snapshot.selectCheckPermission, grants_slice,
    List.filter_filter]
  refine List.filter_congr fun g hg => ?_
  by_cases hcode : c.same g.app.appCode a = true
  · rw [owns_of_grant ho hg hcode, Bool.and_true]
  · simp [hcode]

theorem selectUserPermissions_slice (ho : o.Consistent db) (u : String) :
    (db.slice o a).selectUserPermissions a u = db.snapshot.selectUserPermissions a u := by
  rw [Snapshot.selectUserPermissions, Snapshot.selectUserPermissions, grants_slice,
    List.filter_filter]
  refine List.filter_congr fun g hg => ?_
  by_cases hcode : c.same g.app.appCode a = true
  · rw [owns_of_grant ho hg hcode, Bool.and_true]
  · simp [hcode]

theorem selectUserRoles_slice (ho : o.Consistent db) (u : String) :
    (db.slice o a).selectUserRoles a u = db.snapshot.selectUserRoles a u := by
  simp only [Snapshot.selectUserRoles, slice, join_filter_filter, List.filter_filter,
    snapshot_userRoles, snapshot_apps, snapshot_roles]
  refine List.filter_congr fun x hx => ?_
  obtain ⟨hx, hr, hrole⟩ := mem_join.mp hx
  obtain ⟨hur, happ, hid⟩ := mem_join.mp hx
  rw [beq_iff_eq] at hrole hid
  by_cases hcode : c.same x.1.2.appCode a = true
  · have howns : db.owns a x.1.1.appId = true := owns_iff.mpr ⟨x.1.2, happ, hcode, hid.symm⟩
    have hrole' : x.2.appId = x.1.1.appId := ho.appId_eq hur hr hrole.symm
    simp [hrole', howns, hcode]
  · simp [hcode]

theorem selectRolePermissions_slice (ho : o.Consistent db) {n : ℕ} (hn : db.owns a n = true)
    (k : String) :
    (db.slice o a).selectRolePermissions n k = db.snapshot.selectRolePermissions n k := by
  simp only [Snapshot.selectRolePermissions, slice, join_filter_filter, List.filter_filter,
    snapshot_rolePermissions, snapshot_permissions, snapshot_roles]
  refine List.filter_congr fun x hx => ?_
  obtain ⟨hx, hp, hperm⟩ := mem_join.mp hx
  obtain ⟨hrp, hr, hrole⟩ := mem_join.mp hx
  rw [beq_iff_eq] at hrole hperm
  by_cases happ : x.1.2.appId = n
  · have hrole' : o.role x.1.1.roleId = n := by rw [hrole, ho.role_appId _ hr, happ]
    have hperm' : x.2.appId = n := by
      rw [← ho.perm_appId _ hp, ← hperm, ← ho.binding _ hrp, hrole']
    simp [happ, hrole', hperm', hn]
  · simp [happ]

theorem selectRolesWithPermission_slice (ho : o.Consistent db) {n : ℕ} (hn : db.owns a n = true)
    (k : String) :
    (db.slice o a).selectRolesWithPermission n k = db.snapshot.selectRolesWithPermission n k := by
  simp only [Snapshot.selectRolesWithPermission, slice, join_filter_filter, List.filter_filter,
    snapshot_rolePermissions, snapshot_permissions, snapshot_roles]
  refine List.filter_congr fun x hx => ?_
  obtain ⟨hx, hp, hperm⟩ := mem_join.mp hx
  obtain ⟨hr, hrp, hrole⟩ := mem_join.mp hx
  rw [beq_iff_eq] at hrole hperm
  by_cases happ : x.1.1.appId = n
  · have hrole' : o.role x.1.2.roleId = n := by rw [← hrole, ho.role_appId _ hr, happ]
    have hperm' : x.2.appId = n := by
      rw [← ho.perm_appId _ hp, ← hperm, ← ho.binding _ hrp, hrole']
    simp [happ, hrole', hperm', hn]
  · simp [happ]

theorem selectPermissionOf_slice {n : ℕ} (hn : db.owns a n = true) (k : String) :
    (db.slice o a).selectPermissionOf n k = db.snapshot.selectPermissionOf n k := by
  simp only [Snapshot.selectPermissionOf, slice, List.filter_filter, snapshot_permissions]
  refine List.filter_congr fun p _ => ?_
  by_cases happ : p.appId = n
  · simp [happ, hn]
  · simp [happ]

/-! ## An operation for another app -/

/-- Slices agree when the shares of the five tables do. -/
theorem slice_eq_of {db' : Db c} {o' : Owners} (hext : o'.Extends o db)
    (hissued : ∀ rp ∈ db'.sysRolePermissions, rp.roleId < db.sysRoles.next)
    (happs : (db'.sysApps.rows.filter fun x => c.same x.appCode a) =
      db.sysApps.rows.filter fun x => c.same x.appCode a)
    (hperms : (db'.sysPermissions.rows.filter fun p => db.owns a p.appId) =
      db.sysPermissions.rows.filter fun p => db.owns a p.appId)
    (hroles : (db'.sysRoles.rows.filter fun r => db.owns a r.appId) =
      db.sysRoles.rows.filter fun r => db.owns a r.appId)
    (hrps : (db'.sysRolePermissions.rows.filter fun rp => db.owns a (o.role rp.roleId)) =
      db.sysRolePermissions.rows.filter fun rp => db.owns a (o.role rp.roleId))
    (hurs : (db'.sysUserRoles.rows.filter fun ur => db.owns a ur.appId) =
      db.sysUserRoles.rows.filter fun ur => db.owns a ur.appId) :
    db'.slice o' a = db.slice o a := by
  have howns : db'.owns a = db.owns a := by
    funext n
    simp only [owns, Snapshot.selectAppId, Snapshot.selectApp, snapshot_apps, happs]
  have hrps' : (db'.sysRolePermissions.rows.filter fun rp => db.owns a (o'.role rp.roleId)) =
      db'.sysRolePermissions.rows.filter fun rp => db.owns a (o.role rp.roleId) :=
    List.filter_congr fun rp hrp => by rw [hext.role _ (hissued rp hrp)]
  simp only [slice, howns, happs, hperms, hroles, hrps', hrps, hurs]

end Db

namespace DaoOp.Effect
variable {db db' : Db c} {op : DaoOp} {r : Bool} {o : Owners} {a : String}

/-- A binding is made for a role that has been issued. -/
theorem bindings_issued (h : Effect db op r db') (ho : o.Consistent db) :
    ∀ rp ∈ db'.sysRolePermissions, rp.roleId < db.sysRoles.next := by
  intro rp hrp
  cases h with
  | addPermissionToRole happ hcode hrole hkey hid hperm hkey' hid' ht =>
      rcases (Table.mem_insert_iff ht rp).mp hrp with hrp | rfl
      · exact (ho.binding_lt rp hrp).1
      · exact Table.id_lt_next hrole
  | removePermissionFromRole r => exact (ho.binding_lt rp (Table.mem_delete.mp hrp).1).1
  | _ => exact (ho.binding_lt rp hrp).1

/-- **An operation for another app keeps the slice**, rows left behind by deletions
included. -/
theorem slice_eq (h : Effect db op r db') (ho : o.Consistent db)
    (ha : c.same a op.storedCode = false) :
    ∃ o' : Owners, o'.Consistent db' ∧ db'.slice o' a = db.slice o a := by
  obtain ⟨o', ho', hext⟩ := h.consistent ho
  refine ⟨o', ho', ?_⟩
  have hissued := h.bindings_issued ho
  -- The app operated on is not the one looked at.
  have hother : ∀ app ∈ db.sysApps, c.same app.appCode op.storedCode = true →
      db.owns a app.id = false := fun app happ hcode => Db.owns_eq_false happ hcode ha
  have hcodes : ∀ app : SysApp, c.same app.appCode op.storedCode = true →
      c.same app.appCode a = false := by
    intro app hcode
    by_contra h
    rw [c.same_trans _ _ _ (c.same_comm (Bool.eq_true_of_not_eq_false h)) hcode] at ha
    exact Bool.false_ne_true ha.symm
  cases h with
  | nothing => exact Db.slice_eq_of hext hissued rfl rfl rfl rfl rfl
  | createApp secret now ht =>
      exact Db.slice_eq_of hext hissued (Table.filter_insert ht (hcodes _ (c.same_refl _))) rfl rfl
        rfl rfl
  | updateApp r now =>
      refine Db.slice_eq_of hext hissued (Table.filter_update ?_) rfl rfl rfl rfl
      intro app _ hcode
      rw [SysApp.appCode_set]
      exact ⟨hcodes app hcode, hcodes app hcode⟩
  | deleteApp r =>
      exact Db.slice_eq_of hext hissued (Table.filter_delete fun app _ hcode => hcodes app hcode)
        rfl rfl rfl rfl
  | createRole now happ hcode ht =>
      exact Db.slice_eq_of hext hissued rfl rfl (Table.filter_insert ht (hother _ happ hcode)) rfl rfl
  | updateRole now happ hcode =>
      refine Db.slice_eq_of hext hissued rfl rfl (Table.filter_update ?_) rfl rfl
      intro role _ hrole
      rw [Bool.and_eq_true, beq_iff_eq] at hrole
      simp only [SysRole.set, hrole.1]
      exact ⟨hother _ happ hcode, hother _ happ hcode⟩
  | deleteRole r happ hcode =>
      refine Db.slice_eq_of hext hissued rfl rfl (Table.filter_delete ?_) rfl rfl
      intro role _ hrole
      rw [Bool.and_eq_true, beq_iff_eq] at hrole
      rw [hrole.1]
      exact hother _ happ hcode
  | createPermission now happ hcode ht =>
      exact Db.slice_eq_of hext hissued rfl (Table.filter_insert ht (hother _ happ hcode)) rfl rfl rfl
  | updatePermission now happ hcode =>
      refine Db.slice_eq_of hext hissued rfl (Table.filter_update ?_) rfl rfl rfl
      intro perm _ hperm
      rw [Bool.and_eq_true, beq_iff_eq] at hperm
      simp only [SysPermission.set, hperm.1]
      exact ⟨hother _ happ hcode, hother _ happ hcode⟩
  | deletePermission r happ hcode =>
      refine Db.slice_eq_of hext hissued rfl (Table.filter_delete ?_) rfl rfl rfl
      intro perm _ hperm
      rw [Bool.and_eq_true, beq_iff_eq] at hperm
      rw [hperm.1]
      exact hother _ happ hcode
  | assignRoleToUser now happ hcode hrole hkey hid ht =>
      refine Db.slice_eq_of hext hissued rfl rfl rfl rfl (Table.filter_insert ht ?_)
      simp only [hid]
      exact hother _ happ hcode
  | removeRoleFromUser r =>
      refine Db.slice_eq_of hext hissued rfl rfl rfl rfl (Table.filter_delete ?_)
      intro ur _ hdrop
      simp only [Db.dropsUserRole, Bool.and_eq_true, List.any_eq_true, beq_iff_eq] at hdrop
      obtain ⟨⟨⟨app, happ, hid, hcode⟩, -⟩, -⟩ := hdrop
      rw [hid]
      exact hother app happ hcode
  | addPermissionToRole happ hcode hrole hkey hid hperm hkey' hid' ht =>
      refine Db.slice_eq_of hext hissued rfl rfl rfl (Table.filter_insert ht ?_) rfl
      simp only [ho.role_appId _ hrole, hid]
      exact hother _ happ hcode
  | removePermissionFromRole r =>
      refine Db.slice_eq_of hext hissued rfl rfl rfl (Table.filter_delete ?_) rfl
      intro rp _ hdrop
      simp only [Db.dropsRolePermission, Bool.and_eq_true, List.any_eq_true, beq_iff_eq] at hdrop
      obtain ⟨⟨role, hrole, ⟨hrid, -⟩, app, happ, hid, hcode⟩, -⟩ := hdrop
      rw [hrid, ho.role_appId role hrole, hid]
      exact hother app happ hcode

end DaoOp.Effect

/-! ## An app without rows -/

/-- No permission, role or assignment belongs to the app of a code. -/
structure Db.Unreferenced (db : Db c) (a : String) : Prop where
  permissions : ∀ p ∈ db.sysPermissions, db.owns a p.appId = false
  roles : ∀ r ∈ db.sysRoles, db.owns a r.appId = false
  userRoles : ∀ ur ∈ db.sysUserRoles, db.owns a ur.appId = false

/-- An app that is created has no rows yet, under whatever code it is stored. -/
theorem DaoOp.Effect.unreferenced {db db' : Db c} {n d a a' : String} {r : Bool} {o : Owners}
    (h : Effect db (.createApp n a' d) r db') (ho : o.Consistent db)
    (hstored : c.same a (varchar 32 a') = true) :
    db' = db ∨ db.Unreferenced a ∧ db'.Unreferenced a := by
  cases h with
  | nothing => exact Or.inl rfl
  | @createApp _ _ _ secret now t ht =>
      have hnone : ∀ m, db.owns a m = false := by
        intro m
        by_contra howns
        obtain ⟨app, happ, hcode, -⟩ := Db.owns_iff.mp (Bool.eq_true_of_not_eq_false howns)
        have hclash := (Table.insert_eq_some ht).2.2 app happ
        simp only [sysAppsSchema, c.same_trans _ _ _ hcode hstored] at hclash
        exact Bool.false_ne_true hclash.symm
      have hfresh : ∀ m < db.sysApps.next, ({ db with sysApps := t } : Db c).owns a m = false := by
        intro m hm
        by_contra howns
        obtain ⟨app, happ, hcode, rfl⟩ := Db.owns_iff.mp (Bool.eq_true_of_not_eq_false howns)
        rcases (Table.mem_insert_iff ht app).mp happ with happ | rfl
        · exact (Bool.eq_false_iff.mp (hnone app.id)) (Db.owns_iff.mpr ⟨app, happ, hcode, rfl⟩)
        · exact Nat.lt_irrefl _ hm
      refine Or.inr ⟨⟨fun p _ => hnone _, fun r _ => hnone _, fun ur _ => hnone _⟩, ?_, ?_, ?_⟩
      · intro p hp
        rw [← ho.perm_appId p hp]
        exact hfresh _ (ho.perm_lt _ (Table.id_lt_next hp))
      · intro role hrole
        rw [← ho.role_appId role hrole]
        exact hfresh _ (ho.role_lt _ (Table.id_lt_next hrole))
      · intro ur hur
        rw [← ho.assignment ur hur]
        exact hfresh _ (ho.role_lt _ (ho.assignment_lt ur hur))

/-! ## Every question about one app -/

/-- A reading function answers over `db'` as it does over `db`: the same in the same
environment, failing or not, and in two environments in which nothing fails answers
related by `R`. -/
structure AnswersAlike (db db' : Db c) {α : Type} (x : Dao c α) (R : α → α → Prop) : Prop where
  same : ∀ σ : DaoState c, (x.run { σ with db := db' }).1 = (x.run { σ with db := db }).1
  related : ∀ σ τ : DaoState c, σ.db = db → τ.db = db' → σ.Healthy → τ.Healthy →
    R (x.run σ).1 (x.run τ).1

/-- Over `db'` the DAO answers every question about an app as over `db`.  No query
orders its rows, so lists agree up to the order a server happens to choose. -/
structure AgreeFor (a : String) (db db' : Db c) : Prop where
  checkPermission : ∀ u p res,
    AnswersAlike db db' (PermissionDAO.checkPermission a u p res) (· = ·)
  getUserPermissions : ∀ u, AnswersAlike db db' (PermissionDAO.getUserPermissions a u) List.Perm
  getUserRoles : ∀ u, AnswersAlike db db' (PermissionDAO.getUserRoles a u) List.Perm
  getRolesWithPermission : ∀ p,
    AnswersAlike db db' (PermissionDAO.getRolesWithPermission a p) List.Perm
  getRolePermissions : ∀ k, AnswersAlike db db' (PermissionDAO.getRolePermissions a k) List.Perm
  permissionExists : ∀ p, AnswersAlike db db' (PermissionDAO.permissionExists a p) (· = ·)

section Slices
variable {db db' : Db c} {o o' : Owners} {a : String}

/-- A list of rows that both databases select is answered alike. -/
theorem answersAlike_of_rows {α : Type} {x : Dao c (List α)} {rows : Db c → List α}
    (hlock : Lockstep db db' x fun _ => True) (hx : Reads x fun db r => r.Perm (rows db))
    (h : rows db' = rows db) : AnswersAlike db db' x List.Perm where
  same := hlock.run_eq
  related := by
    rintro σ τ rfl rfl hσ hτ
    have hτ := hx.result hτ
    rw [h] at hτ
    exact (hx.result hσ).trans hτ.symm

theorem answersAlike_of_iff {x : Dao c Bool} {P : Db c → Prop}
    (hlock : Lockstep db db' x fun _ => True) (hx : Reads x fun db r => r = true ↔ P db)
    (h : P db' ↔ P db) : AnswersAlike db db' x (· = ·) where
  same := hlock.run_eq
  related := by
    rintro σ τ rfl rfl hσ hτ
    rw [Bool.eq_iff_iff, hx.result hσ, hx.result hτ, h]

theorem checkPermission_alike {u p res : String}
    (h : db'.snapshot.selectCheckPermission a u p = db.snapshot.selectCheckPermission a u p) :
    AnswersAlike db db' (PermissionDAO.checkPermission a u p res) (· = ·) := by
  refine answersAlike_of_iff ?_ (PermissionDAO.checkPermission_reads a u p res) (by rw [h])
  exact .withConnection trivial (.reporting trivial
    (.bindSql (.executeQuery h) fun _ _ => .pureSql trivial))

/-- The rows of a function that looks up its app first. -/
theorem rows_of_app {α β : Type} (rows : ℕ → Db c → List α) (f : α → β)
    (happ : db'.snapshot.selectAppId a = db.snapshot.selectAppId a)
    (h : ∀ n ∈ db.snapshot.selectAppId a, rows n db' = rows n db) :
    ((db'.snapshot.selectAppId a).head?.toList.flatMap fun n => rows n db').map f =
      ((db.snapshot.selectAppId a).head?.toList.flatMap fun n => rows n db).map f := by
  rw [happ]
  congr 1
  refine List.flatMap_congr fun n hn => h n ?_
  exact List.mem_of_head? (Option.mem_toList.mp hn)

theorem getRolesWithPermission_alike {p : String}
    (happ : db'.snapshot.selectAppId a = db.snapshot.selectAppId a)
    (h : ∀ n ∈ db.snapshot.selectAppId a,
      db'.snapshot.selectRolesWithPermission n p = db.snapshot.selectRolesWithPermission n p) :
    AnswersAlike db db' (PermissionDAO.getRolesWithPermission a p) List.Perm :=
  answersAlike_of_rows (.withConnection trivial (.column_of_app happ h))
    (PermissionDAO.getRolesWithPermission_reads a p)
    (rows_of_app (fun n db => db.snapshot.selectRolesWithPermission n p) _ happ h)

theorem getRolePermissions_alike {k : String}
    (happ : db'.snapshot.selectAppId a = db.snapshot.selectAppId a)
    (h : ∀ n ∈ db.snapshot.selectAppId a,
      db'.snapshot.selectRolePermissions n k = db.snapshot.selectRolePermissions n k) :
    AnswersAlike db db' (PermissionDAO.getRolePermissions a k) List.Perm :=
  answersAlike_of_rows (.withConnection trivial (.column_of_app happ h))
    (PermissionDAO.getRolePermissions_reads a k)
    (rows_of_app (fun n db => db.snapshot.selectRolePermissions n k) _ happ h)

theorem permissionExists_alike {p : String}
    (happ : db'.snapshot.selectAppId a = db.snapshot.selectAppId a)
    (h : ∀ n ∈ db.snapshot.selectAppId a,
      db'.snapshot.selectPermissionOf n p = db.snapshot.selectPermissionOf n p) :
    AnswersAlike db db' (PermissionDAO.permissionExists a p) (· = ·) := by
  refine answersAlike_of_iff ?_ (PermissionDAO.permissionExists_reads a p) ?_
  · refine .withConnection trivial (.catchSql (.bindSql (.liftSql (.getAppId happ)) ?_)
      fun _ => .pure trivial)
    intro found hfound
    cases found with
    | none => exact .pureSql trivial
    | some n => exact .bindSql (.executeQuery (h n (hfound n rfl))) fun _ _ => .pureSql trivial
  · rw [happ]
    refine exists_congr fun n => and_congr_right fun hn => ?_
    rw [h n (List.mem_of_head? hn)]

/-- **Equal slices, equal answers.** -/
theorem agreeFor_of_slice (ho : o.Consistent db) (ho' : o'.Consistent db')
    (hslice : db'.slice o' a = db.slice o a) : AgreeFor a db db' := by
  have happ : db'.snapshot.selectAppId a = db.snapshot.selectAppId a := by
    rw [← Db.selectAppId_slice (o := o'), hslice, Db.selectAppId_slice]
  have howns : ∀ n ∈ db.snapshot.selectAppId a, db.owns a n = true ∧ db'.owns a n = true := by
    intro n hn
    rw [Db.owns, Db.owns, happ, and_self]
    exact List.contains_iff_mem.mpr hn
  have hcheck : ∀ u p, db'.snapshot.selectCheckPermission a u p =
      db.snapshot.selectCheckPermission a u p := by
    intro u p
    rw [← Db.selectCheckPermission_slice ho', hslice, Db.selectCheckPermission_slice ho]
  have hperms : ∀ u, db'.snapshot.selectUserPermissions a u =
      db.snapshot.selectUserPermissions a u := by
    intro u
    rw [← Db.selectUserPermissions_slice ho', hslice, Db.selectUserPermissions_slice ho]
  have hroles : ∀ u, db'.snapshot.selectUserRoles a u = db.snapshot.selectUserRoles a u := by
    intro u
    rw [← Db.selectUserRoles_slice ho', hslice, Db.selectUserRoles_slice ho]
  have hrolePerms : ∀ k, ∀ n ∈ db.snapshot.selectAppId a,
      db'.snapshot.selectRolePermissions n k = db.snapshot.selectRolePermissions n k := by
    intro k n hn
    rw [← Db.selectRolePermissions_slice ho' (howns n hn).2, hslice,
      Db.selectRolePermissions_slice ho (howns n hn).1]
  have hrolesWith : ∀ p, ∀ n ∈ db.snapshot.selectAppId a,
      db'.snapshot.selectRolesWithPermission n p = db.snapshot.selectRolesWithPermission n p := by
    intro p n hn
    rw [← Db.selectRolesWithPermission_slice ho' (howns n hn).2, hslice,
      Db.selectRolesWithPermission_slice ho (howns n hn).1]
  have hperm : ∀ p, ∀ n ∈ db.snapshot.selectAppId a,
      db'.snapshot.selectPermissionOf n p = db.snapshot.selectPermissionOf n p := by
    intro p n hn
    rw [← Db.selectPermissionOf_slice (o := o') (howns n hn).2, hslice,
      Db.selectPermissionOf_slice (howns n hn).1]
  exact
    { checkPermission := fun u p res => checkPermission_alike (hcheck u p)
      getUserPermissions := fun u =>
        answersAlike_of_rows (.withConnection trivial (.column (hperms u)))
          (PermissionDAO.getUserPermissions_reads a u) (by rw [hperms u])
      getUserRoles := fun u =>
        answersAlike_of_rows (.withConnection trivial (.column (hroles u)))
          (PermissionDAO.getUserRoles_reads a u) (by rw [hroles u])
      getRolesWithPermission := fun p => getRolesWithPermission_alike happ (hrolesWith p)
      getRolePermissions := fun k => getRolePermissions_alike happ (hrolePerms k)
      permissionExists := fun p => permissionExists_alike happ (hperm p) }

end Slices

section Unreferenced
variable {db db' : Db c} {a : String}

/-- A function that returns one thing over both tables answers alike. -/
theorem answersAlike_const {α : Type} {x : Dao c α} {R : α → α → Prop} {r : α} (hR : R r r)
    (h : ∀ σ : DaoState c, σ.db = db → (x.run σ).1 = r)
    (h' : ∀ σ : DaoState c, σ.db = db' → (x.run σ).1 = r) : AnswersAlike db db' x R where
  same σ := (h' _ rfl).trans (h _ rfl).symm
  related σ τ hσ hτ _ _ := by rw [h σ hσ, h' τ hτ]; exact hR

namespace Db.Unreferenced
variable (h : db.Unreferenced a) {σ : DaoState c}
include h

theorem checkPermission (hσ : σ.db = db) (u p res : String) :
    ((PermissionDAO.checkPermission a u p res).run σ).1 = false := by
  subst hσ
  by_contra htrue
  obtain ⟨g, hg⟩ := PermissionDAO.checkPermission_sound (Bool.eq_true_of_not_eq_false htrue)
  obtain ⟨hg, hcode, -⟩ := (Snapshot.mem_selectCheckPermission _).mp hg
  obtain ⟨hur, happ, -, -, hid, -⟩ := (Snapshot.mem_grants _).mp hg
  exact Bool.eq_false_iff.mp (h.userRoles _ hur) (owns_iff.mpr ⟨_, happ, hcode, hid.symm⟩)

theorem getUserPermissions (hσ : σ.db = db) (u : String) :
    ((PermissionDAO.getUserPermissions a u).run σ).1 = [] := by
  subst hσ
  refine List.eq_nil_iff_forall_not_mem.mpr fun kn hkn => ?_
  obtain ⟨g, hg, -⟩ := PermissionDAO.getUserPermissions_sound hkn
  obtain ⟨hg, hcode, -⟩ := (Snapshot.mem_selectUserPermissions _).mp hg
  obtain ⟨hur, happ, -, -, hid, -⟩ := (Snapshot.mem_grants _).mp hg
  exact Bool.eq_false_iff.mp (h.userRoles _ hur) (owns_iff.mpr ⟨_, happ, hcode, hid.symm⟩)

theorem getUserRoles (hσ : σ.db = db) (u : String) :
    ((PermissionDAO.getUserRoles a u).run σ).1 = [] := by
  subst hσ
  refine List.eq_nil_iff_forall_not_mem.mpr fun k hk => ?_
  obtain ⟨x, hx, -⟩ := PermissionDAO.getUserRoles_sound hk
  simp only [Snapshot.selectUserRoles, List.mem_filter, mem_join, Bool.and_eq_true,
    beq_iff_eq] at hx
  exact Bool.eq_false_iff.mp (h.userRoles _ hx.1.1.1)
    (owns_iff.mpr ⟨x.1.2, hx.1.1.2.1, by tauto, hx.1.1.2.2.symm⟩)

theorem getRolesWithPermission (hσ : σ.db = db) (p : String) :
    ((PermissionDAO.getRolesWithPermission a p).run σ).1 = [] := by
  subst hσ
  refine List.eq_nil_iff_forall_not_mem.mpr fun k hk => ?_
  obtain ⟨n, hn, x, hx, -⟩ := PermissionDAO.getRolesWithPermission_sound hk
  simp only [Snapshot.selectRolesWithPermission, List.mem_filter, mem_join, Bool.and_eq_true,
    beq_iff_eq] at hx
  obtain ⟨⟨⟨hrole, -⟩, -⟩, rfl, -⟩ := hx
  exact Bool.eq_false_iff.mp (h.roles _ hrole) (List.contains_iff_mem.mpr hn)

theorem getRolePermissions (hσ : σ.db = db) (k : String) :
    ((PermissionDAO.getRolePermissions a k).run σ).1 = [] := by
  subst hσ
  refine List.eq_nil_iff_forall_not_mem.mpr fun p hp => ?_
  obtain ⟨n, hn, x, hx, -⟩ := PermissionDAO.getRolePermissions_sound hp
  simp only [Snapshot.selectRolePermissions, List.mem_filter, mem_join, Bool.and_eq_true,
    beq_iff_eq] at hx
  obtain ⟨⟨⟨-, hrole, -⟩, -⟩, rfl, -⟩ := hx
  exact Bool.eq_false_iff.mp (h.roles _ hrole) (List.contains_iff_mem.mpr hn)

theorem permissionExists (hσ : σ.db = db) (p : String) :
    ((PermissionDAO.permissionExists a p).run σ).1 = false := by
  subst hσ
  by_contra htrue
  obtain ⟨n, hn, q, hq⟩ :=
    PermissionDAO.permissionExists_sound (Bool.eq_true_of_not_eq_false htrue)
  simp only [Snapshot.selectPermissionOf, List.mem_filter, Bool.and_eq_true, beq_iff_eq] at hq
  obtain ⟨hq, rfl, -⟩ := hq
  exact Bool.eq_false_iff.mp (h.permissions _ hq) (List.contains_iff_mem.mpr hn)

end Db.Unreferenced

/-- **Nothing referred to, nothing answered.** -/
theorem agreeFor_of_unreferenced (h : db.Unreferenced a) (h' : db'.Unreferenced a) :
    AgreeFor a db db' where
  checkPermission u p res := answersAlike_const rfl (fun _ hσ => h.checkPermission hσ u p res)
    fun _ hσ => h'.checkPermission hσ u p res
  getUserPermissions u := answersAlike_const (.refl _) (fun _ hσ => h.getUserPermissions hσ u)
    fun _ hσ => h'.getUserPermissions hσ u
  getUserRoles u := answersAlike_const (.refl _) (fun _ hσ => h.getUserRoles hσ u)
    fun _ hσ => h'.getUserRoles hσ u
  getRolesWithPermission p := answersAlike_const (.refl _)
    (fun _ hσ => h.getRolesWithPermission hσ p) fun _ hσ => h'.getRolesWithPermission hσ p
  getRolePermissions k := answersAlike_const (.refl _)
    (fun _ hσ => h.getRolePermissions hσ k) fun _ hσ => h'.getRolePermissions hσ k
  permissionExists p := answersAlike_const rfl (fun _ hσ => h.permissionExists hσ p)
    fun _ hσ => h'.permissionExists hσ p

end Unreferenced

/-- **Tenant isolation.**  After any run, an operation called for one app changes no
answer about another. -/
theorem call_isolated {installed : ℤ} {σ : DaoState c} (hσ : σ.db = Db.initial installed)
    (l : List DaoCall) (x : DaoCall) {a : String} (ha : c.same a x.op.appCode = false) :
    AgreeFor a (run DaoState.call σ l).db ((run DaoState.call σ l).call x).db := by
  obtain ⟨o, ho⟩ := Db.exists_owners hσ l
  have heffect := (run DaoState.call σ l).call_effect x
  by_cases hstored : c.same a x.op.storedCode = true
  · -- A new app stored under the code: nothing belongs to it before or after.
    obtain ⟨op, outcomes, wallClock⟩ := x
    cases op with
    | createApp n a' d =>
        obtain hdb | ⟨h, h'⟩ := heffect.unreferenced ho hstored
        · rw [hdb]
          exact agreeFor_of_slice ho ho rfl
        · exact agreeFor_of_unreferenced h h'
    | _ => exact absurd hstored (Bool.eq_false_iff.mp ha)
  · obtain ⟨o', ho', hslice⟩ := heffect.slice_eq ho (Bool.eq_false_of_not_eq_true hstored)
    exact agreeFor_of_slice ho ho' hslice

/-- Deleting `admin_panel` and what it leaves behind, looked at from `qq_bot`. -/
theorem call_isolated_deleteApp :
    AgreeFor "qq_bot"
      (run DaoState.call (DaoState.start 0 : DaoState .binary)
        [⟨.deleteRole "qq_bot" "admin", [], 0⟩, ⟨.deleteRole "admin_panel" "staff", [], 0⟩]).db
      ((run DaoState.call (DaoState.start 0 : DaoState .binary)
        [⟨.deleteRole "qq_bot" "admin", [], 0⟩, ⟨.deleteRole "admin_panel" "staff", [], 0⟩]).call
          ⟨.deleteApp "admin_panel", [], 0⟩).db :=
  call_isolated (DaoState.db_start 0) _ _ (by decide)

end SiqiAuth
