import SiqiAuth.Store.Histories
import SiqiAuth.Store.ListedKeys

/-!
# What the reading functions answer

What the functions that read one app answer can be read off the view of the app: they list
what is there, each once, and nothing of what has been left behind.  So their answers too are
known from the history of calls.  Only `checkPermission` and `getUserPermissions` are not among
them: they pass by the roles.

## Main definitions

* `ListsOnce` — a list has what it should, each once.
* `Answers` — the answers about an app that has a view.
* `Db.Linked.answers` — the functions answer so.
* `answers_of_history` — after any run.
-/

namespace SiqiAuth
open Lib

variable {c : Collation}

/-- The list has exactly what satisfies `P`, each once. -/
structure ListsOnce {α : Type} (l : List α) (P : α → Prop) : Prop where
  nodup : l.Nodup
  mem_iff : ∀ x, x ∈ l ↔ P x

namespace ListsOnce
variable {α β : Type} {l l' : List α} {P : α → Prop}

theorem perm (h : ListsOnce l P) (hl : l'.Perm l) : ListsOnce l' P :=
  ⟨hl.nodup_iff.mpr h.nodup, fun x => hl.mem_iff.trans (h.mem_iff x)⟩

/-- A column of rows that it tells apart. -/
theorem column {rows : List β} {f : β → α} (hrows : rows.Nodup)
    (hf : ∀ x ∈ rows, ∀ y ∈ rows, f x = f y → x = y)
    (hmem : ∀ x, (∃ y ∈ rows, f y = x) ↔ P x) : ListsOnce (rows.map f) P :=
  ⟨hrows.map_on hf, fun x => by rw [List.mem_map, hmem]⟩

end ListsOnce

/-- What the reading functions answer about an app that looks like `s`. -/
structure Answers (σ : DaoState c) (a : String)
    (s : Rbac c.Value c.Value c.Value SysApp SysRole SysPermission SysUserRole) : Prop where
  appExists : ((PermissionDAO.appExists a).run σ).1 = true ↔ ∃ i, s.info i
  getApp : ∀ i, ((PermissionDAO.getApp a).run σ).1.map SysApp.info = some i ↔ s.info i
  permissionExists : ∀ p, ((PermissionDAO.permissionExists a p).run σ).1 = true ↔
    ∃ i, s.perm (c.value p) i
  listPermissions : ListsOnce (((PermissionDAO.listPermissions a).run σ).1.map SysPermission.info)
    fun i => ∃ p, s.perm p i
  getRolePermissions : ∀ k, ListsOnce ((PermissionDAO.getRolePermissions a k).run σ).1
    fun key => ∃ p i, s.perm p i ∧ s.bound (c.value k) p ∧ i.permKey = key
  getRolesWithPermission : ∀ p, ListsOnce ((PermissionDAO.getRolesWithPermission a p).run σ).1
    fun key => ∃ r j, s.role r j ∧ s.bound r (c.value p) ∧ j.roleKey = key
  /-- Only an app that is enabled has users. -/
  getUserRoles : ∀ u, ListsOnce ((PermissionDAO.getUserRoles a u).run σ).1
    fun key => (∃ i, s.info i ∧ i.status = 1) ∧
      ∃ r j, s.role r j ∧ (∃ m, s.member (c.value u) r m) ∧ j.roleKey = key

/-! ## Function by function -/

namespace Db
variable {db : Db c} {a : String} {app : SysApp}

theorem selectAppId_of_appOf (h : AppOf db.sysApps (c.value a) app) :
    (db.snapshot.selectAppId a).head? = some app.id :=
  db.head?_selectAppId h.1 h.same

theorem selectAppId_of_not (h : ∀ app, ¬ AppOf db.sysApps (c.value a) app) :
    (db.snapshot.selectAppId a).head? = none := by
  cases hrow : (db.snapshot.selectAppId a).head? with
  | none => rfl
  | some n =>
      obtain ⟨app, happ, hcode, -⟩ := DaoOp.exists_app_of_head? hrow
      exact absurd (.of_same happ hcode) (h app)

/-- The rows of a function that looks up its app first. -/
theorem listsOnce_of_app {α β : Type} {rows : ℕ → List α} {f : α → β} {P : β → Prop}
    (hsome : ∀ app, AppOf db.sysApps (c.value a) app → ListsOnce ((rows app.id).map f) P)
    (hnone : (∀ app, ¬ AppOf db.sysApps (c.value a) app) → ∀ x, ¬ P x) :
    ListsOnce (((db.snapshot.selectAppId a).head?.toList.flatMap rows).map f) P := by
  by_cases happ : ∃ app, AppOf db.sysApps (c.value a) app
  · obtain ⟨app, happ⟩ := happ
    rw [selectAppId_of_appOf happ, Option.toList_some, List.flatMap_singleton]
    exact hsome app happ
  · have hnot : ∀ app, ¬ AppOf db.sysApps (c.value a) app := fun app h => happ ⟨app, h⟩
    rw [selectAppId_of_not hnot]
    exact ⟨List.nodup_nil, fun x => iff_of_false List.not_mem_nil (hnone hnot x)⟩

/-- The permission of a binding of one of the app's roles is one of the app's. -/
theorem Linked.permOf_of_binding (hdb : db.Linked) (happ : AppOf db.sysApps (c.value a) app)
    {r : SysRole} (hr : r ∈ db.sysRoles) (hid : r.appId = app.id) {rp : SysRolePermission}
    (hrp : rp ∈ db.sysRolePermissions) (hrole : rp.roleId = r.id) {p : SysPermission}
    (hp : p ∈ db.sysPermissions) (hperm : rp.permId = p.id) :
    db.PermOf (c.value a) (c.value p.permKey) p :=
  ⟨hp, rfl, app, happ, hdb.binding rp hrp app happ.1 r hr hrole.symm hid p hp hperm.symm⟩

theorem Linked.rolePermissions (hdb : db.Linked) (k : String) :
    ListsOnce (((db.snapshot.selectAppId a).head?.toList.flatMap fun n =>
        db.snapshot.selectRolePermissions n k).map fun x => x.2.permKey)
      fun key => ∃ p i, (db.view (c.value a)).perm p i ∧
        (db.view (c.value a)).bound (c.value k) p ∧ i.permKey = key := by
  refine listsOnce_of_app (fun app happ => ?_) ?_
  · have hrow : ∀ rp r p, ((rp, r), p) ∈ db.snapshot.selectRolePermissions app.id k ↔
        rp ∈ db.sysRolePermissions ∧ p ∈ db.sysPermissions ∧ db.RoleOf (c.value a) (c.value k) r ∧
          rp.roleId = r.id ∧ rp.permId = p.id := by
      intro rp r p
      simp only [Snapshot.selectRolePermissions, List.mem_filter, mem_join, Bool.and_eq_true,
        beq_iff_eq]
      constructor
      · rintro ⟨⟨⟨hrp, hr, hrole⟩, hp, hperm⟩, hid, hkey⟩
        exact ⟨hrp, hp, ⟨hr, (c.same_iff_value _ _).mp hkey, app, happ, hid⟩, hrole, hperm⟩
      · rintro ⟨hrp, hp, ⟨hr, hkey, app', happ', hid⟩, hrole, hperm⟩
        obtain rfl := happ.unique happ'
        exact ⟨⟨⟨hrp, hr, hrole⟩, hp, hperm⟩, hid, (c.same_iff_value _ _).mpr hkey⟩
    refine .column ((nodup_join (nodup_join db.sysRolePermissions.nodup_rows db.sysRoles.nodup_rows _)
      db.sysPermissions.nodup_rows _).filter _) ?_ fun key => ?_
    · rintro ⟨⟨rp, r⟩, p⟩ hx ⟨⟨rp', r'⟩, p'⟩ hy hkey
      obtain ⟨hrp, hp, hr, hrole, hperm⟩ := (hrow rp r p).mp hx
      obtain ⟨hrp', hp', hr', hrole', hperm'⟩ := (hrow rp' r' p').mp hy
      obtain rfl := RoleOf.unique hr hr'
      obtain ⟨hmem, -, app', happ', hid⟩ := hr
      obtain rfl := happ.unique happ'
      have hpof := hdb.permOf_of_binding happ hmem hid hrp hrole hp hperm
      have hpof' := hdb.permOf_of_binding happ hmem hid hrp' hrole' hp' hperm'
      simp only at hkey
      rw [← hkey] at hpof'
      obtain rfl := PermOf.unique hpof hpof'
      rw [binding_unique hrp hrp' (hrole.trans hrole'.symm) (hperm.trans hperm'.symm)]
    · constructor
      · rintro ⟨⟨⟨rp, r⟩, p⟩, hx, rfl⟩
        obtain ⟨hrp, hp, hr, hrole, hperm⟩ := (hrow rp r p).mp hx
        obtain ⟨hmem, -, app', happ', hid⟩ := id hr
        obtain rfl := happ.unique happ'
        have hpof := hdb.permOf_of_binding happ hmem hid hrp hrole hp hperm
        exact ⟨_, p.info, ⟨p, hpof, rfl⟩, ⟨rp, hrp, r, hr, hrole, p, hpof, hperm⟩, rfl⟩
      · rintro ⟨q, i, ⟨p, hpof, rfl⟩, ⟨rp, hrp, r, hr, hrole, p', hpof', hperm⟩, rfl⟩
        obtain rfl := PermOf.unique hpof hpof'
        exact ⟨((rp, r), p), (hrow rp r p).mpr ⟨hrp, hpof.1, hr, hrole, hperm⟩, rfl⟩
  · rintro hnot key ⟨p, i, hperm, -⟩
    obtain ⟨i, app, happ, -⟩ := (db.view (c.value a)).info_of_perm hperm
    exact hnot app happ

theorem Linked.rolesWithPermission (hdb : db.Linked) (p : String) :
    ListsOnce (((db.snapshot.selectAppId a).head?.toList.flatMap fun n =>
        db.snapshot.selectRolesWithPermission n p).map fun x => x.1.1.roleKey)
      fun key => ∃ r j, (db.view (c.value a)).role r j ∧
        (db.view (c.value a)).bound r (c.value p) ∧ j.roleKey = key := by
  refine listsOnce_of_app (fun app happ => ?_) ?_
  · have hrow : ∀ r rp q, ((r, rp), q) ∈ db.snapshot.selectRolesWithPermission app.id p ↔
        r ∈ db.sysRoles ∧ r.appId = app.id ∧ rp ∈ db.sysRolePermissions ∧
          db.PermOf (c.value a) (c.value p) q ∧ rp.roleId = r.id ∧ rp.permId = q.id := by
      intro r rp q
      simp only [Snapshot.selectRolesWithPermission, List.mem_filter, mem_join, Bool.and_eq_true,
        beq_iff_eq]
      constructor
      · rintro ⟨⟨⟨hr, hrp, hrole⟩, hq, hperm⟩, hid, hkey⟩
        have hqof := hdb.permOf_of_binding happ hr hid hrp hrole.symm hq hperm
        rw [(c.same_iff_value _ _).mp hkey] at hqof
        exact ⟨hr, hid, hrp, hqof, hrole.symm, hperm⟩
      · rintro ⟨hr, hid, hrp, ⟨hq, hkey, -⟩, hrole, hperm⟩
        exact ⟨⟨⟨hr, hrp, hrole.symm⟩, hq, hperm⟩, hid, (c.same_iff_value _ _).mpr hkey⟩
    refine .column ((nodup_join (nodup_join db.sysRoles.nodup_rows db.sysRolePermissions.nodup_rows _)
      db.sysPermissions.nodup_rows _).filter _) ?_ fun key => ?_
    · rintro ⟨⟨r, rp⟩, q⟩ hx ⟨⟨r', rp'⟩, q'⟩ hy hkey
      obtain ⟨hr, hid, hrp, hq, hrole, hperm⟩ := (hrow r rp q).mp hx
      obtain ⟨hr', hid', hrp', hq', hrole', hperm'⟩ := (hrow r' rp' q').mp hy
      obtain rfl := PermOf.unique hq hq'
      have hrof : db.RoleOf (c.value a) (c.value r.roleKey) r := ⟨hr, rfl, app, happ, hid⟩
      have hrof' : db.RoleOf (c.value a) (c.value r.roleKey) r' := ⟨hr', by rw [hkey], app, happ, hid'⟩
      obtain rfl := RoleOf.unique hrof hrof'
      rw [binding_unique hrp hrp' (hrole.trans hrole'.symm) (hperm.trans hperm'.symm)]
    · constructor
      · rintro ⟨⟨⟨r, rp⟩, q⟩, hx, rfl⟩
        obtain ⟨hr, hid, hrp, hq, hrole, hperm⟩ := (hrow r rp q).mp hx
        have hrof : db.RoleOf (c.value a) (c.value r.roleKey) r := ⟨hr, rfl, app, happ, hid⟩
        exact ⟨_, r.info, ⟨r, hrof, rfl⟩, ⟨rp, hrp, r, hrof, hrole, q, hq, hperm⟩, rfl⟩
      · rintro ⟨k, j, ⟨r, hrof, rfl⟩, ⟨rp, hrp, r', hrof', hrole, q, hq, hperm⟩, rfl⟩
        obtain rfl := RoleOf.unique hrof hrof'
        obtain ⟨hr, -, app', happ', hid⟩ := hrof
        obtain rfl := happ.unique happ'
        exact ⟨((r, rp), q), (hrow r rp q).mpr ⟨hr, hid, hrp, hq, hrole, hperm⟩, rfl⟩
  · rintro hnot key ⟨r, j, hrole, -⟩
    obtain ⟨i, app, happ, -⟩ := (db.view (c.value a)).info_of_role hrole
    exact hnot app happ

theorem Linked.userRoles (hdb : db.Linked) (u : String) :
    ListsOnce ((db.snapshot.selectUserRoles a u).map fun x => x.2.roleKey)
      fun key => (∃ i, (db.view (c.value a)).info i ∧ i.status = 1) ∧
        ∃ r j, (db.view (c.value a)).role r j ∧
          (∃ m, (db.view (c.value a)).member (c.value u) r m) ∧ j.roleKey = key := by
  have hrow : ∀ ur app r, ((ur, app), r) ∈ db.snapshot.selectUserRoles a u ↔
      AppOf db.sysApps (c.value a) app ∧ app.status = 1 ∧ ur ∈ db.sysUserRoles ∧
        c.value ur.appUserId = c.value u ∧ ur.appId = app.id ∧ r ∈ db.sysRoles ∧
          r.appId = app.id ∧ ur.roleId = r.id := by
    intro ur app r
    simp only [Snapshot.selectUserRoles, List.mem_filter, mem_join, Bool.and_eq_true, beq_iff_eq]
    constructor
    · rintro ⟨⟨⟨hur, happ, hid⟩, hr, hrole⟩, ⟨hcode, hu⟩, hst⟩
      exact ⟨.of_same happ hcode, hst, hur, (c.same_iff_value _ _).mp hu, hid, hr,
        (hdb.assignment ur hur r hr hrole.symm).trans hid, hrole⟩
    · rintro ⟨happ, hst, hur, hu, hid, hr, -, hrole⟩
      exact ⟨⟨⟨hur, happ.1, hid⟩, hr, hrole⟩, ⟨happ.same, (c.same_iff_value _ _).mpr hu⟩, hst⟩
  refine .column ((nodup_join (nodup_join db.sysUserRoles.nodup_rows db.sysApps.nodup_rows _)
    db.sysRoles.nodup_rows _).filter _) ?_ fun key => ?_
  · rintro ⟨⟨ur, app⟩, r⟩ hx ⟨⟨ur', app'⟩, r'⟩ hy hkey
    obtain ⟨happ, -, hur, hu, hid, hr, hown, hrole⟩ := (hrow ur app r).mp hx
    obtain ⟨happ', -, hur', hu', hid', hr', hown', hrole'⟩ := (hrow ur' app' r').mp hy
    obtain rfl := happ.unique happ'
    have hrof : db.RoleOf (c.value a) (c.value r.roleKey) r := ⟨hr, rfl, app, happ, hown⟩
    have hrof' : db.RoleOf (c.value a) (c.value r.roleKey) r' := ⟨hr', by rw [hkey], app, happ, hown'⟩
    obtain rfl := RoleOf.unique hrof hrof'
    have hmof : db.MemberOf (c.value a) (c.value u) (c.value r.roleKey) ur :=
      ⟨hur, hu, r, hrof, hid.trans hown.symm, hrole⟩
    rw [hmof.unique ⟨hur', hu', r, hrof, hid'.trans hown.symm, hrole'⟩]
  · constructor
    · rintro ⟨⟨⟨ur, app⟩, r⟩, hx, rfl⟩
      obtain ⟨happ, hst, hur, hu, hid, hr, hown, hrole⟩ := (hrow ur app r).mp hx
      have hrof : db.RoleOf (c.value a) (c.value r.roleKey) r := ⟨hr, rfl, app, happ, hown⟩
      exact ⟨⟨app.info, ⟨app, happ, rfl⟩, hst⟩, _, r.info, ⟨r, hrof, rfl⟩,
        ⟨ur.info, ur, ⟨hur, hu, r, hrof, hid.trans hown.symm, hrole⟩, rfl⟩, rfl⟩
    · rintro ⟨⟨i, ⟨app, happ, rfl⟩, hst⟩, k, j, ⟨r, hrof, rfl⟩, ⟨m, ur, hur, -⟩, rfl⟩
      obtain ⟨hmem, hu, r', hrof', hid, hrole⟩ := hur
      obtain rfl := RoleOf.unique hrof hrof'
      obtain ⟨hr, -, app', happ', hown⟩ := hrof
      obtain rfl := happ.unique happ'
      exact ⟨((ur, app), r), (hrow ur app r).mpr ⟨happ, hst, hmem, hu, hid.trans hown, hr, hown,
        hrole⟩, rfl⟩

theorem permissionsOfApp : ListsOnce (((db.snapshot.selectAppId a).head?.toList.flatMap fun n =>
      db.snapshot.selectPermissions n).map SysPermission.info)
    fun i => ∃ p, (db.view (c.value a)).perm p i := by
  refine listsOnce_of_app (fun app happ => ?_) ?_
  · have hrow : ∀ p, p ∈ db.snapshot.selectPermissions app.id ↔
        p ∈ db.sysPermissions ∧ p.appId = app.id := by
      intro p
      simp [Snapshot.selectPermissions]
    refine .column (db.sysPermissions.nodup_rows.filter _) (fun p hp p' hp' hinfo => ?_) fun i => ?_
    · obtain ⟨hp, hid⟩ := (hrow p).mp hp
      obtain ⟨hp', hid'⟩ := (hrow p').mp hp'
      have hkey : p.info.permKey = p'.info.permKey := by rw [hinfo]
      change p.permKey = p'.permKey at hkey
      have hpof : db.PermOf (c.value a) (c.value p.permKey) p := ⟨hp, rfl, app, happ, hid⟩
      have hpof' : db.PermOf (c.value a) (c.value p.permKey) p' := ⟨hp', by rw [hkey], app, happ, hid'⟩
      exact PermOf.unique hpof hpof'
    · constructor
      · rintro ⟨p, hp, rfl⟩
        obtain ⟨hp, hid⟩ := (hrow p).mp hp
        exact ⟨_, p, ⟨hp, rfl, app, happ, hid⟩, rfl⟩
      · rintro ⟨q, p, ⟨hp, -, app', happ', hid⟩, rfl⟩
        obtain rfl := happ.unique happ'
        exact ⟨p, (hrow p).mpr ⟨hp, hid⟩, rfl⟩
  · rintro hnot i ⟨p, hperm⟩
    obtain ⟨i, app, happ, -⟩ := (db.view (c.value a)).info_of_perm hperm
    exact hnot app happ

end Db

/-! ## All of them -/

namespace PermissionDAO
set_option mvcgen.warning false
open Std.Do

theorem listPermissions_finds (a : String) : Reads (c := c) (listPermissions a) fun db r =>
    r.Perm ((db.snapshot.selectAppId a).head?.toList.flatMap fun n =>
      db.snapshot.selectPermissions n) := by
  have h : Reads (c := c) (withConnection [] _) _ := .withConnection (reads_column_of_app a
    "查询权限列表失败: " (fun n db => db.snapshot.selectPermissions n) id)
  simp only [List.map_id] at h
  exact h

theorem getApp_finds (a : String) : Reads (c := c) (getApp a) fun db r =>
    r = (db.snapshot.selectApp a).head? := by
  refine .withConnection (.of_spec fun σ₀ => ?_)
  mvcgen [reporting, catchSql]
  all_goals subst_vars
  case vc1 rows σ₁ h₁ =>
    refine ⟨h₁.1, fun _ => head?_eq_of_perm h₁.2 fun x hx y hy => ?_⟩
    obtain ⟨hx, hcode⟩ := (Snapshot.mem_selectApp _).mp hx
    obtain ⟨hy, hcode'⟩ := (Snapshot.mem_selectApp _).mp hy
    exact Db.app_unique _ hx hy hcode hcode'
  case vc2 _ σ₁ h₁ _ σ₂ h₂ => exact ⟨h₁.1.trans h₂, fun hh => (h₁.2 hh).elim⟩

end PermissionDAO
namespace Db
variable {db : Db c} {a : String}

theorem head?_selectApp_iff {i : SysApp} :
    (db.snapshot.selectApp a).head?.map SysApp.info = some i ↔ (db.view (c.value a)).info i := by
  constructor
  · intro h
    obtain ⟨app, happ, rfl⟩ := Option.map_eq_some_iff.mp h
    obtain ⟨happ, hcode⟩ := (Snapshot.mem_selectApp _).mp (List.mem_of_head? happ)
    exact ⟨app, .of_same happ hcode, rfl⟩
  · rintro ⟨app, happ, rfl⟩
    have hhead : (db.snapshot.selectApp a).head? = some app := by
      refine head?_of_mem ((Snapshot.mem_selectApp _).mpr ⟨happ.1, happ.same⟩) fun x hx y hy => ?_
      obtain ⟨hx, hcode⟩ := (Snapshot.mem_selectApp _).mp hx
      obtain ⟨hy, hcode'⟩ := (Snapshot.mem_selectApp _).mp hy
      exact app_unique _ hx hy hcode hcode'
    rw [hhead]
    rfl

/-- **The reading functions answer by the view**, as long as links stay in their apps. -/
theorem Linked.answers {σ : DaoState c} (hdb : σ.db.Linked) (hσ : σ.Healthy) (a : String) :
    Answers σ a (σ.db.view (c.value a)) where
  appExists := by
    have hread := (PermissionDAO.getAppId_reads a).result hσ
    have hrun : ((PermissionDAO.appExists a).run σ).1 =
        ((PermissionDAO.getAppId a).run σ).1.isSome := rfl
    rw [hrun, hread, DaoOp.view_info_iff, Option.isSome_iff_exists]
    constructor
    · rintro ⟨n, hn⟩
      obtain ⟨app, happ, hcode, -⟩ := DaoOp.exists_app_of_head? hn
      exact ⟨app, happ, hcode⟩
    · rintro ⟨app, happ, hcode⟩
      exact ⟨app.id, σ.db.head?_selectAppId happ hcode⟩
  getApp := by
    intro i
    rw [(PermissionDAO.getApp_finds a).result hσ, head?_selectApp_iff]
  permissionExists := by
    intro p
    rw [(PermissionDAO.permissionExists_reads a p).result hσ]
    constructor
    · rintro ⟨n, hn, q, hq⟩
      obtain ⟨app, happ, hcode, rfl⟩ := DaoOp.exists_app_of_head? hn
      simp only [Snapshot.selectPermissionOf, List.mem_filter, Bool.and_eq_true, beq_iff_eq] at hq
      exact ⟨q.info, q, ⟨hq.1, (c.same_iff_value _ _).mp hq.2.2, app, .of_same happ hcode, hq.2.1⟩,
        rfl⟩
    · rintro ⟨i, q, ⟨hq, hkey, app, happ, hid⟩, -⟩
      refine ⟨app.id, selectAppId_of_appOf happ, q, ?_⟩
      simp only [Snapshot.selectPermissionOf, List.mem_filter, Bool.and_eq_true, beq_iff_eq]
      exact ⟨hq, hid, (c.same_iff_value _ _).mpr hkey⟩
  listPermissions :=
    permissionsOfApp.perm (((PermissionDAO.listPermissions_finds a).result hσ).map _)
  getRolePermissions k :=
    (hdb.rolePermissions k).perm ((PermissionDAO.getRolePermissions_reads a k).result hσ)
  getRolesWithPermission p :=
    (hdb.rolesWithPermission p).perm ((PermissionDAO.getRolesWithPermission_reads a p).result hσ)
  getUserRoles u := (hdb.userRoles u).perm ((PermissionDAO.getUserRoles_reads a u).result hσ)

end Db

/-- **What the reading functions answer is known from the history of calls.**  After any run
from tables that have been reached, whatever fails in it, a function in which nothing fails
answers about every app by what the edits of the calls that have returned true add up to. -/
theorem answers_of_history {σ : DaoState c} (hσ : σ.db.Reachable) (l : List DaoCall)
    {τ : DaoState c} (hτ : τ.db = (run DaoState.call σ l).db) (hhealthy : τ.Healthy) (a : String) :
    Answers τ a (run View.reply σ.db.view (σ.replies l) (c.value a)) := by
  have hlinked : τ.db.Linked := by
    rw [hτ]
    exact (hσ.run_calls l).linked
  rw [← DaoState.view_run hσ l, ← hτ]
  exact hlinked.answers hhealthy a

/-- A permission is deleted, with no connection for the first attempt. -/
theorem answers_of_history_deletion :
    let σ : DaoState .binary := DaoState.start 0
    let l : List DaoCall := [⟨.deletePermission "qq_bot" "member:kick", [.refused none], 7⟩,
      ⟨.deletePermission "qq_bot" "member:kick", [], 8⟩]
    Answers (run DaoState.call σ l) "qq_bot"
      (run View.reply σ.db.view (σ.replies l) (Collation.binary.value "qq_bot")) :=
  answers_of_history (DaoState.start_reachable 0) _ rfl
    (by rw [DaoState.start_eq_seeded]; decide +kernel) _

end SiqiAuth
