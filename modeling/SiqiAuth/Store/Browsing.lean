import SiqiAuth.Store.Answers
import SiqiAuth.Store.PageBorders

/-!
# What the listings show

`listApps`, `listRoles`, `getRoleUsers` and `listUserRoles` join and group rows, and hand them out
in pages.  What they show can still be read off the view, rows that deletions have left behind
and all: their entries are those of the view.  So what a reader of all pages gets is known from
the history of calls, and so is when the pages, and the keys in one column, get in the way.

## Main definitions

* `AppShown`, `Shows` — what the listings show of an app, and of all tables.
* `Db.Linked.shows` — they show the view.
* `listings_of_history` — after any run.
-/

namespace SiqiAuth
open Lib

variable {c : Collation}

/-- A column of concatenated keys gives them back just when they are readable. -/
def KeysShown (column : List String) (P : String → Prop) : Prop :=
  ∃ keys, ListsOnce keys P ∧ ("" ∉ keys → (column.Perm keys ↔ Readable keys))

/-- What a listed role says. -/
def SysRole.columns (r : SysRole) : String × String × String × Bool :=
  (r.roleName, r.roleKey, r.description, r.isDefault)

def PermissionDAO.RoleInfo.columns (r : PermissionDAO.RoleInfo) : String × String × String × Bool :=
  (r.roleName, r.roleKey, r.description, r.isDefault)

/-- Whether `listApps` picks an app, by a part of its name and by its status. -/
def SysApp.Picked (c : Collation) (n : Option String) (st : Option ℤ) (i : SysApp) : Prop :=
  (n.all fun n => like c.sameChar ("%" ++ n ++ "%").toList i.appName.toList) = true ∧
    (st.all fun st => i.status == st) = true

/-- What the listings show of an app that looks like `s`. -/
structure AppShown (db : Db c) (a : String)
    (s : Rbac c.Value c.Value c.Value SysApp SysRole SysPermission SysUserRole) : Prop where
  roles : ∀ τ : DaoState c, τ.db = db → τ.Healthy →
    ListsOnce (((PermissionDAO.listRoles a).run τ).1.map PermissionDAO.RoleInfo.columns)
      fun x => ∃ r j, s.role r j ∧ j.columns = x
  roleKeys : ∀ τ : DaoState c, τ.db = db → ∀ entry ∈ ((PermissionDAO.listRoles a).run τ).1,
    KeysShown entry.permKeys fun key => ∃ p i, s.perm p i ∧ s.bound (c.value entry.roleKey) p ∧
      i.permKey = key
  roleUsers : ∀ k, ∃ xs, ListsOnce xs (fun x => ∃ u m, s.member u (c.value k) m ∧
      (m.appUserId, m.createdAt) = x) ∧
    ∀ size : ℤ, 1 ≤ size →
      (PagesOnce (fun page size => PermissionDAO.getRoleUsers a k page size) db size id xs ↔
        PagesFetch xs.length xs.length size ∧ ∀ p, ¬ TieAt Prod.snd xs (p * size.toNat))
  users : ∀ userId : Option String, ∃ xs, ListsOnce xs (fun x =>
      (∀ v ∈ userId, v ≠ "" → x.1 = c.value v) ∧
        IsLeast {t | ∃ r m, s.member x.1 r m ∧ m.createdAt = t} x.2) ∧
    ∀ size : ℤ, 1 ≤ size →
      (PagesOnce (fun page size => PermissionDAO.listUserRoles a page size userId) db size
          (fun e => (c.value e.userId, e.createdAt)) xs ↔
        PagesFetch xs.length (db.countedUsers a userId) size ∧
          ∀ p, ¬ TieAt Prod.snd xs (p * size.toNat))
  userKeys : ∀ τ : DaoState c, τ.db = db → ∀ page size userId,
    ∀ entry ∈ ((PermissionDAO.listUserRoles a page size userId).run τ).1.1,
      KeysShown entry.roleKeys (fun key => ∃ r j m, s.role r j ∧
        s.member (c.value entry.userId) r m ∧ j.roleKey = key) ∧
      KeysShown entry.permKeys fun key => ∃ r m p i, s.member (c.value entry.userId) r m ∧
        s.bound r p ∧ s.perm p i ∧ i.permKey = key

/-- What the listings show of tables that look like `v`. -/
structure Shows (db : Db c) (v : View c) : Prop where
  apps : ∀ n st, ∃ xs : List SysApp, ListsOnce (xs.map SysApp.info)
      (fun i => (∃ k, (v k).info i) ∧ i.Picked c n st) ∧
    ∀ size : ℤ, 1 ≤ size →
      (PagesOnce (fun page size => PermissionDAO.listApps page size n st) db size id xs ↔
        PagesFetch xs.length xs.length size)
  app : ∀ a, AppShown db a (v (c.value a))

/-! ## Apps -/

namespace Db
variable {db : Db c}

theorem listsOnce_apps (n : Option String) (st : Option ℤ) :
    ListsOnce ((db.snapshot.selectApps n st).map SysApp.info) fun i =>
      (∃ k, (db.view k).info i) ∧ i.Picked c n st := by
  have hrow : ∀ app, app ∈ db.snapshot.selectApps n st ↔
      app ∈ db.sysApps ∧ app.info.Picked c n st := by
    intro app
    simp only [Snapshot.selectApps, List.mem_filter, Bool.and_eq_true]
    rfl
  refine .column (db.sysApps.nodup_rows.filter _) (fun app happ app' happ' hinfo => ?_) fun i => ?_
  · obtain ⟨happ, -⟩ := (hrow app).mp happ
    obtain ⟨happ', -⟩ := (hrow app').mp happ'
    have hcode : app.info.appCode = app'.info.appCode := by rw [hinfo]
    exact AppOf.unique ⟨happ, rfl⟩ ⟨happ', congrArg c.value hcode.symm⟩
  · constructor
    · rintro ⟨app, happ, rfl⟩
      obtain ⟨happ, hpicked⟩ := (hrow app).mp happ
      exact ⟨⟨_, app, ⟨happ, rfl⟩, rfl⟩, hpicked⟩
    · rintro ⟨⟨k, app, happ, rfl⟩, hpicked⟩
      exact ⟨app, (hrow app).mpr ⟨happ.1, hpicked⟩, rfl⟩

/-! ## Roles -/

section Roles
variable {a k : String} {app : SysApp} {role : SysRole}

/-- The keys of the permissions that are bound to a role. -/
theorem Linked.listsOnce_permsOf (hdb : db.Linked) (happ : AppOf db.sysApps (c.value a) app)
    (hr : role ∈ db.sysRoles) (hid : role.appId = app.id) :
    ListsOnce ((db.permsOf role).map SysPermission.permKey) fun key => ∃ p i,
      (db.view (c.value a)).perm p i ∧ (db.view (c.value a)).bound (c.value role.roleKey) p ∧
        i.permKey = key := by
  have hrof : db.RoleOf (c.value a) (c.value role.roleKey) role := ⟨hr, rfl, app, happ, hid⟩
  have hpof : ∀ p ∈ db.permsOf role, db.PermOf (c.value a) (c.value p.permKey) p := by
    intro p hp
    obtain ⟨hp, rp, hrp, hrole, hperm⟩ := mem_permsOf.mp hp
    exact hdb.permOf_of_binding happ hr hid hrp hrole hp hperm
  refine .column (nodup_permsOf role) (fun p hp p' hp' hkey => ?_) fun key => ?_
  · have h := hpof p' hp'
    rw [← hkey] at h
    exact PermOf.unique (hpof p hp) h
  · constructor
    · rintro ⟨p, hp, rfl⟩
      obtain ⟨-, rp, hrp, hrole, hperm⟩ := mem_permsOf.mp hp
      exact ⟨_, p.info, ⟨p, hpof p hp, rfl⟩,
        ⟨rp, hrp, role, hrof, hrole, p, hpof p hp, hperm⟩, rfl⟩
    · rintro ⟨q, i, ⟨p, hp, rfl⟩, ⟨rp, hrp, r, hr', hrole, p', hp', hperm⟩, rfl⟩
      obtain rfl := RoleOf.unique hrof hr'
      obtain rfl := PermOf.unique hp hp'
      exact ⟨p, mem_permsOf.mpr ⟨hp.1, rp, hrp, hrole, hperm⟩, rfl⟩

/-- The roles whose rows `listRoles` groups. -/
theorem listsOnce_roles (happ : AppOf db.sysApps (c.value a) app)
    {rows : List ((SysRole × Option SysRolePermission) × Option SysPermission)}
    (hrows : rows.Perm (db.snapshot.selectRoles app.id)) :
    ListsOnce ((distinct (fun x y => x.1.1.id == y.1.1.id) rows).map fun x => x.1.1.columns)
      fun x => ∃ r j, (db.view (c.value a)).role r j ∧ j.columns = x := by
  have hq : ∀ x y : PermissionDAO.RoleJoin, (x.1.1.id == y.1.1.id) = true ↔ x.1.1.id = y.1.1.id :=
    fun x y => beq_iff_eq
  have hids := nodup_map_distinct hq rows
  have hrow : ∀ x ∈ distinct (fun x y => x.1.1.id == y.1.1.id) rows,
      x.1.1 ∈ db.sysRoles ∧ x.1.1.appId = app.id := by
    intro x hx
    obtain ⟨hr, hid, -⟩ := permsOf_perm_group hrows (mem_of_mem_distinct hx)
    exact ⟨hr, hid⟩
  refine .column (List.Nodup.of_map _ hids) (fun x hx y hy hcolumns => ?_) fun key => ?_
  · obtain ⟨hr, hid⟩ := hrow x hx
    obtain ⟨hr', hid'⟩ := hrow y hy
    have hkey : x.1.1.columns.2.1 = y.1.1.columns.2.1 := by rw [hcolumns]
    have hrole : x.1.1 = y.1.1 := RoleOf.unique (k := c.value a) ⟨hr, rfl, app, happ, hid⟩
      ⟨hr', congrArg c.value hkey.symm, app, happ, hid'⟩
    exact List.inj_on_of_nodup_map hids hx hy (congrArg SysRole.id hrole)
  · constructor
    · rintro ⟨x, hx, rfl⟩
      obtain ⟨hr, hid⟩ := hrow x hx
      exact ⟨_, x.1.1.info, ⟨x.1.1, ⟨hr, rfl, app, happ, hid⟩, rfl⟩, rfl⟩
    · rintro ⟨k, j, ⟨r, hrof, rfl⟩, rfl⟩
      obtain ⟨hr, -, app', happ', hid⟩ := hrof
      obtain rfl := happ.unique happ'
      obtain ⟨b, p, hmem⟩ : ∃ b p, ((r, b), p) ∈ db.snapshot.withPerms db.snapshot.roles id :=
        Snapshot.exists_mem_withPerms.mpr hr
      have hsel : ((r, b), p) ∈ rows := by
        refine hrows.symm.subset ?_
        rw [Snapshot.selectRoles_eq, List.mem_filter, beq_iff_eq]
        exact ⟨hmem, hid⟩
      obtain ⟨x, hx, hxid⟩ := List.mem_map.mp ((mem_map_distinct hq).mpr (List.mem_map_of_mem hsel))
      obtain ⟨hr', -⟩ := hrow x hx
      have hrole : x.1.1 = r := Table.eq_of_id hr' hr hxid
      refine ⟨x, hx, ?_⟩
      rw [hrole]
      rfl

/-- The users of a role. -/
theorem Linked.listsOnce_roleUsers (hdb : db.Linked) (a k : String) :
    ListsOnce (db.roleUsers a k) fun x => ∃ u m,
      (db.view (c.value a)).member u (c.value k) m ∧ (m.appUserId, m.createdAt) = x := by
  refine ⟨nodup_roleUsers hdb a k, fun x => ?_⟩
  by_cases happ : ∃ app, AppOf db.sysApps (c.value a) app
  · obtain ⟨app, happ⟩ := happ
    rw [roleUsers, selectAppId_of_appOf happ, Option.elim_some, List.mem_map]
    simp only [Prod.exists, Snapshot.selectRoleUsers, List.mem_filter, mem_join, Bool.and_eq_true,
      beq_iff_eq]
    constructor
    · rintro ⟨ur, r, ⟨⟨hur, hr, hrole⟩, hid, hkey⟩, rfl⟩
      exact ⟨_, ur.info, ⟨ur, ⟨hur, rfl, r, ⟨hr, (c.same_iff_value _ _).mp hkey, app, happ, hid⟩,
        (hdb.assignment ur hur r hr hrole.symm).symm, hrole⟩, rfl⟩, rfl⟩
    · rintro ⟨u, m, ⟨ur, ⟨hur, -, r, ⟨hr, hkey, app', happ', hid⟩, -, hrole⟩, rfl⟩, rfl⟩
      obtain rfl := happ.unique happ'
      exact ⟨ur, r, ⟨⟨hur, hr, hrole⟩, hid, (c.same_iff_value _ _).mpr hkey⟩, rfl⟩
  · rw [roleUsers, selectAppId_of_not fun app h => happ ⟨app, h⟩]
    refine iff_of_false List.not_mem_nil ?_
    rintro ⟨u, m, ⟨ur, ⟨-, -, r, ⟨-, -, app, happ', -⟩, -⟩, -⟩, -⟩
    exact happ ⟨app, happ'⟩

end Roles

/-! ## Users -/

section Users
variable {a : String} {app : SysApp} {u : c.Value}

/-- The first time of a group is a time in it, and none is earlier. -/
theorem isLeast_firstCreated {x : Snapshot.UserRoleJoin} {l : List Snapshot.UserRoleJoin}
    (hx : x ∈ l) : IsLeast {t | ∃ y ∈ l, y.ur.createdAt = t} (PermissionDAO.firstCreated x l) := by
  obtain ⟨-, hle⟩ := (le_firstCreated_iff x l).mp (le_refl _)
  refine ⟨?_, ?_⟩
  · by_contra hnot
    have hlt : ∀ y ∈ l, PermissionDAO.firstCreated x l + 1 ≤ y.ur.createdAt := by
      intro y hy
      exact lt_of_le_of_ne (hle y hy) fun h => hnot ⟨y, hy, h.symm⟩
    have hself := (le_firstCreated_iff x l).mpr ⟨hlt x hx, hlt⟩
    omega
  · rintro t ⟨y, hy, rfl⟩
    exact hle y hy

/-- The rows that `listUserRoles` groups by user are those of the user's roles. -/
theorem Linked.memberOf_iff (hdb : db.Linked) (happ : AppOf db.sysApps (c.value a) app)
    {ur : SysUserRole} : (∃ r, db.MemberOf (c.value a) u r ur) ↔
      c.value ur.appUserId = u ∧ ur ∈ db.sysUserRoles ∧ ur.appId = app.id ∧
        ∃ r ∈ db.sysRoles, ur.roleId = r.id := by
  constructor
  · rintro ⟨k, hur, hu, r, ⟨hr, -, app', happ', hid⟩, hown, hrole⟩
    obtain rfl := happ.unique happ'
    exact ⟨hu, hur, hown.trans hid, r, hr, hrole⟩
  · rintro ⟨hu, hur, hid, r, hr, hrole⟩
    have hown := hdb.assignment ur hur r hr hrole.symm
    exact ⟨_, hur, hu, r, ⟨hr, rfl, app, happ, hown.trans hid⟩, hown.symm, hrole⟩

section Rows
variable {userId : Option String}

/-- The assignments in the rows that `listUserRoles` groups by user are those of users whom the
filter lets through. -/
theorem Linked.exists_row_iff (hdb : db.Linked) (happ : AppOf db.sysApps (c.value a) app)
    {ur : SysUserRole} :
    (∃ y ∈ db.snapshot.selectUserRoleData app.id (userId.filter (· ≠ "")),
      c.value y.ur.appUserId = u ∧ y.ur = ur) ↔
    (∀ v ∈ userId, v ≠ "" → u = c.value v) ∧ ∃ r, db.MemberOf (c.value a) u r ur := by
  have hpasses : ∀ s : String, ((userId.filter (· ≠ "")).all fun v => c.same s v) = true ↔
      ∀ v ∈ userId, v ≠ "" → c.value s = c.value v := by
    intro s
    cases userId with
    | none => simp
    | some v => by_cases hv : v = "" <;> simp [hv, c.same_iff_value]
  rw [hdb.memberOf_iff happ]
  constructor
  · rintro ⟨⟨ur, r, p⟩, hy, rfl, rfl⟩
    obtain ⟨⟨hur, hr, hrole⟩, hid, hall⟩ := Snapshot.exists_mem_selectUserRoleData.mp ⟨p, hy⟩
    exact ⟨(hpasses _).mp hall, rfl, hur, hid, r, hr, hrole⟩
  · rintro ⟨hall, rfl, hur, hid, r, hr, hrole⟩
    obtain ⟨p, hy⟩ := (Snapshot.exists_mem_selectUserRoleData (s := db.snapshot)).mpr
      ⟨⟨hur, hr, hrole⟩, hid, (hpasses _).mpr hall⟩
    exact ⟨⟨ur, r, p⟩, hy, rfl, rfl⟩

/-- The time in the entry of a user is that of the user's first role. -/
theorem Linked.isLeast_userEntry (hdb : db.Linked) (happ : AppOf db.sysApps (c.value a) app)
    {x : Snapshot.UserRoleJoin}
    (hx : x ∈ db.snapshot.selectUserRoleData app.id (userId.filter (· ≠ ""))) :
    IsLeast {t | ∃ r m, (db.view (c.value a)).member (c.value x.ur.appUserId) r m ∧ m.createdAt = t}
      (userEntry c (db.snapshot.selectUserRoleData app.id (userId.filter (· ≠ ""))) x).2 := by
  let rows := db.snapshot.selectUserRoleData app.id (userId.filter (· ≠ ""))
  obtain ⟨hall, -⟩ := (hdb.exists_row_iff happ).mp ⟨x, hx, rfl, rfl⟩
  have hset : {t | ∃ y ∈ rows.filter fun y => c.same x.ur.appUserId y.ur.appUserId,
      y.ur.createdAt = t} = {t | ∃ r m,
        (db.view (c.value a)).member (c.value x.ur.appUserId) r m ∧ m.createdAt = t} := by
    ext t
    constructor
    · rintro ⟨y, hy, rfl⟩
      obtain ⟨hy, hsame⟩ := List.mem_filter.mp hy
      obtain ⟨-, r, hm⟩ := (hdb.exists_row_iff happ).mp
        ⟨y, hy, ((c.same_iff_value _ _).mp hsame).symm, rfl⟩
      exact ⟨r, y.ur.info, ⟨y.ur, hm, rfl⟩, rfl⟩
    · rintro ⟨r, m, ⟨ur, hm, rfl⟩, rfl⟩
      obtain ⟨y, hy, hyu, rfl⟩ := (hdb.exists_row_iff happ).mpr ⟨hall, r, hm⟩
      exact ⟨y, List.mem_filter.mpr ⟨hy, (c.same_iff_value _ _).mpr hyu.symm⟩, rfl⟩
  rw [← hset]
  exact isLeast_firstCreated (List.mem_filter.mpr ⟨hx, c.same_refl _⟩)

end Rows

/-- The users that `listUserRoles` shows, with the times of their first roles. -/
theorem Linked.listsOnce_listedUsers (hdb : db.Linked) (a : String) (userId : Option String) :
    ListsOnce (db.listedUsers a userId) fun x => (∀ v ∈ userId, v ≠ "" → x.1 = c.value v) ∧
      IsLeast {t | ∃ r m, (db.view (c.value a)).member x.1 r m ∧ m.createdAt = t} x.2 := by
  refine ⟨nodup_listedUsers db a userId, fun x => ?_⟩
  by_cases happ : ∃ app, AppOf db.sysApps (c.value a) app
  · obtain ⟨app, happ⟩ := happ
    rw [listedUsers, selectAppId_of_appOf happ, Option.elim_some, map_groups, List.mem_map]
    constructor
    · rintro ⟨x, hx, rfl⟩
      have hx := mem_of_mem_distinct hx
      exact ⟨((hdb.exists_row_iff happ).mp ⟨x, hx, rfl, rfl⟩).1, hdb.isLeast_userEntry happ hx⟩
    · rintro ⟨hall, ht⟩
      obtain ⟨r, m, ⟨ur, hm, -⟩, -⟩ := ht.1
      obtain ⟨y, hy, hyu, -⟩ := (hdb.exists_row_iff happ).mpr ⟨hall, r, hm⟩
      obtain ⟨z, hz, hzu⟩ := List.mem_map.mp ((mem_map_distinct (sameUser_iff (c := c))).mpr
        (List.mem_map_of_mem hy))
      have hu : c.value z.ur.appUserId = x.1 := hzu.trans hyu
      have hz' := hdb.isLeast_userEntry happ (mem_of_mem_distinct hz)
      rw [hu] at hz'
      exact ⟨z, hz, Prod.ext hu (hz'.unique ht)⟩
  · rw [listedUsers, selectAppId_of_not fun app h => happ ⟨app, h⟩]
    refine iff_of_false List.not_mem_nil ?_
    rintro ⟨-, ⟨r, m, ⟨ur, ⟨-, -, x, ⟨-, -, app, happ', -⟩, -⟩, -⟩, -⟩, -⟩
    exact happ ⟨app, happ'⟩

/-- The keys of the roles of a user. -/
theorem Linked.listsOnce_rolesOf (hdb : db.Linked) (happ : AppOf db.sysApps (c.value a) app)
    (u : String) : ListsOnce ((db.rolesOf app u).map SysRole.roleKey) fun key => ∃ r j m,
      (db.view (c.value a)).role r j ∧ (db.view (c.value a)).member (c.value u) r m ∧
        j.roleKey = key := by
  have hrole : ∀ r, r ∈ db.rolesOf app u ↔ ∃ ur,
      db.MemberOf (c.value a) (c.value u) (c.value r.roleKey) ur ∧ ur.roleId = r.id ∧
        r ∈ db.sysRoles := by
    intro r
    rw [mem_rolesOf]
    constructor
    · rintro ⟨hr, ur, hur, hid, hu, hrole⟩
      have hown := hdb.assignment ur hur r hr hrole.symm
      exact ⟨ur, ⟨hur, (c.same_iff_value _ _).mp hu, r, ⟨hr, rfl, app, happ, hown.trans hid⟩,
        hown.symm, hrole⟩, hrole, hr⟩
    · rintro ⟨ur, ⟨hur, hu, x, ⟨-, -, app', happ', hid⟩, hown, -⟩, hrole, hr⟩
      obtain rfl := happ.unique happ'
      exact ⟨hr, ur, hur, hown.trans hid, (c.same_iff_value _ _).mpr hu, hrole⟩
  refine .column (nodup_rolesOf app u) (fun r hr r' hr' hkey => ?_) fun key => ?_
  · exact hdb.rolesOf_unique hr hr' ((c.same_iff_value _ _).mpr (congrArg c.value hkey))
  · constructor
    · rintro ⟨r, hr, rfl⟩
      obtain ⟨ur, hur, hid, hmem⟩ := (hrole r).mp hr
      obtain ⟨-, -, x, hx, -, hid'⟩ := id hur
      obtain rfl : x = r := Table.eq_of_id hx.1 hmem (hid'.symm.trans hid)
      exact ⟨_, x.info, ur.info, ⟨x, hx, rfl⟩, ⟨ur, hur, rfl⟩, rfl⟩
    · rintro ⟨k, j, m, ⟨r, hr, rfl⟩, ⟨ur, hur, -⟩, rfl⟩
      obtain ⟨hmem, hu, x, hx, hown, hid⟩ := hur
      obtain rfl := RoleOf.unique hr hx
      obtain ⟨hr', -, hown'⟩ := hr
      exact ⟨r, (hrole r).mpr ⟨ur, ⟨hmem, hu, r, ⟨hr', rfl, hown'⟩, hown, hid⟩, hid, hr'⟩, rfl⟩

/-- The keys of the permissions that are bound to them. -/
theorem Linked.listsOnce_permsOfUser (hdb : db.Linked) (happ : AppOf db.sysApps (c.value a) app)
    (u : String) : ListsOnce ((db.permsOfUser app u).map SysPermission.permKey) fun key =>
      ∃ r m p i, (db.view (c.value a)).member (c.value u) r m ∧
        (db.view (c.value a)).bound r p ∧ (db.view (c.value a)).perm p i ∧ i.permKey = key := by
  refine .column (nodup_permsOfUser app u) (fun p hp p' hp' hkey => ?_) fun key => ?_
  · exact hdb.permsOfUser_unique happ.1 hp hp' ((c.same_iff_value _ _).mpr (congrArg c.value hkey))
  · simp only [mem_permsOfUser, mem_rolesOf, mem_permsOf]
    constructor
    · rintro ⟨p, ⟨r, ⟨hr, ur, hur, hid, hu, hrole⟩, hp, rp, hrp, hrole', hperm⟩, rfl⟩
      have hown := hdb.assignment ur hur r hr hrole.symm
      have hrof : db.RoleOf (c.value a) (c.value r.roleKey) r :=
        ⟨hr, rfl, app, happ, hown.trans hid⟩
      have hpof := hdb.permOf_of_binding happ hr (hown.trans hid) hrp hrole' hp hperm
      exact ⟨_, ur.info, _, p.info,
        ⟨ur, ⟨hur, (c.same_iff_value _ _).mp hu, r, hrof, hown.symm, hrole⟩, rfl⟩,
        ⟨rp, hrp, r, hrof, hrole', p, hpof, hperm⟩, ⟨p, hpof, rfl⟩, rfl⟩
    · rintro ⟨k, m, q, i, ⟨ur, ⟨hur, hu, r, hrof, hown, hrole⟩, -⟩,
        ⟨rp, hrp, r', hrof', hrole', p', hpof', hperm⟩, ⟨p, hpof, rfl⟩, rfl⟩
      obtain rfl := RoleOf.unique hrof hrof'
      obtain rfl := PermOf.unique hpof hpof'
      obtain ⟨hr, -, app', happ', hid⟩ := hrof
      obtain rfl := happ.unique happ'
      exact ⟨p, ⟨r, ⟨hr, ur, hur, hown.trans hid, (c.same_iff_value _ _).mpr hu, hrole⟩, hpof.1, rp,
        hrp, hrole', hperm⟩, rfl⟩

end Users
end Db

/-! ## The functions -/

/-- What is read back of keys that are concatenated. -/
theorem ListsOnce.keysShown {keys keys' : List String} {P : String → Prop} (h : ListsOnce keys P)
    (hperm : keys'.Perm keys) : KeysShown (PermissionDAO.splitKeys (groupConcat keys')) P := by
  refine ⟨keys, h, fun hempty => readBack_perm_iff (fun k hk hnil => ?_) hperm⟩
  rw [hnil] at hk
  exact hempty hk

/-- When nothing fails, `listRoles` returns an entry for each group. -/
theorem run_listRoles {σ : DaoState c} (hσ : σ.Healthy) (a : String) :
    ((PermissionDAO.listRoles a).run σ).1 = ((σ.db.snapshot.selectAppId a).head?.elim [] fun n =>
      groups (fun x y => x.1.1.id == y.1.1.id)
        (arrange (σ.picks 3) (σ.db.snapshot.selectRoles n))).map PermissionDAO.roleInfo := by
  have hlends : (σ.outcomes.headD (.answered [])).lends = true :=
    Outcome.lends_of_succeeds hσ.outcome
  have hfound : (PermissionDAO.getAppId a).run σ.after =
      ((σ.db.snapshot.selectAppId a).head?, σ.after.after.after) :=
    run_getAppId (getThrough_of_succeeds hσ.after _)
  rw [PermissionDAO.listRoles, run_withConnection hlends]
  change (StateT.run (PermissionDAO.getAppId a >>= _) σ.after).1 = _
  rw [StateT.run_bind, hfound]
  cases hhead : (σ.db.snapshot.selectAppId a).head? with
  | none => rfl
  | some n =>
      change ((fetchWith _ _ >>= _ : Dao c _).run σ.after.after.after).1 = _
      rw [StateT.run_bind, run_fetchWith]
      refine (fst_run_report _ _ _ _).trans ?_
      change ((deliver σ.after.after.after.outcome (.ok (groups (fun x y => x.1.1.id == y.1.1.id)
        (arrange σ.after.after.after.outcome.picks (σ.db.snapshot.selectRoles n))))).1.map
          PermissionDAO.roleInfo) = _
      rw [PermissionDAO.deliver_of_succeeds hσ.after.after.after.outcome, DaoState.picks_succ,
        DaoState.picks_succ, DaoState.picks_succ, DaoState.picks_zero]
      rfl

namespace Db
variable {db : Db c}

theorem Linked.appShown (hdb : db.Linked) (a : String) :
    AppShown db a (db.view (c.value a)) where
  roles τ hτ hhealthy := by
    subst hτ
    rw [run_listRoles hhealthy]
    by_cases happ : ∃ app, AppOf τ.db.sysApps (c.value a) app
    · obtain ⟨app, happ⟩ := happ
      rw [selectAppId_of_appOf happ, Option.elim_some, groups, List.map_map, List.map_map]
      exact listsOnce_roles happ (arrange_perm _ _)
    · rw [selectAppId_of_not fun app h => happ ⟨app, h⟩]
      refine ⟨List.nodup_nil, fun x => iff_of_false List.not_mem_nil ?_⟩
      rintro ⟨r, j, hrole, -⟩
      obtain ⟨i, app, happ', -⟩ := (τ.db.view (c.value a)).info_of_role hrole
      exact happ ⟨app, happ'⟩
  roleKeys τ hτ entry hentry := by
    subst hτ
    obtain ⟨app, happ, hcode, picks, g, hg, rfl⟩ := PermissionDAO.listRoles_entry hentry
    obtain ⟨x, group⟩ := g
    obtain ⟨hx, rfl⟩ := mem_groups.mp hg
    obtain ⟨hrole, hid, hperms⟩ :=
      permsOf_perm_group (arrange_perm picks _) (mem_of_mem_distinct hx)
    have hgroup := hperms.map SysPermission.permKey
    rw [List.map_filterMap] at hgroup
    exact (hdb.listsOnce_permsOf (.of_same happ hcode) hrole hid).keysShown hgroup
  roleUsers k := ⟨_, hdb.listsOnce_roleUsers a k, fun _ hsize =>
    getRoleUsers_pagesOnce_iff hsize hdb a k⟩
  users userId := ⟨_, hdb.listsOnce_listedUsers a userId, fun _ hsize =>
    listUserRoles_pagesOnce_iff hsize a userId⟩
  userKeys τ hτ page size userId entry hentry := by
    subst hτ
    obtain ⟨app, happ, hcode, picks, g, hg, rfl⟩ := PermissionDAO.listUserRoles_entry hentry
    obtain ⟨x, group⟩ := g
    obtain ⟨hx, rfl⟩ := mem_groups.mp hg
    obtain ⟨⟨-, hroles⟩, -, hperms⟩ :=
      keys_perm_group hdb happ (arrange_perm picks _) (mem_of_mem_distinct hx)
    exact ⟨(hdb.listsOnce_rolesOf (.of_same happ hcode) _).keysShown hroles,
      (hdb.listsOnce_permsOfUser (.of_same happ hcode) _).keysShown hperms⟩

/-- **The listings show the view**, as long as links stay in their apps. -/
theorem Linked.shows (hdb : db.Linked) : Shows db db.view where
  apps n st := ⟨_, listsOnce_apps n st, fun _ hsize => listApps_pagesOnce_iff hsize n st⟩
  app := hdb.appShown

end Db

end SiqiAuth
