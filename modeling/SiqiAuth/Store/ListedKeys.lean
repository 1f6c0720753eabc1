import SiqiAuth.Store.Edits
import SiqiAuth.Store.Listings

/-!
# Keys in the listings

`listRoles` and `listUserRoles` read the keys of a group from a column in which the server has
joined them.  Within an app the unique keys tell roles and permissions apart, so what is joined
are the keys of the rows that belong to the entry, each once; whether they come back depends on
the keys alone.

## Main definitions

* `Db.permsOf`, `Db.rolesOf`, `Db.permsOfUser` — the rows that belong to an entry.
* `Db.Keyed` — every role and every permission has a key.
* `Snapshot.withPerms` — rows with the permissions bound to their roles.
* `listRoles_entry`, `listUserRoles_entry` — where an entry comes from, whatever happens.
* `listed_keys_iff` — when the keys of an entry are those of its rows.
-/

namespace SiqiAuth
open Lib

variable {c : Collation}

namespace Db
variable (db : Db c)

/-- The permissions bound to a role. -/
def permsOf (role : SysRole) : List SysPermission :=
  db.sysPermissions.rows.filter fun p =>
    decide (∃ rp ∈ db.sysRolePermissions, rp.roleId = role.id ∧ rp.permId = p.id)

/-- The existing roles that are assigned to a user in an app. -/
def rolesOf (app : SysApp) (userId : String) : List SysRole :=
  db.sysRoles.rows.filter fun r => decide (∃ ur ∈ db.sysUserRoles, ur.appId = app.id ∧
    c.same ur.appUserId userId = true ∧ ur.roleId = r.id)

/-- The permissions bound to those roles. -/
def permsOfUser (app : SysApp) (userId : String) : List SysPermission :=
  db.sysPermissions.rows.filter fun p =>
    decide (∃ r ∈ db.rolesOf app userId, p ∈ db.permsOf r)

/-- Every role and every permission has a key. -/
structure Keyed : Prop where
  role : ∀ r ∈ db.sysRoles, r.roleKey ≠ ""
  perm : ∀ p ∈ db.sysPermissions, p.permKey ≠ ""

variable {db}

theorem mem_permsOf {role : SysRole} {p : SysPermission} :
    p ∈ db.permsOf role ↔ p ∈ db.sysPermissions ∧
      ∃ rp ∈ db.sysRolePermissions, rp.roleId = role.id ∧ rp.permId = p.id := by
  simp [permsOf]

theorem mem_rolesOf {app : SysApp} {u : String} {r : SysRole} : r ∈ db.rolesOf app u ↔
    r ∈ db.sysRoles ∧ ∃ ur ∈ db.sysUserRoles, ur.appId = app.id ∧
      c.same ur.appUserId u = true ∧ ur.roleId = r.id := by
  simp [rolesOf]

theorem mem_permsOfUser {app : SysApp} {u : String} {p : SysPermission} :
    p ∈ db.permsOfUser app u ↔ ∃ r ∈ db.rolesOf app u, p ∈ db.permsOf r := by
  simp only [permsOfUser, List.mem_filter, decide_eq_true_eq, and_iff_right_iff_imp]
  intro h
  obtain ⟨r, -, hp⟩ := h
  exact (mem_permsOf.mp hp).1

theorem nodup_permsOf (role : SysRole) : (db.permsOf role).Nodup :=
  db.sysPermissions.nodup_rows.filter _

theorem nodup_rolesOf (app : SysApp) (u : String) : (db.rolesOf app u).Nodup :=
  db.sysRoles.nodup_rows.filter _

theorem nodup_permsOfUser (app : SysApp) (u : String) : (db.permsOfUser app u).Nodup :=
  db.sysPermissions.nodup_rows.filter _

/-- A binding is one row. -/
theorem binding_unique {rp rp' : SysRolePermission} (h : rp ∈ db.sysRolePermissions)
    (h' : rp' ∈ db.sysRolePermissions) (hrole : rp.roleId = rp'.roleId)
    (hperm : rp.permId = rp'.permId) : rp = rp' :=
  Table.eq_of_clash h h' (by simp [sysRolePermissionsSchema, hrole, hperm])

/-- The roles of a user in an app are told apart by their keys. -/
theorem Linked.rolesOf_unique (hdb : db.Linked) {app : SysApp} {u : String} {r r' : SysRole}
    (hr : r ∈ db.rolesOf app u) (hr' : r' ∈ db.rolesOf app u)
    (hkey : c.same r.roleKey r'.roleKey = true) : r = r' := by
  obtain ⟨hr, ur, hur, happ, -, hid⟩ := mem_rolesOf.mp hr
  obtain ⟨hr', ur', hur', happ', -, hid'⟩ := mem_rolesOf.mp hr'
  have hown := hdb.assignment ur hur r hr hid.symm
  have hown' := hdb.assignment ur' hur' r' hr' hid'.symm
  refine Table.eq_of_clash hr hr' ?_
  simp [sysRolesSchema, hown, hown', happ, happ', hkey]

/-- And so are the permissions bound to them, as the app exists. -/
theorem Linked.permsOfUser_unique (hdb : db.Linked) {app : SysApp} (happ : app ∈ db.sysApps)
    {u : String} {p p' : SysPermission} (hp : p ∈ db.permsOfUser app u)
    (hp' : p' ∈ db.permsOfUser app u) (hkey : c.same p.permKey p'.permKey = true) : p = p' := by
  have hown : ∀ p ∈ db.permsOfUser app u, p ∈ db.sysPermissions ∧ p.appId = app.id := by
    intro p hp
    obtain ⟨r, hr, hp⟩ := mem_permsOfUser.mp hp
    obtain ⟨hr, ur, hur, hurapp, -, hid⟩ := mem_rolesOf.mp hr
    obtain ⟨hp, rp, hrp, hrole, hperm⟩ := mem_permsOf.mp hp
    have hrapp := hdb.assignment ur hur r hr hid.symm
    exact ⟨hp, hdb.binding rp hrp app happ r hr hrole.symm (by omega) p hp hperm.symm⟩
  obtain ⟨hp, hpapp⟩ := hown p hp
  obtain ⟨hp', hpapp'⟩ := hown p' hp'
  refine Table.eq_of_clash hp hp' ?_
  simp [sysPermissionsSchema, hpapp, hpapp', hkey]

end Db

/-! ## The rows of the listings -/

namespace Snapshot
variable {α : Type} (s : Snapshot c)

/-- `… LEFT JOIN sys_role_permissions rp ON r.id = rp.role_id
LEFT JOIN sys_permissions p ON rp.perm_id = p.id`. -/
def withPerms (xs : List α) (role : α → SysRole) :
    List ((α × Option SysRolePermission) × Option SysPermission) :=
  leftJoin (leftJoin xs s.rolePermissions fun x rp => (role x).id == rp.roleId) s.permissions
    fun x p => x.2.any fun rp => rp.permId == p.id

theorem selectRoles_eq (appId : ℕ) :
    s.selectRoles appId = (s.withPerms s.roles id).filter fun x => x.1.1.appId == appId := rfl

theorem selectUserRoleData_eq (appId : ℕ) (userId : Option String) :
    s.selectUserRoleData appId userId =
      ((s.withPerms (join s.userRoles s.roles fun ur r => ur.roleId == r.id) Prod.snd).map fun x =>
        ⟨x.1.1.1, x.1.1.2, x.2⟩).filter fun x =>
          x.ur.appId == appId && userId.all fun u => c.same x.ur.appUserId u := rfl

variable {s} {xs : List α} {role : α → SysRole} {x : α}

theorem mem_withPerms_some {rp : Option SysRolePermission} {p : SysPermission} :
    ((x, rp), some p) ∈ s.withPerms xs role ↔ x ∈ xs ∧ p ∈ s.permissions ∧
      ∃ b ∈ s.rolePermissions, rp = some b ∧ b.roleId = (role x).id ∧ b.permId = p.id := by
  simp only [withPerms, mem_leftJoin, Option.some.injEq, reduceCtorEq, false_and, or_false]
  constructor
  · rintro ⟨⟨hx, hrp⟩, q, hq, hbound, rfl⟩
    rcases hrp with ⟨b, hb, hrole, rfl⟩ | ⟨rfl, -⟩
    · simp only [Option.any_some, beq_iff_eq] at hbound hrole
      exact ⟨hx, hq, b, hb, rfl, hrole.symm, hbound⟩
    · simp at hbound
  · rintro ⟨hx, hp, b, hb, rfl, hrole, hperm⟩
    exact ⟨⟨hx, Or.inl ⟨b, hb, by simp [hrole], rfl⟩⟩, p, hp, by simp [hperm], rfl⟩

/-- An outer join keeps every row. -/
theorem exists_mem_withPerms : (∃ rp p, ((x, rp), p) ∈ s.withPerms xs role) ↔ x ∈ xs := by
  simp only [withPerms, exists_mem_leftJoin]

theorem mem_selectUserRoleData_some {appId : ℕ} {userId : Option String} {ur : SysUserRole}
    {r : SysRole} {p : SysPermission} : ⟨ur, r, some p⟩ ∈ s.selectUserRoleData appId userId ↔
      (ur ∈ s.userRoles ∧ r ∈ s.roles ∧ ur.roleId = r.id) ∧ (p ∈ s.permissions ∧
        ∃ b ∈ s.rolePermissions, b.roleId = r.id ∧ b.permId = p.id) ∧
          ur.appId = appId ∧ userId.all (fun u => c.same ur.appUserId u) = true := by
  rw [selectUserRoleData_eq]
  simp only [List.mem_filter, List.mem_map, Prod.exists, UserRoleJoin.mk.injEq, Bool.and_eq_true,
    beq_iff_eq]
  constructor
  · rintro ⟨⟨_, _, _, _, hmem, rfl, rfl, rfl⟩, hrest⟩
    obtain ⟨hx, hp, b, hb, -, hlink⟩ := mem_withPerms_some.mp hmem
    exact ⟨by simpa using hx, ⟨hp, b, hb, hlink⟩, hrest⟩
  · rintro ⟨hx, ⟨hp, b, hb, hlink⟩, hrest⟩
    have hjoin : (ur, r) ∈ join s.userRoles s.roles fun ur r => ur.roleId == r.id := by
      simpa using hx
    exact ⟨⟨ur, r, some b, some p, mem_withPerms_some.mpr ⟨hjoin, hp, b, hb, rfl, hlink⟩,
      rfl, rfl, rfl⟩, hrest⟩

theorem exists_mem_selectUserRoleData {appId : ℕ} {userId : Option String} {ur : SysUserRole}
    {r : SysRole} : (∃ p, ⟨ur, r, p⟩ ∈ s.selectUserRoleData appId userId) ↔
      (ur ∈ s.userRoles ∧ r ∈ s.roles ∧ ur.roleId = r.id) ∧
        ur.appId = appId ∧ userId.all (fun u => c.same ur.appUserId u) = true := by
  rw [selectUserRoleData_eq]
  simp only [List.mem_filter, List.mem_map, Prod.exists, UserRoleJoin.mk.injEq, Bool.and_eq_true,
    beq_iff_eq]
  constructor
  · rintro ⟨_, ⟨_, _, b, p, hmem, rfl, rfl, rfl⟩, hrest⟩
    exact ⟨by simpa using exists_mem_withPerms.mp ⟨b, p, hmem⟩, hrest⟩
  · rintro ⟨hx, hrest⟩
    have hjoin : (ur, r) ∈ join s.userRoles s.roles fun ur r => ur.roleId == r.id := by
      simpa using hx
    obtain ⟨b, p, hmem⟩ := exists_mem_withPerms.mpr hjoin
    exact ⟨p, ⟨ur, r, b, p, hmem, rfl, rfl, rfl⟩, hrest⟩

theorem nodup_selectRoles {db : Db c} (appId : ℕ) : (db.snapshot.selectRoles appId).Nodup := by
  refine List.Nodup.filter _ (nodup_leftJoin (nodup_leftJoin ?_ ?_ _) ?_ _)
  · exact db.sysRoles.nodup_rows
  · exact db.sysRolePermissions.nodup_rows
  · exact db.sysPermissions.nodup_rows

end Snapshot

/-! ## The rows of a group -/

section Groups
variable {db : Db c} {n : ℕ}

/-- The permissions in a role's group are those bound to it. -/
theorem permsOf_perm_group
    {rows : List ((SysRole × Option SysRolePermission) × Option SysPermission)}
    (hrows : rows.Perm (db.snapshot.selectRoles n))
    {x : (SysRole × Option SysRolePermission) × Option SysPermission} (hx : x ∈ rows) :
    x.1.1 ∈ db.sysRoles ∧ x.1.1.appId = n ∧
      ((rows.filter fun y => x.1.1.id == y.1.1.id).filterMap Prod.snd).Perm (db.permsOf x.1.1) := by
  have hmem : ∀ y, y ∈ rows → y.1.1 ∈ db.sysRoles ∧ y.1.1.appId = n := by
    intro y hy
    have hy := hrows.subset hy
    rw [Snapshot.selectRoles_eq, List.mem_filter, beq_iff_eq] at hy
    exact ⟨Snapshot.exists_mem_withPerms.mp ⟨y.1.2, y.2, hy.1⟩, hy.2⟩
  have hsome : ∀ r b p, ((r, b), some p) ∈ rows ↔ (r ∈ db.sysRoles ∧ p ∈ db.sysPermissions ∧
      ∃ rp ∈ db.sysRolePermissions, b = some rp ∧ rp.roleId = r.id ∧ rp.permId = p.id) ∧
        r.appId = n := by
    intro r b p
    rw [hrows.mem_iff, Snapshot.selectRoles_eq, List.mem_filter, beq_iff_eq,
      Snapshot.mem_withPerms_some]
    rfl
  obtain ⟨hrole, happ⟩ := hmem x hx
  refine ⟨hrole, happ, (List.perm_ext_iff_of_nodup ?_ (Db.nodup_permsOf _)).mpr fun p => ?_⟩
  · refine nodup_filterMap_of_inj ((hrows.nodup_iff.mpr (Snapshot.nodup_selectRoles n)).filter _) ?_
    rintro ⟨⟨r, b⟩, q⟩ hy ⟨⟨r', b'⟩, q'⟩ hz p hq hq'
    obtain rfl : q = some p := hq
    obtain rfl : q' = some p := hq'
    obtain ⟨hy, hid⟩ := List.mem_filter.mp hy
    obtain ⟨hz, hid'⟩ := List.mem_filter.mp hz
    obtain ⟨⟨hr, -, rp, hrp, rfl, hrole, hperm⟩, -⟩ := (hsome r b p).mp hy
    obtain ⟨⟨hr', -, rp', hrp', rfl, hrole', hperm'⟩, -⟩ := (hsome r' b' p).mp hz
    simp only [beq_iff_eq] at hid hid'
    obtain rfl : r = r' := Table.eq_of_id hr hr' (hid.symm.trans hid')
    rw [Db.binding_unique hrp hrp' (by omega) (by omega)]
  · simp only [List.mem_filterMap, List.mem_filter, beq_iff_eq, Db.mem_permsOf]
    constructor
    · rintro ⟨⟨⟨r, b⟩, q⟩, ⟨hy, hid⟩, hq⟩
      obtain rfl : q = some p := hq
      obtain ⟨⟨-, hp, rp, hrp, -, hroleId, hperm⟩, -⟩ := (hsome r b p).mp hy
      exact ⟨hp, rp, hrp, hroleId.trans hid.symm, hperm⟩
    · rintro ⟨hp, rp, hrp, hroleId, hperm⟩
      exact ⟨((x.1.1, some rp), some p),
        ⟨(hsome _ _ _).mpr ⟨⟨hrole, hp, rp, hrp, rfl, hroleId, hperm⟩, happ⟩, rfl⟩, rfl⟩

section Rows
variable {app : SysApp} {userId : Option String} {rows : List Snapshot.UserRoleJoin}
  {x : Snapshot.UserRoleJoin}

/-- The filter passes every spelling of a user that it has passed. -/
theorem passes_of_same (hrows : rows.Perm (db.snapshot.selectUserRoleData app.id userId))
    (hx : x ∈ rows) {ur : SysUserRole} (hsame : c.same ur.appUserId x.ur.appUserId = true) :
    userId.all (fun v => c.same ur.appUserId v) = true := by
  have hall := (Snapshot.exists_mem_selectUserRoleData.mp ⟨x.perm, hrows.subset hx⟩).2.2
  simpa only [c.same_congr_left hsame] using hall

/-- The roles of a group are those of its user. -/
theorem exists_role_group (hrows : rows.Perm (db.snapshot.selectUserRoleData app.id userId))
    (hx : x ∈ rows) (r : SysRole) :
    (∃ y ∈ rows.filter fun y => c.same x.ur.appUserId y.ur.appUserId, y.role = r) ↔
      r ∈ db.rolesOf app x.ur.appUserId := by
  rw [Db.mem_rolesOf]
  constructor
  · rintro ⟨⟨ur, r, p⟩, hy, rfl⟩
    obtain ⟨hy, hsame⟩ := List.mem_filter.mp hy
    obtain ⟨⟨hur, hr, hid⟩, hurapp, -⟩ :=
      Snapshot.exists_mem_selectUserRoleData.mp ⟨p, hrows.subset hy⟩
    exact ⟨hr, ur, hur, hurapp, c.same_comm hsame, hid⟩
  · rintro ⟨hr, ur, hur, hurapp, hsame, hid⟩
    obtain ⟨p, hmem⟩ := (Snapshot.exists_mem_selectUserRoleData (s := db.snapshot)).mpr
      ⟨⟨hur, hr, hid⟩, hurapp, passes_of_same hrows hx hsame⟩
    exact ⟨⟨ur, r, p⟩, List.mem_filter.mpr ⟨hrows.symm.subset hmem, c.same_comm hsame⟩, rfl⟩

/-- The permissions of a group are those of its user. -/
theorem exists_perm_group (hrows : rows.Perm (db.snapshot.selectUserRoleData app.id userId))
    (hx : x ∈ rows) (p : SysPermission) :
    (∃ y ∈ rows.filter fun y => c.same x.ur.appUserId y.ur.appUserId, y.perm = some p) ↔
      p ∈ db.permsOfUser app x.ur.appUserId := by
  simp only [Db.mem_permsOfUser, Db.mem_permsOf, Db.mem_rolesOf]
  constructor
  · rintro ⟨⟨ur, r, q⟩, hy, hq⟩
    obtain rfl : q = some p := hq
    obtain ⟨hy, hsame⟩ := List.mem_filter.mp hy
    obtain ⟨⟨hur, hr, hid⟩, ⟨hp, hbound⟩, hurapp, -⟩ :=
      Snapshot.mem_selectUserRoleData_some.mp (hrows.subset hy)
    exact ⟨r, ⟨hr, ur, hur, hurapp, c.same_comm hsame, hid⟩, hp, hbound⟩
  · rintro ⟨r, ⟨hr, ur, hur, hurapp, hsame, hid⟩, hp, hbound⟩
    have hmem := (Snapshot.mem_selectUserRoleData_some (s := db.snapshot)).mpr
      ⟨⟨hur, hr, hid⟩, ⟨hp, hbound⟩, hurapp, passes_of_same hrows hx hsame⟩
    exact ⟨⟨ur, r, some p⟩,
      List.mem_filter.mpr ⟨hrows.symm.subset hmem, c.same_comm hsame⟩, rfl⟩

/-- The keys that are joined for a user are those of the user's roles and of the permissions
bound to them, each once. -/
theorem keys_perm_group (hdb : db.Linked) (happ : app ∈ db.sysApps)
    (hrows : rows.Perm (db.snapshot.selectUserRoleData app.id userId)) (hx : x ∈ rows) :
    let u := x.ur.appUserId
    let group := rows.filter fun y => c.same u y.ur.appUserId
    (((db.rolesOf app u).map SysRole.roleKey).Nodup ∧
      (distinct c.same (group.map fun y => y.role.roleKey)).Perm
        ((db.rolesOf app u).map SysRole.roleKey)) ∧
    ((db.permsOfUser app u).map SysPermission.permKey).Nodup ∧
      (distinct c.same (group.filterMap fun y => y.perm.map SysPermission.permKey)).Perm
        ((db.permsOfUser app u).map SysPermission.permKey) := by
  intro u group
  have hrole : ∀ r, (∃ y ∈ group, y.role = r) ↔ r ∈ db.rolesOf app u :=
    exists_role_group hrows hx
  have hperm : ∀ p, (∃ y ∈ group, y.perm = some p) ↔ p ∈ db.permsOfUser app u :=
    exists_perm_group hrows hx
  constructor
  · refine distinct_perm_map c.same_iff_value (Db.nodup_rolesOf app u) (fun k => ?_)
      fun r hr r' hr' => hdb.rolesOf_unique hr hr'
    simp only [List.mem_map, ← hrole]
    constructor
    · rintro ⟨y, hy, rfl⟩
      exact ⟨y.role, ⟨y, hy, rfl⟩, rfl⟩
    · rintro ⟨-, ⟨y, hy, rfl⟩, rfl⟩
      exact ⟨y, hy, rfl⟩
  · refine distinct_perm_map c.same_iff_value (Db.nodup_permsOfUser app u) (fun k => ?_)
      fun p hp p' hp' => hdb.permsOfUser_unique happ hp hp'
    simp only [List.mem_filterMap, Option.map_eq_some_iff, ← hperm]
    constructor
    · rintro ⟨y, hy, p, hp, rfl⟩
      exact ⟨p, ⟨y, hy, hp⟩, rfl⟩
    · rintro ⟨p, ⟨y, hy, hp⟩, rfl⟩
      exact ⟨y, hy, p, hp, rfl⟩

end Rows

end Groups

/-! ## Where an entry comes from -/

namespace PermissionDAO
open Std.Do
set_option mvcgen.warning false

variable {σ : DaoState c} {a : String}

/-- A row that `listRoles` groups by role. -/
abbrev RoleJoin := (SysRole × Option SysRolePermission) × Option SysPermission

/-- The entry that `listRoles` makes of a group. -/
def roleInfo : RoleJoin × List RoleJoin → RoleInfo
  | (x, group) =>
      { id := x.1.1.id, roleName := x.1.1.roleName, roleKey := x.1.1.roleKey
        description := x.1.1.description, isDefault := x.1.1.isDefault
        permKeys := splitKeys
          (groupConcat (group.filterMap fun y => y.2.map SysPermission.permKey)) }

theorem exists_app_of_found {τ : DaoState c} {n : ℕ}
    (h : some n = (τ.db.snapshot.selectAppId a).head? ∨ ¬ τ.Healthy ∧ some n = none) :
    ∃ app ∈ τ.db.sysApps, c.same app.appCode a = true ∧ app.id = n := by
  rcases h with h | ⟨-, h⟩
  · exact DaoOp.exists_app_of_head? h.symm
  · cases h

theorem mem_of_mem_limitOffset {α : Type} {o : Outcome} {limit offset : ℤ} {xs : List α} {x : α}
    (h : x ∈ (deliver o (limitOffset limit offset xs)).1) : x ∈ xs := by
  unfold limitOffset at h
  split at h
  · cases o <;> exact (List.not_mem_nil h).elim
  · exact List.mem_of_mem_drop (List.mem_of_mem_take (mem_of_mem_deliver h))

/-- Whatever happens, an entry of `listRoles` is made of a group of rows of the app. -/
theorem listRoles_entry {entry : RoleInfo} (h : entry ∈ ((listRoles a).run σ).1) :
    ∃ app ∈ σ.db.sysApps, c.same app.appCode a = true ∧ ∃ picks,
      ∃ g ∈ groups (fun x y => x.1.1.id == y.1.1.id)
        (arrange picks (σ.db.snapshot.selectRoles app.id)), roleInfo g = entry := by
  refine DaoOp.of_triple (x := listRoles a) (σ := σ) (Q := fun r _ => entry ∈ r →
    ∃ app ∈ σ.db.sysApps, c.same app.appCode a = true ∧ ∃ picks,
      ∃ g ∈ groups (fun x y => x.1.1.id == y.1.1.id)
        (arrange picks (σ.db.snapshot.selectRoles app.id)), roleInfo g = entry) ?_ h
  mvcgen [listRoles, withConnection]
  all_goals subst_vars
  case vc1 | vc2 | vc4 => exact fun h => (List.not_mem_nil h).elim
  case vc3 σ₁ h₁ appId σ₂ h₂ read σ₃ h₃ _ σ₄ h₄ =>
    intro hmem
    obtain ⟨g, hg, hentry⟩ := List.mem_map.mp hmem
    obtain ⟨-, o, -, rfl⟩ := h₃
    obtain ⟨app, happ, hcode, rfl⟩ := exists_app_of_found h₂.2
    rw [h₁.1.db_eq] at happ
    rw [h₂.1.db_eq, h₁.1.db_eq] at hg
    exact ⟨app, happ, hcode, o.picks, g, mem_of_mem_deliver hg, hentry⟩

/-- And one of `listUserRoles` too. -/
theorem listUserRoles_entry {page size : ℤ} {userId : Option String} {entry : UserRoleData}
    (h : entry ∈ ((listUserRoles a page size userId).run σ).1.1) :
    ∃ app ∈ σ.db.sysApps, c.same app.appCode a = true ∧ ∃ picks,
      ∃ g ∈ groups (sameUser c)
        (arrange picks (σ.db.snapshot.selectUserRoleData app.id (userId.filter (· ≠ "")))),
          userRoleData (c := c) g = entry := by
  refine DaoOp.of_triple (x := listUserRoles a page size userId) (σ := σ)
    (Q := fun r _ => entry ∈ r.1 → ∃ app ∈ σ.db.sysApps, c.same app.appCode a = true ∧ ∃ picks,
      ∃ g ∈ groups (sameUser c)
        (arrange picks (σ.db.snapshot.selectUserRoleData app.id (userId.filter (· ≠ "")))),
          userRoleData (c := c) g = entry) ?_ h
  mvcgen [listUserRoles, withConnection]
  all_goals subst_vars
  case vc1 | vc2 | vc4 | vc5 => exact fun h => (List.not_mem_nil h).elim
  case vc3 σ₁ h₁ appId _ σ₂ h₂ _ σ₃ h₃ read σ₄ h₄ _ σ₅ h₅ =>
    intro hmem
    obtain ⟨g, hg, hentry⟩ := List.mem_map.mp hmem
    obtain ⟨-, o, -, rfl⟩ := h₄
    obtain ⟨app, happ, hcode, rfl⟩ := exists_app_of_found h₂.2
    rw [h₁.1.db_eq] at happ
    rw [h₃.1.db_eq, h₂.1.db_eq, h₁.1.db_eq] at hg
    have hg := (orderByDesc_perm _ _).subset (mem_of_mem_limitOffset hg)
    exact ⟨app, happ, hcode, o.picks, g, hg, hentry⟩

end PermissionDAO

/-- Operations that run one after the other are an interleaving. -/
theorem Db.Reachable.run_calls {σ : DaoState c} (h : σ.db.Reachable) (l : List DaoCall) :
    (Lib.run DaoState.call σ l).db.Reachable := by
  refine run_induction (P := fun τ : DaoState c => τ.db.Reachable) ?_ l h
  intro τ x hτ
  exact Db.Reachable.run (σ := τ.facing x.outcomes x.wallClock) hτ x.op

/-! ## When the keys come back -/

section ListedKeys
variable {σ : DaoState c} {a : String}

theorem mem_selectRolePermissions {k : String} {app : SysApp} {role : SysRole}
    (h : σ.db.NamesRole a k app role) {rp : SysRolePermission} {r : SysRole} {p : SysPermission} :
    ((rp, r), p) ∈ σ.db.snapshot.selectRolePermissions app.id k ↔
      rp ∈ σ.db.sysRolePermissions ∧ p ∈ σ.db.sysPermissions ∧ r = role ∧ rp.roleId = role.id ∧
        rp.permId = p.id := by
  simp only [Snapshot.selectRolePermissions, List.mem_filter, mem_join, Bool.and_eq_true,
    beq_iff_eq]
  constructor
  · rintro ⟨⟨⟨hrp, hr, hrole⟩, hp, hperm⟩, happ, hkey⟩
    obtain ⟨-, rfl⟩ := h.unique ⟨h.app_mem, h.code, hr, happ, hkey⟩
    exact ⟨hrp, hp, rfl, hrole, hperm⟩
  · rintro ⟨hrp, hp, rfl, hrole, hperm⟩
    exact ⟨⟨⟨hrp, h.role_mem, hrole⟩, hp, hperm⟩, h.appId, h.key⟩

/-- When nothing fails, `getRolePermissions` returns the keys of the permissions bound to the
role. -/
theorem getRolePermissions_perm {k : String} {app : SysApp} {role : SysRole}
    (h : σ.db.NamesRole a k app role) (hσ : σ.Healthy) :
    ((PermissionDAO.getRolePermissions a k).run σ).1.Perm
      ((σ.db.permsOf role).map SysPermission.permKey) := by
  have hread := (PermissionDAO.getRolePermissions_reads a k).result hσ
  rw [σ.db.head?_selectAppId h.app_mem h.code, Option.toList_some, List.flatMap_singleton] at hread
  have hrows : ((σ.db.snapshot.selectRolePermissions app.id k).map Prod.snd).Perm
      (σ.db.permsOf role) := by
    refine (List.perm_ext_iff_of_nodup ?_ (Db.nodup_permsOf role)).mpr fun p => ?_
    · have hnodup : (σ.db.snapshot.selectRolePermissions app.id k).Nodup :=
        (nodup_join (nodup_join σ.db.sysRolePermissions.nodup_rows σ.db.sysRoles.nodup_rows _)
          σ.db.sysPermissions.nodup_rows _).filter _
      refine hnodup.map_on ?_
      rintro ⟨⟨rp, r⟩, p⟩ hx ⟨⟨rp', r'⟩, p'⟩ hy hpp
      obtain rfl : p = p' := hpp
      obtain ⟨hrp, -, rfl, hrole, hperm⟩ := (mem_selectRolePermissions h).mp hx
      obtain ⟨hrp', -, rfl, hrole', hperm'⟩ := (mem_selectRolePermissions h).mp hy
      rw [Db.binding_unique hrp hrp' (hrole.trans hrole'.symm) (hperm.trans hperm'.symm)]
    · simp only [List.mem_map, Prod.exists, mem_selectRolePermissions h, Db.mem_permsOf]
      constructor
      · rintro ⟨rp, r, p, ⟨hrp, hp, -, hrole, hperm⟩, rfl⟩
        exact ⟨hp, rp, hrp, hrole, hperm⟩
      · rintro ⟨hp, rp, hrp, hrole, hperm⟩
        exact ⟨rp, role, p, ⟨hrp, hp, rfl, hrole, hperm⟩, rfl⟩
  have hkeys := hrows.map SysPermission.permKey
  rw [List.map_map] at hkeys
  exact hread.trans hkeys

/-- **When the keys in a listing are those of its rows**: a role's entry of `listRoles` has the
keys that `getRolePermissions` returns, and a user's entry of `listUserRoles` the distinct keys of
the user's existing roles and of the permissions bound to them, exactly if no such key has a comma
in it and the keys fit into one column. -/
theorem listed_keys_iff (hσ : σ.db.Reachable) (hkeys : σ.db.Keyed) (a : String) :
    (∀ entry ∈ ((PermissionDAO.listRoles a).run σ).1,
      ∃ app role, σ.db.NamesRole a entry.roleKey app role ∧
        ∀ τ : DaoState c, τ.db = σ.db → τ.Healthy →
          (entry.permKeys.Perm ((PermissionDAO.getRolePermissions a entry.roleKey).run τ).1 ↔
            Readable ((σ.db.permsOf role).map SysPermission.permKey))) ∧
    ∀ page size userId, ∀ entry ∈ ((PermissionDAO.listUserRoles a page size userId).run σ).1.1,
      ∃ app ∈ σ.db.sysApps, c.same app.appCode a = true ∧
        let roleKeys := (σ.db.rolesOf app entry.userId).map SysRole.roleKey
        let permKeys := (σ.db.permsOfUser app entry.userId).map SysPermission.permKey
        (roleKeys.Nodup ∧ (entry.roleKeys.Perm roleKeys ↔ Readable roleKeys)) ∧
          permKeys.Nodup ∧ (entry.permKeys.Perm permKeys ↔ Readable permKeys) := by
  constructor
  · intro entry hentry
    obtain ⟨app, happ, hcode, picks, g, hg, rfl⟩ := PermissionDAO.listRoles_entry hentry
    obtain ⟨x, group⟩ := g
    obtain ⟨hx, rfl⟩ := mem_groups.mp hg
    obtain ⟨hrole, hid, hperms⟩ :=
      permsOf_perm_group (arrange_perm picks _) (mem_of_mem_distinct hx)
    have hnames : σ.db.NamesRole a x.1.1.roleKey app x.1.1 :=
      ⟨happ, hcode, hrole, hid, c.same_refl _⟩
    refine ⟨app, x.1.1, hnames, fun τ hdb hτ => ?_⟩
    rw [← hdb] at hnames
    have hlisted := getRolePermissions_perm hnames hτ
    rw [hdb] at hlisted
    have hgroup := hperms.map SysPermission.permKey
    rw [List.map_filterMap] at hgroup
    rw [← readBack_perm_iff ?_ hgroup]
    · exact ⟨fun h => h.trans hlisted, fun h => h.trans hlisted.symm⟩
    · rintro k hk
      obtain ⟨p, hp, rfl⟩ := List.mem_map.mp hk
      exact hkeys.perm p (Db.mem_permsOf.mp hp).1
  · intro page size userId entry hentry
    obtain ⟨app, happ, hcode, picks, g, hg, rfl⟩ := PermissionDAO.listUserRoles_entry hentry
    obtain ⟨x, group⟩ := g
    obtain ⟨hx, rfl⟩ := mem_groups.mp hg
    obtain ⟨⟨hnodup, hroles⟩, hnodup', hperms⟩ :=
      keys_perm_group hσ.linked happ (arrange_perm picks _) (mem_of_mem_distinct hx)
    refine ⟨app, happ, hcode, ⟨hnodup, readBack_perm_iff ?_ hroles⟩, hnodup',
      readBack_perm_iff ?_ hperms⟩
    · intro k hk
      obtain ⟨r, hr, rfl⟩ := List.mem_map.mp hk
      exact hkeys.role r (Db.mem_rolesOf.mp hr).1
    · intro k hk
      obtain ⟨p, hp, rfl⟩ := List.mem_map.mp hk
      obtain ⟨r, -, hp⟩ := Db.mem_permsOfUser.mp hp
      exact hkeys.perm p (Db.mem_permsOf.mp hp).1

end ListedKeys

/-- The keys of a role are listed as they are. -/
theorem listed_keys_iff_owner :
    let σ : DaoState .binary := .start 0
    ∃ entry ∈ ((PermissionDAO.listRoles "qq_bot").run σ).1, entry.roleKey = "owner" ∧
      entry.permKeys.Perm ((PermissionDAO.getRolePermissions "qq_bot" "owner").run σ).1 := by
  have hlisted : ∀ σ : DaoState .binary, σ.db.Reachable → σ.db.Keyed → σ.Healthy →
      (∀ role ∈ σ.db.sysRoles, Readable ((σ.db.permsOf role).map SysPermission.permKey)) →
      ∀ entry ∈ ((PermissionDAO.listRoles "qq_bot").run σ).1,
        entry.permKeys.Perm
          ((PermissionDAO.getRolePermissions "qq_bot" entry.roleKey).run σ).1 := by
    intro σ hreachable hkeyed hσ hreadable entry hentry
    obtain ⟨hroles, -⟩ := listed_keys_iff hreachable hkeyed "qq_bot"
    obtain ⟨app, role, hnames, hperms⟩ := hroles entry hentry
    exact (hperms σ rfl hσ).mpr (hreadable role hnames.role_mem)
  have hstart : (∀ r ∈ (DaoState.start 0 : DaoState .binary).db.sysRoles, r.roleKey ≠ "") ∧
      (∀ p ∈ (DaoState.start 0 : DaoState .binary).db.sysPermissions, p.permKey ≠ "") ∧
      (∀ role ∈ (DaoState.start 0 : DaoState .binary).db.sysRoles,
        Readable (((DaoState.start 0 : DaoState .binary).db.permsOf role).map
          SysPermission.permKey)) ∧
      ∃ entry ∈ ((PermissionDAO.listRoles "qq_bot").run (.start 0 : DaoState .binary)).1,
        entry.roleKey = "owner" := by
    rw [DaoState.start_eq_seeded]
    decide +kernel
  obtain ⟨hroles, hperms, hreadable, entry, hentry, hkey⟩ := hstart
  refine ⟨entry, hentry, hkey, ?_⟩
  rw [← hkey]
  exact hlisted (.start 0) (.initial (DaoState.db_start 0)) ⟨hroles, hperms⟩
    (fun o ho => by cases ho) hreadable entry hentry

/-- A permission with a comma in its key is listed as two that do not exist. -/
theorem listed_keys_split :
    let σ : DaoState .binary := run DaoState.call (.start 0)
      [⟨.createRole "qq_bot" "导出" "export" "" false, [], 0⟩,
        ⟨.createPermission "qq_bot" "导出" "a,b" "", [], 0⟩,
        ⟨.addPermissionToRole "qq_bot" "export" "a,b", [], 0⟩]
    σ.db.Reachable ∧ σ.db.Keyed ∧
      (∃ entry ∈ ((PermissionDAO.listRoles "qq_bot").run σ).1,
        entry.roleKey = "export" ∧ entry.permKeys = ["a", "b"]) ∧
      ((PermissionDAO.getRolePermissions "qq_bot" "export").run σ).1 = ["a,b"] := by
  intro σ
  have hlisted : ((∀ r ∈ σ.db.sysRoles, r.roleKey ≠ "") ∧
      ∀ p ∈ σ.db.sysPermissions, p.permKey ≠ "") ∧
      (∃ entry ∈ ((PermissionDAO.listRoles "qq_bot").run σ).1,
        entry.roleKey = "export" ∧ entry.permKeys = ["a", "b"]) ∧
      ((PermissionDAO.getRolePermissions "qq_bot" "export").run σ).1 = ["a,b"] := by
    simp only [σ, DaoState.start_eq_seeded]
    decide +kernel
  exact ⟨.run_calls (.initial (DaoState.db_start 0)) _, ⟨hlisted.1.1, hlisted.1.2⟩, hlisted.2⟩

end SiqiAuth
