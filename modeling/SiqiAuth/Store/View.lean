import SiqiAuth.Lib.Grouping
import SiqiAuth.Lib.Rbac
import SiqiAuth.Store.Links

/-!
# What the tables stand for

The tables relate rows by number, and rows whose number nothing refers to any more stay
behind when others are deleted.  `Db.view` is what can be reached from an app by its code:
the app's roles, permissions, assignments and bindings, keyed as the columns compare them,
without a row number in sight.

## Main definitions

* `AppOf`, `Named` — the row that keys name.
* `named_insert`, `named_delete`, `named_update` — what a write to its table does to it.
* `Db.view` — the tables as the states of many applications.
* `Db.Founded` — the tables are linked, and no permission is older than its app.
* `Db.view_congr` — what reaches the same rows looks the same.
-/

namespace SiqiAuth
open Lib

variable {c : Collation}

/-! ## Rows by their keys -/

/-- The columns of a row that are not numbers of rows. -/
def SysApp.info (a : SysApp) : SysApp := { a with id := 0 }
def SysRole.info (r : SysRole) : SysRole := { r with id := 0, appId := 0 }
def SysPermission.info (p : SysPermission) : SysPermission := { p with id := 0, appId := 0 }
def SysUserRole.info (ur : SysUserRole) : SysUserRole := { ur with id := 0, appId := 0, roleId := 0 }

theorem SysApp.info_set (now : DateTime) (n d : Option String) (st : Option ℤ) (x : SysApp) :
    (x.set now n d st).info = x.info.set now n d st := by
  cases x
  simp only [SysApp.set, SysApp.info, SysApp.mk.injEq, true_and]
  split <;> rfl

theorem SysApp.info_set_ne_iff {now : DateTime} {n d : Option String} {st : Option ℤ} {x : SysApp} :
    x.info.set now n d st ≠ x.info ↔ x.set now n d st ≠ x := by
  rw [← SysApp.info_set, Ne, Ne, not_iff_not]
  constructor
  · intro h
    have hid := SysApp.id_set now n d st x
    generalize x.set now n d st = y at h hid
    cases x
    cases y
    simp_all [SysApp.info]
  · exact congrArg SysApp.info

/-- The app with the code. -/
def AppOf (apps : Table (sysAppsSchema c)) (k : c.Value) (a : SysApp) : Prop :=
  a ∈ apps ∧ c.value a.appCode = k

/-- The row with the key, in a table whose rows belong to apps. -/
def Named {α : Type} {S : Schema α} (apps : Table (sysAppsSchema c)) (t : Table S) (owner : α → ℕ)
    (key : α → String) (k r : c.Value) (x : α) : Prop :=
  x ∈ t ∧ c.value (key x) = r ∧ ∃ a, AppOf apps k a ∧ owner x = a.id

section Rows
variable {apps : Table (sysAppsSchema c)} {k k' r r' : c.Value} {a b : SysApp} {appId : ℕ}
  {s : String}

theorem AppOf.unique (h : AppOf apps k a) (h' : AppOf apps k b) : a = b :=
  Table.eq_of_clash h.1 h'.1 ((c.same_iff_value _ _).mpr (h.2.trans h'.2.symm))

theorem AppOf.of_same (happ : a ∈ apps) (hcode : c.same a.appCode s = true) :
    AppOf apps (c.value s) a :=
  ⟨happ, (c.same_iff_value _ _).mp hcode⟩

theorem AppOf.same (h : AppOf apps (c.value s) a) : c.same a.appCode s = true :=
  (c.same_iff_value _ _).mpr h.2

variable {α : Type} {S : Schema α} {t t' : Table S} {owner : α → ℕ} {key : α → String} {x : α}

theorem named_insert {mk : ℕ → α} {hmk : ∀ n, S.id (mk n) = n} (ht : t.insert mk hmk = some t') :
    Named apps t' owner key k r x ↔ Named apps t owner key k r x ∨ x = mk t.next ∧
      c.value (key x) = r ∧ ∃ a, AppOf apps k a ∧ owner x = a.id := by
  simp only [Named, Table.mem_insert_iff ht, or_and_right]

theorem named_delete {p : α → Bool} : Named apps (t.delete p) owner key k r x ↔
    Named apps t owner key k r x ∧ p x = false := by
  simp only [Named, Table.mem_delete, and_right_comm]

theorem named_update {p : α → Bool} {f : α → α} (hid : ∀ x, S.id (f x) = S.id x)
    (hclash : ∀ x y, S.clash (f x) y = S.clash x y ∧ S.clash x (f y) = S.clash x y)
    (hown : ∀ x, owner (f x) = owner x) (hkey : ∀ x, key (f x) = key x) {x' : α} :
    Named apps (t.update p f hid hclash) owner key k r x' ↔
      ∃ x, Named apps t owner key k r x ∧ (if p x then f x else x) = x' := by
  have hsame : ∀ x, owner (if p x then f x else x) = owner x ∧
      key (if p x then f x else x) = key x := by
    intro x
    split
    · exact ⟨hown x, hkey x⟩
    · exact ⟨rfl, rfl⟩
  constructor
  · rintro ⟨hmem, hr, hown'⟩
    obtain ⟨x, hx, rfl⟩ := List.mem_map.mp hmem
    rw [(hsame x).1] at hown'
    rw [(hsame x).2] at hr
    exact ⟨x, ⟨hx, hr, hown'⟩, rfl⟩
  · rintro ⟨x, ⟨hx, hr, hown'⟩, rfl⟩
    refine ⟨List.mem_map.mpr ⟨x, hx, rfl⟩, ?_, ?_⟩
    · rw [(hsame x).2]
      exact hr
    · rw [(hsame x).1]
      exact hown'

/-- What `WHERE app_id = ? AND … = ?` takes, for the number of an app. -/
theorem Named.taken_iff (hx : Named apps t owner key k r x) (ha : AppOf apps k' a) :
    (owner x == a.id && c.same (key x) s) = true ↔ k = k' ∧ r = c.value s := by
  obtain ⟨-, hr, b, hb, hown⟩ := hx
  rw [Bool.and_eq_true, beq_iff_eq, c.same_iff_value, hr]
  refine and_congr_left' ⟨fun h => ?_, ?_⟩
  · obtain rfl : b = a := Table.eq_of_id hb.1 ha.1 (hown.symm.trans h)
    exact hb.2.symm.trans ha.2
  · rintro rfl
    rw [hown, hb.unique ha]

/-- And what it takes for the number of no app. -/
theorem Named.not_taken (hx : Named apps t owner key k r x) (hdead : ∀ a ∈ apps, a.id ≠ appId) :
    (owner x == appId && c.same (key x) s) = false := by
  obtain ⟨-, -, b, hb, hown⟩ := hx
  rw [Bool.and_eq_false_iff, beq_eq_false_iff_ne, hown]
  exact Or.inl (hdead b hb.1)

/-- A row has one key in one app. -/
theorem Named.keys_eq (hx : Named apps t owner key k r x) (hx' : Named apps t owner key k' r' x) :
    k = k' ∧ r = r' := by
  obtain ⟨-, hr, a, ha, hown⟩ := hx
  obtain ⟨-, hr', b, hb, hown'⟩ := hx'
  obtain rfl : a = b := Table.eq_of_id ha.1 hb.1 (hown.symm.trans hown')
  exact ⟨ha.2.symm.trans hb.2, hr.symm.trans hr'⟩

/-- What names a row does so too when the apps have changed in other columns, or some that
it does not belong to. -/
theorem named_congr {apps' : Table (sysAppsSchema c)}
    (h : ∀ x ∈ t, (∃ a, AppOf apps' k a ∧ owner x = a.id) ↔ ∃ a, AppOf apps k a ∧ owner x = a.id) :
    Named apps' t owner key k r x ↔ Named apps t owner key k r x := by
  simp only [Named]
  refine and_congr_right fun hx => and_congr_right fun _ => h x hx

end Rows

/-! ## The view -/

namespace Db
variable (db : Db c)

abbrev RoleOf (k r : c.Value) (x : SysRole) : Prop :=
  Named db.sysApps db.sysRoles SysRole.appId SysRole.roleKey k r x

abbrev PermOf (k p : c.Value) (x : SysPermission) : Prop :=
  Named db.sysApps db.sysPermissions SysPermission.appId SysPermission.permKey k p x

/-- The assignment of the role to the user. -/
def MemberOf (k u r : c.Value) (ur : SysUserRole) : Prop :=
  ur ∈ db.sysUserRoles ∧ c.value ur.appUserId = u ∧
    ∃ x, db.RoleOf k r x ∧ ur.appId = x.appId ∧ ur.roleId = x.id

/-- The role is bound to the permission. -/
def BoundOf (k r p : c.Value) : Prop :=
  ∃ rp ∈ db.sysRolePermissions, ∃ x, db.RoleOf k r x ∧ rp.roleId = x.id ∧
    ∃ y, db.PermOf k p y ∧ rp.permId = y.id

variable {db} {k u r p : c.Value}

theorem RoleOf.unique {x x' : SysRole} (h : db.RoleOf k r x) (h' : db.RoleOf k r x') : x = x' := by
  obtain ⟨hx, hr, a, ha, hid⟩ := h
  obtain ⟨hx', hr', b, hb, hid'⟩ := h'
  obtain rfl := ha.unique hb
  have hkey := (c.same_iff_value _ _).mpr (hr.trans hr'.symm)
  exact Table.eq_of_clash hx hx' (by simp [sysRolesSchema, hid, hid', hkey])

theorem PermOf.unique {x x' : SysPermission} (h : db.PermOf k p x) (h' : db.PermOf k p x') :
    x = x' := by
  obtain ⟨hx, hr, a, ha, hid⟩ := h
  obtain ⟨hx', hr', b, hb, hid'⟩ := h'
  obtain rfl := ha.unique hb
  have hkey := (c.same_iff_value _ _).mpr (hr.trans hr'.symm)
  exact Table.eq_of_clash hx hx' (by simp [sysPermissionsSchema, hid, hid', hkey])

theorem MemberOf.unique {ur ur' : SysUserRole} (h : db.MemberOf k u r ur)
    (h' : db.MemberOf k u r ur') : ur = ur' := by
  obtain ⟨hur, hu, x, hx, hid, hrid⟩ := h
  obtain ⟨hur', hu', x', hx', hid', hrid'⟩ := h'
  obtain rfl := RoleOf.unique hx hx'
  have hkey := (c.same_iff_value _ _).mpr (hu.trans hu'.symm)
  exact Table.eq_of_clash hur hur' (by simp [sysUserRolesSchema, hid, hid', hrid, hrid', hkey])

end Db

/-- The states of the apps, by their codes. -/
abbrev View (c : Collation) :=
  c.Value → Rbac c.Value c.Value c.Value SysApp SysRole SysPermission SysUserRole

namespace Db
variable (db : Db c)

/-- What the tables stand for. -/
@[simps] def view : View c := fun k =>
  { info := fun i => ∃ a, AppOf db.sysApps k a ∧ a.info = i
    role := fun r j => ∃ x, db.RoleOf k r x ∧ x.info = j
    perm := fun p j => ∃ x, db.PermOf k p x ∧ x.info = j
    member := fun u r m => ∃ ur, db.MemberOf k u r ur ∧ ur.info = m
    bound := fun r p => db.BoundOf k r p
    info_unique := by
      rintro i i' ⟨a, ha, rfl⟩ ⟨b, hb, rfl⟩
      rw [ha.unique hb]
    role_unique := by
      rintro r j j' ⟨x, hx, rfl⟩ ⟨x', hx', rfl⟩
      rw [RoleOf.unique hx hx']
    perm_unique := by
      rintro p j j' ⟨x, hx, rfl⟩ ⟨x', hx', rfl⟩
      rw [PermOf.unique hx hx']
    member_unique := by
      rintro u r m m' ⟨ur, hur, rfl⟩ ⟨ur', hur', rfl⟩
      rw [MemberOf.unique hur hur']
    info_of_role := by
      rintro r j ⟨x, ⟨-, -, a, ha, -⟩, -⟩
      exact ⟨a.info, a, ha, rfl⟩
    info_of_perm := by
      rintro p j ⟨x, ⟨-, -, a, ha, -⟩, -⟩
      exact ⟨a.info, a, ha, rfl⟩
    role_of_member := by
      rintro u r m ⟨ur, ⟨-, -, x, hx, -⟩, -⟩
      exact ⟨x.info, x, hx, rfl⟩
    role_of_bound := by
      rintro r p ⟨rp, -, x, hx, -⟩
      exact ⟨x.info, x, hx, rfl⟩
    perm_of_bound := by
      rintro r p ⟨rp, -, x, -, -, y, hy, -⟩
      exact ⟨y.info, y, hy, rfl⟩ }

/-- The tables are linked, and no permission is older than its app. -/
structure Founded : Prop extends db.Linked where
  perm_lt : ∀ p ∈ db.sysPermissions, p.appId < db.sysApps.next

section Congr
variable {db} {db' : Db c} {k : c.Value}

/-- An app that no row is reached from looks as if it did not exist. -/
theorem view_eq_absent (h : ∀ a, ¬ AppOf db.sysApps k a) : db.view k = Rbac.absent := by
  have hrole : ∀ r x, ¬ db.RoleOf k r x := fun r x hx => hx.2.2.elim fun a ha => h a ha.1
  have hperm : ∀ p x, ¬ db.PermOf k p x := fun p x hx => hx.2.2.elim fun a ha => h a ha.1
  ext <;> simp [h, hrole, hperm, MemberOf, BoundOf]

/-- What reaches the same rows looks the same. -/
theorem view_congr (happ : ∀ a, AppOf db'.sysApps k a ↔ AppOf db.sysApps k a)
    (hrole : ∀ r x, db'.RoleOf k r x ↔ db.RoleOf k r x)
    (hperm : ∀ p x, db'.PermOf k p x ↔ db.PermOf k p x)
    (hmember : ∀ u r ur, db'.MemberOf k u r ur ↔ db.MemberOf k u r ur)
    (hbound : ∀ r p, db'.BoundOf k r p ↔ db.BoundOf k r p) : db'.view k = db.view k := by
  ext <;> simp only [view_info, view_role, view_perm, view_member, view_bound, happ, hrole, hperm,
    hmember, hbound]

theorem memberOf_congr (hur : db'.sysUserRoles = db.sysUserRoles)
    (hrole : ∀ r x, db'.RoleOf k r x ↔ db.RoleOf k r x) (u r : c.Value) (ur : SysUserRole) :
    db'.MemberOf k u r ur ↔ db.MemberOf k u r ur := by
  simp only [MemberOf, hur, hrole]

theorem boundOf_congr (hrp : db'.sysRolePermissions = db.sysRolePermissions)
    (hrole : ∀ r x, db'.RoleOf k r x ↔ db.RoleOf k r x)
    (hperm : ∀ p x, db'.PermOf k p x ↔ db.PermOf k p x) (r p : c.Value) :
    db'.BoundOf k r p ↔ db.BoundOf k r p := by
  simp only [BoundOf, hrp, hrole, hperm]

end Congr

end Db
end SiqiAuth
