import SiqiAuth.Store.InitRows

/-!
# Which app a role or permission was created for

The decision queries never compare the app of a role or of a permission with the app
of the assignment they follow.  That they stay within one app is a fact about
histories: a binding is only ever made between a role and a permission of one app,
an assignment only ever names a role of its own app, and a row number is never
issued twice.  `Owners` records for every number ever issued the app it was issued
for, whether or not the row still exists.

## Main definitions

* `Owners` — the app of every role number and every permission number.
* `Owners.Consistent` — the tables agree with that record.
* `Statement.consistent`, `DaoOp.Effect.consistent` — every statement that knows what it
  refers to, and every operation, extends the record consistently.
* `Db.Later` — what the row numbers of two states of one history say of each other.
* `Db.chain_one_app` — a chain of assignment, binding and permission has one app.
-/

namespace SiqiAuth
open Lib

variable {c : Collation}

/-- The app each role number and each permission number was issued for. -/
structure Owners where
  role : ℕ → ℕ
  perm : ℕ → ℕ

namespace Owners

/-- The tables agree with the record. -/
structure Consistent (o : Owners) (db : Db c) : Prop where
  role_appId : ∀ r ∈ db.sysRoles, o.role r.id = r.appId
  perm_appId : ∀ p ∈ db.sysPermissions, o.perm p.id = p.appId
  /-- A binding stays within one app. -/
  binding : ∀ rp ∈ db.sysRolePermissions, o.role rp.roleId = o.perm rp.permId
  /-- An assignment names a role of its app. -/
  assignment : ∀ ur ∈ db.sysUserRoles, o.role ur.roleId = ur.appId
  binding_lt : ∀ rp ∈ db.sysRolePermissions,
    rp.roleId < db.sysRoles.next ∧ rp.permId < db.sysPermissions.next
  assignment_lt : ∀ ur ∈ db.sysUserRoles, ur.roleId < db.sysRoles.next
  /-- Whatever was issued was issued for an app that existed by then. -/
  role_lt : ∀ n < db.sysRoles.next, o.role n < db.sysApps.next
  perm_lt : ∀ n < db.sysPermissions.next, o.perm n < db.sysApps.next

/-- The record agrees with an earlier one on the numbers issued by then. -/
structure Extends (o' o : Owners) (db : Db c) : Prop where
  role : ∀ n < db.sysRoles.next, o'.role n = o.role n
  perm : ∀ n < db.sysPermissions.next, o'.perm n = o.perm n

theorem Extends.refl (o : Owners) (db : Db c) : o.Extends o db :=
  ⟨fun _ _ => rfl, fun _ _ => rfl⟩

namespace Consistent
variable {o : Owners} {db db' : Db c}

/-- The role of an assignment is one of the app that it names. -/
theorem appId_eq (ho : o.Consistent db) {ur : SysUserRole} (hur : ur ∈ db.sysUserRoles)
    {role : SysRole} (hrole : role ∈ db.sysRoles) (hid : role.id = ur.roleId) :
    role.appId = ur.appId := by
  rw [← ho.role_appId role hrole, hid, ho.assignment ur hur]

/-- No assignment can name an app that does not exist yet. -/
theorem appId_lt (ho : o.Consistent db) {ur : SysUserRole} (hur : ur ∈ db.sysUserRoles) :
    ur.appId < db.sysApps.next := by
  rw [← ho.assignment ur hur]
  exact ho.role_lt _ (ho.assignment_lt ur hur)

/-- Rows may disappear, and change in other columns. -/
theorem of_rows (ho : o.Consistent db) (happs : db.sysApps.next ≤ db'.sysApps.next)
    (hroles : db'.sysRoles.next = db.sysRoles.next)
    (hperms : db'.sysPermissions.next = db.sysPermissions.next)
    (hr : ∀ r' ∈ db'.sysRoles, ∃ r ∈ db.sysRoles, r.id = r'.id ∧ r.appId = r'.appId)
    (hp : ∀ p' ∈ db'.sysPermissions, ∃ p ∈ db.sysPermissions, p.id = p'.id ∧ p.appId = p'.appId)
    (hrp : ∀ rp ∈ db'.sysRolePermissions, rp ∈ db.sysRolePermissions)
    (hur : ∀ ur ∈ db'.sysUserRoles, ur ∈ db.sysUserRoles) : o.Consistent db' where
  role_appId := by
    intro r' hr'
    obtain ⟨r, hmem, hid, happ⟩ := hr r' hr'
    rw [← hid, ← happ]
    exact ho.role_appId r hmem
  perm_appId := by
    intro p' hp'
    obtain ⟨p, hmem, hid, happ⟩ := hp p' hp'
    rw [← hid, ← happ]
    exact ho.perm_appId p hmem
  binding := fun rp h => ho.binding rp (hrp rp h)
  assignment := fun ur h => ho.assignment ur (hur ur h)
  binding_lt := by
    intro rp h
    rw [hroles, hperms]
    exact ho.binding_lt rp (hrp rp h)
  assignment_lt := by
    intro ur h
    rw [hroles]
    exact ho.assignment_lt ur (hur ur h)
  role_lt := by
    intro n hn
    rw [hroles] at hn
    exact lt_of_lt_of_le (ho.role_lt n hn) happs
  perm_lt := by
    intro n hn
    rw [hperms] at hn
    exact lt_of_lt_of_le (ho.perm_lt n hn) happs

/-- A new role is recorded under the number it is issued. -/
theorem insert_role (ho : o.Consistent db) {appId : ℕ} (happ : appId < db.sysApps.next)
    {mk : ℕ → SysRole} {hmk : ∀ n, (mk n).id = n} (hid : ∀ n, (mk n).appId = appId)
    {t : Table (sysRolesSchema c)} (ht : db.sysRoles.insert mk hmk = some t) :
    ∃ o' : Owners, o'.Consistent { db with sysRoles := t } ∧ o'.Extends o db := by
  obtain ⟨-, hnext, -⟩ := Table.insert_eq_some ht
  have hext : ∀ n < db.sysRoles.next,
      Function.update o.role db.sysRoles.next appId n = o.role n :=
    fun n hn => Function.update_of_ne (Nat.ne_of_lt hn) _ _
  refine ⟨{ o with role := Function.update o.role db.sysRoles.next appId },
    ⟨?_, ho.perm_appId, ?_, ?_, ?_, ?_, ?_, ho.perm_lt⟩, ⟨hext, fun _ _ => rfl⟩⟩
  · intro r hr
    rcases (Table.mem_insert_iff ht r).mp hr with hr | rfl
    · exact (hext _ (Table.id_lt_next hr)).trans (ho.role_appId r hr)
    · rw [hmk, hid]
      exact Function.update_self _ _ _
  · intro rp hrp
    exact (hext _ (ho.binding_lt rp hrp).1).trans (ho.binding rp hrp)
  · intro ur hur
    exact (hext _ (ho.assignment_lt ur hur)).trans (ho.assignment ur hur)
  · intro rp hrp
    have hlt := ho.binding_lt rp hrp
    exact ⟨by rw [hnext]; omega, hlt.2⟩
  · intro ur hur
    have hlt := ho.assignment_lt ur hur
    change ur.roleId < t.next
    omega
  · intro n hn
    change n < t.next at hn
    change Function.update o.role db.sysRoles.next appId n < db.sysApps.next
    by_cases hlt : n < db.sysRoles.next
    · rw [hext n hlt]
      exact ho.role_lt n hlt
    · have heq : n = db.sysRoles.next := by omega
      rw [heq, Function.update_self]
      exact happ

theorem insert_permission (ho : o.Consistent db) {appId : ℕ} (happ : appId < db.sysApps.next)
    {mk : ℕ → SysPermission} {hmk : ∀ n, (mk n).id = n} (hid : ∀ n, (mk n).appId = appId)
    {t : Table (sysPermissionsSchema c)} (ht : db.sysPermissions.insert mk hmk = some t) :
    ∃ o' : Owners, o'.Consistent { db with sysPermissions := t } ∧ o'.Extends o db := by
  obtain ⟨-, hnext, -⟩ := Table.insert_eq_some ht
  have hext : ∀ n < db.sysPermissions.next,
      Function.update o.perm db.sysPermissions.next appId n = o.perm n :=
    fun n hn => Function.update_of_ne (Nat.ne_of_lt hn) _ _
  refine ⟨{ o with perm := Function.update o.perm db.sysPermissions.next appId },
    ⟨ho.role_appId, ?_, ?_, ho.assignment, ?_, ho.assignment_lt, ho.role_lt, ?_⟩,
    ⟨fun _ _ => rfl, hext⟩⟩
  · intro p hp
    rcases (Table.mem_insert_iff ht p).mp hp with hp | rfl
    · exact (hext _ (Table.id_lt_next hp)).trans (ho.perm_appId p hp)
    · rw [hmk, hid]
      exact Function.update_self _ _ _
  · intro rp hrp
    exact (ho.binding rp hrp).trans (hext _ (ho.binding_lt rp hrp).2).symm
  · intro rp hrp
    have hlt := ho.binding_lt rp hrp
    exact ⟨hlt.1, by rw [hnext]; omega⟩
  · intro n hn
    change n < t.next at hn
    change Function.update o.perm db.sysPermissions.next appId n < db.sysApps.next
    by_cases hlt : n < db.sysPermissions.next
    · rw [hext n hlt]
      exact ho.perm_lt n hlt
    · have heq : n = db.sysPermissions.next := by omega
      rw [heq, Function.update_self]
      exact happ

theorem insert_userRole (ho : o.Consistent db) {roleId appId : ℕ} (hlt : roleId < db.sysRoles.next)
    (hrole : o.role roleId = appId) {mk : ℕ → SysUserRole} {hmk : ∀ n, (mk n).id = n}
    (hid : ∀ n, (mk n).appId = appId ∧ (mk n).roleId = roleId)
    {t : Table (sysUserRolesSchema c)} (ht : db.sysUserRoles.insert mk hmk = some t) :
    o.Consistent { db with sysUserRoles := t } where
  __ := ho
  assignment := by
    intro ur hur
    rcases (Table.mem_insert_iff ht ur).mp hur with hur | rfl
    · exact ho.assignment ur hur
    · rw [(hid _).1, (hid _).2]
      exact hrole
  assignment_lt := by
    intro ur hur
    rcases (Table.mem_insert_iff ht ur).mp hur with hur | rfl
    · exact ho.assignment_lt ur hur
    · rw [(hid _).2]
      exact hlt

theorem insert_rolePermission (ho : o.Consistent db) {roleId permId : ℕ}
    (hrole : roleId < db.sysRoles.next) (hperm : permId < db.sysPermissions.next)
    (happ : o.role roleId = o.perm permId) {mk : ℕ → SysRolePermission} {hmk : ∀ n, (mk n).id = n}
    (hid : ∀ n, (mk n).roleId = roleId ∧ (mk n).permId = permId)
    {t : Table sysRolePermissionsSchema} (ht : db.sysRolePermissions.insert mk hmk = some t) :
    o.Consistent { db with sysRolePermissions := t } where
  __ := ho
  binding := by
    intro rp hrp
    rcases (Table.mem_insert_iff ht rp).mp hrp with hrp | rfl
    · exact ho.binding rp hrp
    · rw [(hid _).1, (hid _).2]
      exact happ
  binding_lt := by
    intro rp hrp
    rcases (Table.mem_insert_iff ht rp).mp hrp with hrp | rfl
    · exact ho.binding_lt rp hrp
    · rw [(hid _).1, (hid _).2]
      exact ⟨hrole, hperm⟩

end Consistent
end Owners

/-! ## One statement -/

/-- The row numbers of a statement were issued, and for one app. -/
def Statement.Knows (o : Owners) (db : Db c) : Statement → Prop
  | .insertRole appId .. | .insertPermission appId .. => appId < db.sysApps.next
  | .insertUserRole appId _ roleId => roleId < db.sysRoles.next ∧ o.role roleId = appId
  | .insertRolePermission roleId permId => roleId < db.sysRoles.next ∧
      permId < db.sysPermissions.next ∧ o.role roleId = o.perm permId
  | _ => True

/-- **A statement that knows what it refers to extends the record consistently.** -/
theorem Statement.consistent {w : Statement} {o : Owners} {db db' : Db c} {now : DateTime} {rows : ℕ}
    (hw : w.Knows o db) (ho : o.Consistent db) (h : w.write now db = .ok (rows, db')) :
    ∃ o' : Owners, o'.Consistent db' ∧ o'.Extends o db := by
  cases w with
  | insertApp n a s d =>
      obtain ⟨t, ht, rfl⟩ := inserted_eq_ok h
      obtain ⟨-, hnext, -⟩ := Table.insert_eq_some ht
      exact ⟨o, ho.of_rows (by rw [hnext]; omega) rfl rfl (fun r hr => ⟨r, hr, rfl, rfl⟩)
        (fun p hp => ⟨p, hp, rfl, rfl⟩) (fun _ => id) fun _ => id, .refl o db⟩
  | updateApp | deleteApp =>
      cases h
      exact ⟨o, ho.of_rows (le_refl _) rfl rfl (fun r hr => ⟨r, hr, rfl, rfl⟩)
        (fun p hp => ⟨p, hp, rfl, rfl⟩) (fun _ => id) fun _ => id, .refl o db⟩
  | insertRole appId n k d df =>
      obtain ⟨t, ht, rfl⟩ := inserted_eq_ok h
      exact ho.insert_role hw (fun _ => rfl) ht
  | updateRole appId k n d df =>
      cases h
      refine ⟨o, ho.of_rows (le_refl _) rfl rfl ?_ (fun p hp => ⟨p, hp, rfl, rfl⟩) (fun _ => id)
        fun _ => id, .refl o db⟩
      intro r' hr'
      obtain ⟨r, hr, hid, happ, -⟩ := Db.exists_of_mem_setRole hr'
      exact ⟨r, hr, hid, happ⟩
  | deleteRole appId k =>
      cases h
      exact ⟨o, ho.of_rows (le_refl _) rfl rfl
        (fun r hr => ⟨r, (Table.mem_delete.mp hr).1, rfl, rfl⟩) (fun p hp => ⟨p, hp, rfl, rfl⟩)
        (fun _ => id) fun _ => id, .refl o db⟩
  | insertPermission appId n k d =>
      obtain ⟨t, ht, rfl⟩ := inserted_eq_ok h
      exact ho.insert_permission hw (fun _ => rfl) ht
  | updatePermission appId k n d =>
      cases h
      refine ⟨o, ho.of_rows (le_refl _) rfl rfl (fun r hr => ⟨r, hr, rfl, rfl⟩) ?_ (fun _ => id)
        fun _ => id, .refl o db⟩
      intro p' hp'
      obtain ⟨p, hp, hid, happ, -⟩ := Db.exists_of_mem_setPermission hp'
      exact ⟨p, hp, hid, happ⟩
  | deletePermission appId k =>
      cases h
      exact ⟨o, ho.of_rows (le_refl _) rfl rfl (fun r hr => ⟨r, hr, rfl, rfl⟩)
        (fun p hp => ⟨p, (Table.mem_delete.mp hp).1, rfl, rfl⟩) (fun _ => id) fun _ => id,
        .refl o db⟩
  | insertUserRole appId u roleId =>
      obtain ⟨t, ht, rfl⟩ := inserted_eq_ok h
      exact ⟨o, ho.insert_userRole hw.1 hw.2 (fun _ => ⟨rfl, rfl⟩) ht, .refl o db⟩
  | deleteUserRole a u k =>
      cases h
      exact ⟨o, ho.of_rows (le_refl _) rfl rfl (fun r hr => ⟨r, hr, rfl, rfl⟩)
        (fun p hp => ⟨p, hp, rfl, rfl⟩) (fun _ => id) fun _ h => (Table.mem_delete.mp h).1,
        .refl o db⟩
  | insertRolePermission roleId permId =>
      obtain ⟨t, ht, rfl⟩ := inserted_eq_ok h
      exact ⟨o, ho.insert_rolePermission hw.1 hw.2.1 hw.2.2 (fun _ => ⟨rfl, rfl⟩) ht, .refl o db⟩
  | deleteRolePermission a k p =>
      cases h
      exact ⟨o, ho.of_rows (le_refl _) rfl rfl (fun r hr => ⟨r, hr, rfl, rfl⟩)
        (fun p hp => ⟨p, hp, rfl, rfl⟩) (fun _ h => (Table.mem_delete.mp h).1) fun _ => id,
        .refl o db⟩
  | insertAuditLog e =>
      obtain ⟨t, -, rfl⟩ := inserted_eq_ok h
      exact ⟨o, { ho with }, .refl o db⟩

/-! ## One operation -/

namespace DaoOp.Effect
variable {db db' : Db c} {op : DaoOp} {r : Bool} {o : Owners}

/-- **Every operation extends the record consistently.** -/
theorem consistent (h : Effect db op r db') (ho : o.Consistent db) :
    ∃ o' : Owners, o'.Consistent db' ∧ o'.Extends o db := by
  have hwrite : ∀ (w : Statement) now, w.Knows o db → (∃ rows, w.write now db = .ok (rows, db')) →
      ∃ o' : Owners, o'.Consistent db' ∧ o'.Extends o db :=
    fun w now hw ⟨rows, h⟩ => w.consistent hw ho h
  cases h with
  | nothing => exact ⟨o, ho, .refl o db⟩
  | @createApp n a d secret now t ht =>
      exact hwrite (.insertApp n a secret d) now trivial ⟨1, by simp [Statement.write, ht, inserted]⟩
  | @updateApp a n d st r now => exact hwrite (.updateApp a n d st) now trivial ⟨_, rfl⟩
  | @deleteApp a r => exact hwrite (.deleteApp a) 0 trivial ⟨_, rfl⟩
  | @createRole a n k d df app now t happ hcode ht =>
      exact hwrite (.insertRole app.id n k d df) now (Table.id_lt_next happ)
        ⟨1, by simp [Statement.write, ht, inserted]⟩
  | @updateRole a k n d df app now => exact hwrite (.updateRole app.id k n d df) now trivial ⟨_, rfl⟩
  | @deleteRole a k app r => exact hwrite (.deleteRole app.id k) 0 trivial ⟨_, rfl⟩
  | @createPermission a n k d app now t happ hcode ht =>
      exact hwrite (.insertPermission app.id n k d) now (Table.id_lt_next happ)
        ⟨1, by simp [Statement.write, ht, inserted]⟩
  | @updatePermission a k n d app now =>
      exact hwrite (.updatePermission app.id k n d) now trivial ⟨_, rfl⟩
  | @deletePermission a k app r => exact hwrite (.deletePermission app.id k) 0 trivial ⟨_, rfl⟩
  | @assignRoleToUser a u k app role now t happ hcode hrole hkey hid ht =>
      exact hwrite (.insertUserRole role.appId u role.id) now
        ⟨Table.id_lt_next hrole, ho.role_appId role hrole⟩
        ⟨1, by simp [Statement.write, ht, inserted]⟩
  | @removeRoleFromUser a u k r => exact hwrite (.deleteUserRole a u k) 0 trivial ⟨_, rfl⟩
  | @addPermissionToRole a k p app role perm t happ hcode hrole hkey hid hperm hkey' hid' ht =>
      have hone : o.role role.id = o.perm perm.id := by
        rw [ho.role_appId role hrole, ho.perm_appId perm hperm, hid, hid']
      exact hwrite (.insertRolePermission role.id perm.id) 0
        ⟨Table.id_lt_next hrole, Table.id_lt_next hperm, hone⟩
        ⟨1, by simp [Statement.write, ht, inserted]⟩
  | @removePermissionFromRole a k p r =>
      exact hwrite (.deleteRolePermission a k p) 0 trivial ⟨_, rfl⟩

end DaoOp.Effect

/-! ## Every reachable state -/

namespace Db

theorem consistent_empty :
    (⟨fun _ => 0, fun _ => 0⟩ : Owners).Consistent
      { (Db.empty : Db c) with sysConsoleUsers := InitSql.consoleUsers } where
  role_appId := by intro r hr; cases hr
  perm_appId := by intro p hp; cases hp
  binding := by intro rp hrp; cases hrp
  assignment := by intro ur hur; cases hur
  binding_lt := by intro rp hrp; cases hrp
  assignment_lt := by intro ur hur; cases hur
  role_lt := fun _ _ => Nat.one_pos
  perm_lt := fun _ _ => Nat.one_pos

/-- The tables of every run agree with a record of who owns what. -/
theorem exists_owners {installed : ℤ} {σ : DaoState c} (hσ : σ.db = initial installed)
    (l : List DaoCall) : ∃ o : Owners, o.Consistent (run DaoState.call σ l).db := by
  refine reachable_induction (P := fun db => ∃ o : Owners, o.Consistent db) ⟨_, consistent_empty⟩
    ?_ ?_ hσ l
  · rintro db op r db' ⟨o, ho⟩ h
    obtain ⟨o', ho', -⟩ := h.consistent ho
    exact ⟨o', ho'⟩
  · rintro db t ⟨o, ho⟩
    exact ⟨o, { ho with }⟩

/-- An assignment, a binding of its role and the permission bound belong to one app,
whatever has become of the role. -/
theorem chain_one_app {o : Owners} {db : Db c} (ho : o.Consistent db) {ur : SysUserRole}
    {rp : SysRolePermission} {p : SysPermission} (hur : ur ∈ db.sysUserRoles)
    (hrp : rp ∈ db.sysRolePermissions) (hp : p ∈ db.sysPermissions)
    (hrole : ur.roleId = rp.roleId) (hperm : rp.permId = p.id) : p.appId = ur.appId := by
  calc p.appId = o.perm p.id := (ho.perm_appId p hp).symm
    _ = o.perm rp.permId := by rw [hperm]
    _ = o.role rp.roleId := (ho.binding rp hrp).symm
    _ = o.role ur.roleId := by rw [hrole]
    _ = ur.appId := ho.assignment ur hur

/-! ## Two states of one history -/

/-- `db'` comes after `db`: numbers have only been issued, and a row with a number
issued by `db` was there already. -/
structure Later (db db' : Db c) : Prop where
  apps_next : db.sysApps.next ≤ db'.sysApps.next
  roles_next : db.sysRoles.next ≤ db'.sysRoles.next
  perms_next : db.sysPermissions.next ≤ db'.sysPermissions.next
  rolePerms_next : db.sysRolePermissions.next ≤ db'.sysRolePermissions.next
  userRoles_next : db.sysUserRoles.next ≤ db'.sysUserRoles.next
  old_app : ∀ a' ∈ db'.sysApps, a'.id < db.sysApps.next →
    ∃ a ∈ db.sysApps, a.id = a'.id ∧ a.appCode = a'.appCode
  old_rolePermission : ∀ rp ∈ db'.sysRolePermissions, rp.id < db.sysRolePermissions.next →
    rp ∈ db.sysRolePermissions
  old_userRole : ∀ ur ∈ db'.sysUserRoles, ur.id < db.sysUserRoles.next → ur ∈ db.sysUserRoles

namespace Later
variable {db db' db'' : Db c}

theorem refl (db : Db c) : Later db db where
  apps_next := le_refl _
  roles_next := le_refl _
  perms_next := le_refl _
  rolePerms_next := le_refl _
  userRoles_next := le_refl _
  old_app := fun a h _ => ⟨a, h, rfl, rfl⟩
  old_rolePermission := fun _ h _ => h
  old_userRole := fun _ h _ => h

theorem trans (h : Later db db') (k : Later db' db'') : Later db db'' where
  apps_next := h.apps_next.trans k.apps_next
  roles_next := h.roles_next.trans k.roles_next
  perms_next := h.perms_next.trans k.perms_next
  rolePerms_next := h.rolePerms_next.trans k.rolePerms_next
  userRoles_next := h.userRoles_next.trans k.userRoles_next
  old_app := by
    intro a'' h'' hlt
    obtain ⟨a', h', hid, hcode⟩ := k.old_app a'' h'' (lt_of_lt_of_le hlt h.apps_next)
    obtain ⟨a, ha, hid', hcode'⟩ := h.old_app a' h' (hid ▸ hlt)
    exact ⟨a, ha, hid'.trans hid, hcode'.trans hcode⟩
  old_rolePermission := fun rp hrp hlt => h.old_rolePermission rp
    (k.old_rolePermission rp hrp (lt_of_lt_of_le hlt h.rolePerms_next)) hlt
  old_userRole := fun ur hur hlt => h.old_userRole ur
    (k.old_userRole ur hur (lt_of_lt_of_le hlt h.userRoles_next)) hlt

end Later
end Db

theorem DaoOp.Effect.later {db db' : Db c} {op : DaoOp} {r : Bool} (h : Effect db op r db') :
    Db.Later db db' := by
  have hrefl := Db.Later.refl db
  cases h with
  | nothing => exact hrefl
  | createApp secret now ht =>
      obtain ⟨-, hnext, -⟩ := Table.insert_eq_some ht
      refine { hrefl with apps_next := by rw [hnext]; omega, old_app := ?_ }
      intro a' ha' hlt
      rcases (Table.mem_insert_iff ht a').mp ha' with ha | rfl
      · exact ⟨a', ha, rfl, rfl⟩
      · exact absurd hlt (lt_irrefl _)
  | updateApp r now =>
      exact { hrefl with old_app := fun a' ha' _ => Db.exists_of_mem_setApp ha' }
  | deleteApp r =>
      exact { hrefl with
        old_app := fun a ha _ => ⟨a, (Table.mem_delete.mp ha).1, rfl, rfl⟩ }
  | createRole now happ hcode ht =>
      obtain ⟨-, hnext, -⟩ := Table.insert_eq_some ht
      exact { hrefl with roles_next := by rw [hnext]; omega }
  | updateRole now happ hcode => exact { hrefl with }
  | deleteRole r happ hcode => exact { hrefl with }
  | createPermission now happ hcode ht =>
      obtain ⟨-, hnext, -⟩ := Table.insert_eq_some ht
      exact { hrefl with perms_next := by rw [hnext]; omega }
  | updatePermission now happ hcode => exact { hrefl with }
  | deletePermission r happ hcode => exact { hrefl with }
  | assignRoleToUser now happ hcode hrole hkey hid ht =>
      obtain ⟨-, hnext, -⟩ := Table.insert_eq_some ht
      refine { hrefl with userRoles_next := by rw [hnext]; omega, old_userRole := ?_ }
      intro ur hur hlt
      rcases (Table.mem_insert_iff ht ur).mp hur with hur | rfl
      · exact hur
      · exact absurd hlt (lt_irrefl _)
  | removeRoleFromUser r =>
      exact { hrefl with old_userRole := fun ur hur _ => (Table.mem_delete.mp hur).1 }
  | addPermissionToRole happ hcode hrole hkey hid hperm hkey' hid' ht =>
      obtain ⟨-, hnext, -⟩ := Table.insert_eq_some ht
      refine { hrefl with rolePerms_next := by rw [hnext]; omega, old_rolePermission := ?_ }
      intro rp hrp hlt
      rcases (Table.mem_insert_iff ht rp).mp hrp with hrp | rfl
      · exact hrp
      · exact absurd hlt (lt_irrefl _)
  | removePermissionFromRole r =>
      exact { hrefl with old_rolePermission := fun rp hrp _ => (Table.mem_delete.mp hrp).1 }

namespace Db

/-- Along a run the record is extended, and numbers are only issued. -/
theorem owners_of_run {o : Owners} {σ : DaoState c} (ho : o.Consistent σ.db) (l : List DaoCall) :
    ∃ o' : Owners, o'.Consistent (run DaoState.call σ l).db ∧ o'.Extends o σ.db ∧
      Later σ.db (run DaoState.call σ l).db := by
  refine run_induction (P := fun τ : DaoState c => ∃ o' : Owners, o'.Consistent τ.db ∧
    o'.Extends o σ.db ∧ Later σ.db τ.db) ?_ l ⟨o, ho, .refl o _, .refl _⟩
  rintro τ x ⟨o₁, ho₁, hext, hlater⟩
  obtain ⟨o₂, ho₂, hext'⟩ := (τ.call_effect x).consistent ho₁
  refine ⟨o₂, ho₂, ⟨?_, ?_⟩, hlater.trans (τ.call_effect x).later⟩
  · intro n hn
    rw [hext'.role n (lt_of_lt_of_le hn hlater.roles_next), hext.role n hn]
  · intro n hn
    rw [hext'.perm n (lt_of_lt_of_le hn hlater.perms_next), hext.perm n hn]

end Db
end SiqiAuth
