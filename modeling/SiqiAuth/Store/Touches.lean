import SiqiAuth.Store.UserPermissions

/-!
# Whose permission keys an operation touches

The permission keys of a user change only by an operation that asks to add or delete a
row on a path from the user to a permission: by granting, revoking, binding and
unbinding, and by deleting a permission or an app.  Whatever creates an app, a role
or a permission creates it unconnected, and a deleted role goes on connecting.

## Main definitions

* `DaoOp.Touches` — the operation asks to add or delete such a row.
* `DaoOp.Effect.permKeys_eq` — an operation that does not leaves the keys of the user
  as they are.
-/

namespace SiqiAuth
open Lib

variable {c : Collation}

namespace Db

instance (db : Db c) (app : SysApp) (u : String) (perm : SysPermission) :
    Decidable (db.Reaches app u perm) :=
  inferInstanceAs (Decidable (_ ∧ _))

/-- The role number leads to a permission. -/
def Bound (db : Db c) (roleId : ℕ) : Prop :=
  ∃ rp ∈ db.sysRolePermissions, rp.roleId = roleId ∧ ∃ perm ∈ db.sysPermissions, rp.permId = perm.id

/-- The user is led to the role number. -/
def Assigned (db : Db c) (app : SysApp) (userId : String) (roleId : ℕ) : Prop :=
  ∃ ur ∈ db.sysUserRoles, ur.appId = app.id ∧ c.same ur.appUserId userId = true ∧
    ur.roleId = roleId

instance (db : Db c) (roleId : ℕ) : Decidable (db.Bound roleId) :=
  inferInstanceAs (Decidable (∃ _ ∈ _, _))

instance (db : Db c) (app : SysApp) (u : String) (roleId : ℕ) :
    Decidable (db.Assigned app u roleId) :=
  inferInstanceAs (Decidable (∃ _ ∈ _, _))

end Db

/-- The operation asks to add or delete a row on a path from the user `u` to a permission of
the app `a`; whether there is something to add or delete is not looked at.  An assignment is
for the user id as its column keeps it. -/
def DaoOp.Touches (db : Db c) (a u : String) : DaoOp → Prop
  | .deleteApp a' => ∃ app ∈ db.sysApps, c.same app.appCode a' = true ∧
      c.same app.appCode a = true ∧ ∃ perm ∈ db.sysPermissions, db.Reaches app u perm
  | .deletePermission a' k => ∃ app ∈ db.sysApps, c.same app.appCode a' = true ∧
      c.same app.appCode a = true ∧ ∃ perm ∈ db.sysPermissions, db.Reaches app u perm ∧
        c.same perm.permKey k = true
  | .assignRoleToUser a' u' k => c.same (varchar 128 u') u = true ∧
      ∃ app ∈ db.sysApps, c.same app.appCode a' = true ∧ c.same app.appCode a = true ∧
        ∃ role ∈ db.sysRoles, role.appId = app.id ∧ c.same role.roleKey k = true ∧ db.Bound role.id
  | .removeRoleFromUser a' u' k => c.same u' u = true ∧
      ∃ app ∈ db.sysApps, c.same app.appCode a' = true ∧ c.same app.appCode a = true ∧
        ∃ role ∈ db.sysRoles, role.appId = app.id ∧ c.same role.roleKey k = true ∧ db.Bound role.id
  | .addPermissionToRole a' k _ | .removePermissionFromRole a' k _ =>
      ∃ app ∈ db.sysApps, c.same app.appCode a' = true ∧ c.same app.appCode a = true ∧
        ∃ role ∈ db.sysRoles, role.appId = app.id ∧ c.same role.roleKey k = true ∧
          db.Assigned app u role.id
  | _ => False

instance DaoOp.decidableTouches (db : Db c) (a u : String) (op : DaoOp) :
    Decidable (op.Touches db a u) := by
  induction op using DaoOp.casesOn <;> dsimp only [DaoOp.Touches] <;> infer_instance

namespace Db
variable {db db' : Db c} {app app' : SysApp} {a u : String} {perm perm' : SysPermission}

/-- What is reached depends on the numbers of the app and of the permission. -/
theorem Reaches.congr (h : db.Reaches app u perm) (happ : app'.id = app.id)
    (hid : perm'.id = perm.id) (hperm : perm' ∈ db'.sysPermissions)
    (hur : ∀ ur ∈ db.sysUserRoles, ur ∈ db'.sysUserRoles)
    (hrp : ∀ rp ∈ db.sysRolePermissions, rp ∈ db'.sysRolePermissions) :
    db'.Reaches app' u perm' := by
  obtain ⟨-, ur, hmem, hurid, huser, rp, hmem', hrole, hpid⟩ := h
  exact ⟨hperm, ur, hur ur hmem, hurid.trans happ.symm, huser, rp, hrp rp hmem', hrole,
    hpid.trans hid.symm⟩

/-- The keys are among those of other tables if every path leads there as well. -/
theorem permKeys_subset (h : ∀ app ∈ db.sysApps, c.same app.appCode a = true → ∀ perm,
    db.Reaches app u perm → ∃ app' ∈ db'.sysApps, c.same app'.appCode a = true ∧
      ∃ perm', db'.Reaches app' u perm' ∧ perm'.permKey = perm.permKey) :
    db.permKeys a u ⊆ db'.permKeys a u := by
  intro k hk
  obtain ⟨app, happ, hcode, perm, hreaches, rfl⟩ := mem_permKeys.mp hk
  exact mem_permKeys.mpr (h app happ hcode perm hreaches)

end Db

namespace DaoOp.Effect
variable {db db' : Db c} {op : DaoOp} {r : Bool} {o : Owners} {a u : String}

/-- Whatever an operation does that does not touch the user, no path is lost. -/
theorem permKeys_subset (h : Effect db op r db') (ho : o.Consistent db)
    (hop : ¬ op.Touches db a u) : db.permKeys a u ⊆ db'.permKeys a u := by
  refine Db.permKeys_subset fun app happ hcode perm hreaches => ?_
  have hperm := hreaches.1
  cases h with
  | nothing | createRole | updateRole | deleteRole =>
      exact ⟨app, happ, hcode, perm, hreaches, rfl⟩
  | createApp secret now ht =>
      exact ⟨app, Table.mem_insert_of_mem ht happ, hcode, perm, hreaches, rfl⟩
  | @updateApp a' n d st r now =>
      refine ⟨_, Db.mem_setApp.mpr ⟨app, happ, rfl⟩, ?_, perm,
        hreaches.congr ?_ rfl hperm (fun _ h => h) fun _ h => h, rfl⟩
      · split
        · rw [SysApp.appCode_set]
          exact hcode
        · exact hcode
      · split
        · exact SysApp.id_set _ _ _ _ _
        · rfl
  | @deleteApp a' =>
      refine ⟨app, Table.mem_delete.mpr ⟨happ, Bool.eq_false_iff.mpr fun hdropped => ?_⟩, hcode, perm,
        hreaches, rfl⟩
      exact hop ⟨app, happ, hdropped, hcode, perm, hperm, hreaches⟩
  | createPermission now happ' hcode' ht =>
      exact ⟨app, happ, hcode, perm, hreaches.congr rfl rfl (Table.mem_insert_of_mem ht hperm)
        (fun _ h => h) fun _ h => h, rfl⟩
  | @updatePermission a' k n d app' now happ' hcode' =>
      refine ⟨app, happ, hcode, _, hreaches.congr rfl ?_ (Db.mem_setPermission.mpr ⟨perm, hperm, rfl⟩)
        (fun _ h => h) fun _ h => h, ?_⟩
      · split <;> rfl
      · split <;> rfl
  | @deletePermission a' k app' r happ' hcode' =>
      have hid := hreaches.appId ho
      refine ⟨app, happ, hcode, perm, hreaches.congr rfl rfl (Table.mem_delete.mpr ⟨hperm, ?_⟩)
        (fun _ h => h) fun _ h => h, rfl⟩
      rw [Bool.eq_false_iff]
      intro hdropped
      rw [Bool.and_eq_true, beq_iff_eq, hid] at hdropped
      obtain rfl : app = app' := Table.eq_of_id happ happ' hdropped.1
      exact hop ⟨app, happ, hcode', hcode, perm, hperm, hreaches, hdropped.2⟩
  | assignRoleToUser now happ' hcode' hrole hkey hid ht =>
      exact ⟨app, happ, hcode, perm, hreaches.congr rfl rfl hperm
        (fun _ h => Table.mem_insert_of_mem ht h) fun _ h => h, rfl⟩
  | @removeRoleFromUser a' u' k r =>
      obtain ⟨-, ur, hur, hurid, huser, rp, hrp, hrole, hpid⟩ := hreaches
      refine ⟨app, happ, hcode, perm, ⟨hperm, ur, Table.mem_delete.mpr ⟨hur, ?_⟩, hurid, huser, rp,
        hrp, hrole, hpid⟩, rfl⟩
      rw [Bool.eq_false_iff]
      intro hdropped
      simp only [Db.dropsUserRole, Bool.and_eq_true, List.any_eq_true, beq_iff_eq] at hdropped
      obtain ⟨⟨⟨x, hx, hxid, hxcode⟩, huser'⟩, role, hmem, hroleid, hkey⟩ := hdropped
      obtain rfl : app = x := Table.eq_of_id happ hx (hurid.symm.trans hxid)
      have hroleapp : role.appId = app.id := (ho.appId_eq hur hmem hroleid.symm).trans hurid
      exact hop ⟨c.same_trans _ _ _ (c.same_comm huser') huser, app, happ, hxcode, hcode, role, hmem,
        hroleapp, hkey, rp, hrp, hrole.trans hroleid, perm, hperm, hpid⟩
  | addPermissionToRole happ' hcode' hrole hkey hid hperm' hkey' hid' ht =>
      exact ⟨app, happ, hcode, perm, hreaches.congr rfl rfl hperm (fun _ h => h)
        fun _ h => Table.mem_insert_of_mem ht h, rfl⟩
  | @removePermissionFromRole a' k p r =>
      obtain ⟨-, ur, hur, hurid, huser, rp, hrp, hrole, hpid⟩ := hreaches
      refine ⟨app, happ, hcode, perm, ⟨hperm, ur, hur, hurid, huser, rp,
        Table.mem_delete.mpr ⟨hrp, ?_⟩, hrole, hpid⟩, rfl⟩
      rw [Bool.eq_false_iff]
      intro hdropped
      simp only [Db.dropsRolePermission, Bool.and_eq_true, List.any_eq_true, beq_iff_eq] at hdropped
      obtain ⟨⟨role, hmem, ⟨hroleid, hkey⟩, x, hx, hxid, hxcode⟩, -⟩ := hdropped
      have hroleapp : role.appId = app.id :=
        (ho.appId_eq hur hmem (hroleid.symm.trans hrole)).trans hurid
      obtain rfl : app = x := Table.eq_of_id happ hx (hroleapp.symm.trans hxid)
      exact hop ⟨app, happ, hxcode, hcode, role, hmem, hroleapp, hkey, ur, hur, hurid, huser,
        hrole.symm.trans hroleid⟩

/-- And none is added. -/
theorem subset_permKeys (h : Effect db op r db') (ho : o.Consistent db)
    (hop : ¬ op.Touches db a u) : db'.permKeys a u ⊆ db.permKeys a u := by
  refine Db.permKeys_subset fun app' happ' hcode perm' hreaches => ?_
  have hperm' := hreaches.1
  cases h with
  | nothing | createRole | updateRole | deleteRole =>
      exact ⟨app', happ', hcode, perm', hreaches, rfl⟩
  | createApp secret now ht =>
      obtain happ | rfl := (Table.mem_insert_iff ht app').mp happ'
      · exact ⟨app', happ, hcode, perm', hreaches, rfl⟩
      · -- No assignment can name an app that did not exist.
        obtain ⟨-, ur, hur, hurid, -⟩ := hreaches
        have hlt := ho.appId_lt hur
        rw [hurid] at hlt
        exact absurd hlt (lt_irrefl _)
  | updateApp =>
      obtain ⟨app, happ, hid, hcode'⟩ := Db.exists_of_mem_setApp happ'
      rw [← hcode'] at hcode
      exact ⟨app, happ, hcode, perm',
        hreaches.congr hid rfl hperm' (fun _ h => h) fun _ h => h, rfl⟩
  | deleteApp => exact ⟨app', (Table.mem_delete.mp happ').1, hcode, perm', hreaches, rfl⟩
  | createPermission now happ'' hcode'' ht =>
      obtain hperm | rfl := (Table.mem_insert_iff ht perm').mp hperm'
      · exact ⟨app', happ', hcode, perm',
          hreaches.congr rfl rfl hperm (fun _ h => h) fun _ h => h, rfl⟩
      · -- No binding can name a permission that did not exist.
        obtain ⟨-, ur, hur, hurid, huser, rp, hrp, hrole, hpid⟩ := hreaches
        have hlt := (ho.binding_lt rp hrp).2
        rw [hpid] at hlt
        exact absurd hlt (lt_irrefl _)
  | updatePermission =>
      obtain ⟨perm, hperm, hid, -, hkey⟩ := Db.exists_of_mem_setPermission hperm'
      exact ⟨app', happ', hcode, perm,
        hreaches.congr rfl hid hperm (fun _ h => h) fun _ h => h, hkey⟩
  | deletePermission =>
      exact ⟨app', happ', hcode, perm', hreaches.congr rfl rfl (Table.mem_delete.mp hperm').1
        (fun _ h => h) fun _ h => h, rfl⟩
  | @assignRoleToUser a' u' k app role now t happ hcode' hrole hkey hid ht =>
      obtain ⟨-, ur, hur, hurid, huser, rp, hrp, hroleid, hpid⟩ := hreaches
      obtain hur | rfl := (Table.mem_insert_iff ht ur).mp hur
      · exact ⟨app', happ', hcode, perm',
          ⟨hperm', ur, hur, hurid, huser, rp, hrp, hroleid, hpid⟩, rfl⟩
      · obtain rfl : app = app' := Table.eq_of_id happ happ' (hid.symm.trans hurid)
        exact absurd ⟨huser, app, happ, hcode', hcode, role, hrole, hid, hkey, rp, hrp, hroleid,
          perm', hperm', hpid⟩ hop
  | removeRoleFromUser =>
      exact ⟨app', happ', hcode, perm', hreaches.congr rfl rfl hperm'
        (fun _ h => (Table.mem_delete.mp h).1) fun _ h => h, rfl⟩
  | @addPermissionToRole a' k p app role perm t happ hcode' hrole hkey hid hperm hkey' hid' ht =>
      obtain ⟨-, ur, hur, hurid, huser, rp, hrp, hroleid, hpid⟩ := hreaches
      obtain hrp | rfl := (Table.mem_insert_iff ht rp).mp hrp
      · exact ⟨app', happ', hcode, perm',
          ⟨hperm', ur, hur, hurid, huser, rp, hrp, hroleid, hpid⟩, rfl⟩
      · have hroleid : role.id = ur.roleId := hroleid
        have hroleapp : role.appId = app'.id := (ho.appId_eq hur hrole hroleid).trans hurid
        obtain rfl : app = app' := Table.eq_of_id happ happ' (hid.symm.trans hroleapp)
        exact absurd ⟨app, happ, hcode', hcode, role, hrole, hid, hkey, ur, hur, hurid, huser,
          hroleid.symm⟩ hop
  | removePermissionFromRole =>
      exact ⟨app', happ', hcode, perm', hreaches.congr rfl rfl hperm' (fun _ h => h)
        fun _ h => (Table.mem_delete.mp h).1, rfl⟩

/-- **An operation that does not touch a user leaves the user's permission keys as they
are.** -/
theorem permKeys_eq (h : Effect db op r db') (ho : o.Consistent db) (hop : ¬ op.Touches db a u) :
    db'.permKeys a u = db.permKeys a u :=
  Finset.Subset.antisymm (h.subset_permKeys ho hop) (h.permKeys_subset ho hop)

end DaoOp.Effect
end SiqiAuth
