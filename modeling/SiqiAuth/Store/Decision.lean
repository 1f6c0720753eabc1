import SiqiAuth.Store.UserPermissions

/-!
# What `checkPermission` decides

The decision query reaches from an assignment to a permission through the role's
number and never looks at `sys_roles`.  It therefore decides what it is meant to
decide exactly as long as no role that confers something is deleted: the role's
assignments and bindings stay behind and go on granting.

## Main definitions

* `Db.Granted` — what it means to hold a permission.
* `Db.Decides` — `checkPermission` answers by that.
* `Db.RolesKept` — no permission is conferred by a deleted role.
* `DaoOp.SparesGrants` — the operations that keep it so.
* `DaoState.SparesGrants` — the calls that keep it so, those that fail among them.
-/

namespace SiqiAuth
open Lib

variable {c : Collation}

namespace Db
variable (db : Db c)

/-- The user holds the permission: an enabled app has a role that is assigned to the
user and bound to the permission. -/
def Granted (appCode userId permKey : String) : Prop :=
  ∃ app ∈ db.sysApps, c.same app.appCode appCode = true ∧ app.status = 1 ∧
    ∃ role ∈ db.sysRoles, role.appId = app.id ∧
      (∃ ur ∈ db.sysUserRoles, ur.appId = app.id ∧ ur.roleId = role.id ∧
        c.same ur.appUserId userId = true) ∧
      ∃ perm ∈ db.sysPermissions, perm.appId = app.id ∧ c.same perm.permKey permKey = true ∧
        ∃ rp ∈ db.sysRolePermissions, rp.roleId = role.id ∧ rp.permId = perm.id

instance (a u p : String) : Decidable (db.Granted a u p) := by
  unfold Granted
  infer_instance

/-- `checkPermission` answers true exactly to the users who hold the permission. -/
def Decides : Prop :=
  ∀ σ : DaoState c, σ.db = db → σ.Healthy → ∀ a u p res,
    ((PermissionDAO.checkPermission a u p res).run σ).1 = true ↔ db.Granted a u p

/-- A role number leads from some user to some permission. -/
def Confers (roleId : ℕ) : Prop :=
  ∃ ur ∈ db.sysUserRoles, ur.roleId = roleId ∧
    ∃ rp ∈ db.sysRolePermissions, rp.roleId = roleId ∧ ∃ p ∈ db.sysPermissions, rp.permId = p.id

/-- In an enabled app, a role number that confers something is that of a role. -/
def RolesKept : Prop :=
  ∀ app ∈ db.sysApps, app.status = 1 → ∀ ur ∈ db.sysUserRoles, ur.appId = app.id →
    db.Confers ur.roleId → ∃ role ∈ db.sysRoles, role.id = ur.roleId

variable {db} {o : Owners}

/-- With fewer rows, less is conferred. -/
theorem Confers.mono {db' : Db c} {n : ℕ} (h : db'.Confers n)
    (hur : ∀ ur ∈ db'.sysUserRoles, ur ∈ db.sysUserRoles)
    (hrp : ∀ rp ∈ db'.sysRolePermissions, rp ∈ db.sysRolePermissions)
    (hp : ∀ p' ∈ db'.sysPermissions, ∃ p ∈ db.sysPermissions, p.id = p'.id) : db.Confers n := by
  obtain ⟨ur, hmem, hn, rp, hmem', hn', p', hmem'', hp'⟩ := h
  obtain ⟨p, hp, hid⟩ := hp p' hmem''
  exact ⟨ur, hur ur hmem, hn, rp, hrp rp hmem', hn', p, hp, hp'.trans hid.symm⟩

/-- As long as no permission is conferred by a deleted role, the query decides. -/
theorem RolesKept.decides (ho : o.Consistent db) (h : db.RolesKept) : db.Decides := by
  rintro σ rfl hσ a u p res
  rw [(PermissionDAO.checkPermission_reads a u p res).result hσ, exists_selectCheckPermission_iff]
  constructor
  · rintro ⟨app, happ, hcode, hst, perm, hreaches, hkey⟩
    have hpapp := hreaches.appId ho
    obtain ⟨hperm, ur, hur, hid, huser, rp, hrp, hrole, hpid⟩ := hreaches
    obtain ⟨role, hmem, hrid⟩ :=
      h app happ hst ur hur hid ⟨ur, hur, rfl, rp, hrp, hrole, perm, hperm, hpid⟩
    have happId : role.appId = app.id := (ho.appId_eq hur hmem hrid).trans hid
    exact ⟨app, happ, hcode, hst, role, hmem, happId, ⟨ur, hur, hid, hrid.symm, huser⟩, perm, hperm,
      hpapp, hkey, rp, hrp, hrole.trans hrid.symm, hpid⟩
  · rintro ⟨app, happ, hcode, hst, role, hrole, happId, ⟨ur, hur, hid, hrid, huser⟩, perm, hperm,
      hpapp, hkey, rp, hrp, hrp', hpid⟩
    exact ⟨app, happ, hcode, hst, perm,
      ⟨hperm, ur, hur, hid, huser, rp, hrp, hrp'.trans hrid.symm, hpid⟩, hkey⟩

end Db

/-- The operation does not cut a user's permission loose from its role: it deletes no
role of an enabled app that confers something, and enables no app in which a deleted
role does. -/
def DaoOp.SparesGrants (db : Db c) : DaoOp → Prop
  | .deleteRole a k => ∀ app ∈ db.sysApps, c.same app.appCode a = true → app.status = 1 →
      ∀ role ∈ db.sysRoles, role.appId = app.id → c.same role.roleKey k = true →
        ¬ db.Confers role.id
  | .updateApp a _ _ (some 1) => ∀ app ∈ db.sysApps, c.same app.appCode a = true →
      ∀ ur ∈ db.sysUserRoles, ur.appId = app.id → db.Confers ur.roleId →
        ∃ role ∈ db.sysRoles, role.id = ur.roleId
  | _ => True

instance (db : Db c) (n : ℕ) : Decidable (db.Confers n) := by
  unfold Db.Confers
  infer_instance

instance DaoOp.decidableSparesGrants (db : Db c) (op : DaoOp) : Decidable (op.SparesGrants db) := by
  unfold DaoOp.SparesGrants
  split <;> infer_instance

theorem DaoOp.sparesGrants_of_creates {op : DaoOp} (db : Db c) (h : op.creates = true) :
    op.SparesGrants db := by
  cases op with
  | createApp | createRole | createPermission | assignRoleToUser | addPermissionToRole => trivial
  | _ => cases h

namespace DaoOp.Effect
variable {db db' : Db c} {op : DaoOp} {r : Bool} {o : Owners}

/-- An operation that spares grants leaves no permission conferred by a deleted role. -/
theorem rolesKept (h : Effect db op r db') (ho : o.Consistent db) (hk : db.RolesKept)
    (hs : op.SparesGrants db) : db'.RolesKept := by
  intro app' happ' hst' ur hur hid hconf
  have hsame : ∀ p ∈ db.sysPermissions, ∃ q ∈ db.sysPermissions, q.id = p.id :=
    fun p hp => ⟨p, hp, rfl⟩
  cases h with
  | nothing => exact hk app' happ' hst' ur hur hid hconf
  | createApp secret now ht =>
      rcases (Table.mem_insert_iff ht app').mp happ' with happ | rfl
      · exact hk app' happ hst' ur hur hid hconf
      · -- No assignment can name an app that did not exist.
        have hlt := ho.appId_lt hur
        rw [hid] at hlt
        exact absurd hlt (lt_irrefl _)
  | @updateApp a n d st r now =>
      obtain ⟨app, happ, rfl⟩ := Db.mem_setApp.mp happ'
      by_cases hcode : c.same app.appCode a = true
      · rw [if_pos hcode] at hst' hid
        rw [SysApp.id_set] at hid
        rw [SysApp.status_set] at hst'
        cases st with
        | none => exact hk app happ hst' ur hur hid hconf
        | some st =>
            obtain rfl : st = 1 := hst'
            exact hs app happ hcode ur hur hid hconf
      · rw [if_neg hcode] at hst' hid
        exact hk app happ hst' ur hur hid hconf
  | deleteApp r => exact hk app' (Table.mem_delete.mp happ').1 hst' ur hur hid hconf
  | createRole now happ hcode ht =>
      obtain ⟨role, hrole, hrid⟩ := hk app' happ' hst' ur hur hid hconf
      exact ⟨role, Table.mem_insert_of_mem ht hrole, hrid⟩
  | @updateRole a k n d df app now happ hcode =>
      obtain ⟨role, hrole, hrid⟩ := hk app' happ' hst' ur hur hid hconf
      refine ⟨_, Db.mem_setRole.mpr ⟨role, hrole, rfl⟩, ?_⟩
      split <;> exact hrid
  | @deleteRole a k app r happ hcode =>
      obtain ⟨role, hrole, hrid⟩ := hk app' happ' hst' ur hur hid hconf
      refine ⟨role, Table.mem_delete.mpr ⟨hrole, ?_⟩, hrid⟩
      by_contra hdel
      rw [Bool.not_eq_false, Bool.and_eq_true, beq_iff_eq] at hdel
      -- The role deleted is one of this app, and it confers something.
      have happId : role.appId = app'.id := (ho.appId_eq hur hrole hrid).trans hid
      obtain rfl : app = app' := Table.eq_of_id happ happ' (hdel.1.symm.trans happId)
      exact hs app happ hcode hst' role hrole happId hdel.2 (hrid ▸ hconf)
  | createPermission now happ hcode ht =>
      refine hk app' happ' hst' ur hur hid ?_
      obtain ⟨ur', hur', hn, rp, hrp, hn', p, hp, hpid⟩ := hconf
      rcases (Table.mem_insert_iff ht p).mp hp with hp | rfl
      · exact ⟨ur', hur', hn, rp, hrp, hn', p, hp, hpid⟩
      · -- No binding can name a permission that did not exist.
        have hlt := (ho.binding_lt rp hrp).2
        rw [hpid] at hlt
        exact absurd hlt (lt_irrefl _)
  | updatePermission now happ hcode =>
      refine hk app' happ' hst' ur hur hid (hconf.mono (fun _ => id) (fun _ => id) ?_)
      intro p' hp'
      obtain ⟨p, hp, hpid, -⟩ := Db.exists_of_mem_setPermission hp'
      exact ⟨p, hp, hpid⟩
  | deletePermission r happ hcode =>
      exact hk app' happ' hst' ur hur hid (hconf.mono (fun _ => id) (fun _ => id)
        fun p hp => hsame p (Table.mem_delete.mp hp).1)
  | @assignRoleToUser a u k app role now t happ hcode hrole hkey hid' ht =>
      rcases (Table.mem_insert_iff ht ur).mp hur with hur | rfl
      · by_cases hroleId : ur.roleId = role.id
        · exact ⟨role, hrole, hroleId.symm⟩
        · refine hk app' happ' hst' ur hur hid ?_
          obtain ⟨-, -, -, rp, hrp, hn', p, hp, hpid⟩ := hconf
          exact ⟨ur, hur, rfl, rp, hrp, hn', p, hp, hpid⟩
      · exact ⟨role, hrole, rfl⟩
  | removeRoleFromUser r =>
      exact hk app' happ' hst' ur (Table.mem_delete.mp hur).1 hid
        (hconf.mono (fun _ h => (Table.mem_delete.mp h).1) (fun _ => id) hsame)
  | @addPermissionToRole a k p app role perm t happ hcode hrole hkey hid' hperm hkey' hid'' ht =>
      obtain ⟨ur', hur', hn, rp, hrp, hn', q, hq, hpid⟩ := hconf
      rcases (Table.mem_insert_iff ht rp).mp hrp with hrp | rfl
      · exact hk app' happ' hst' ur hur hid ⟨ur', hur', hn, rp, hrp, hn', q, hq, hpid⟩
      · exact ⟨role, hrole, hn'⟩
  | removePermissionFromRole r =>
      exact hk app' happ' hst' ur hur hid
        (hconf.mono (fun _ => id) (fun _ h => (Table.mem_delete.mp h).1) hsame)

end DaoOp.Effect

/-! ## Runs -/

namespace Db

theorem rolesKept_initial (installed : ℤ) : (initial installed : Db c).RolesKept := by
  have h : ∃ o : Owners, o.Consistent (initial installed : Db c) ∧
      (initial installed : Db c).RolesKept := by
    refine initial_induction (P := fun db => ∃ o : Owners, o.Consistent db ∧ db.RolesKept)
      ⟨_, consistent_empty, ?_⟩ ?_ ?_ installed
    · intro app happ
      cases happ
    · rintro db op r db' hop ⟨o, ho, hk⟩ h
      obtain ⟨o', ho', -⟩ := h.consistent ho
      exact ⟨o', ho', h.rolesKept ho hk (DaoOp.sparesGrants_of_creates db hop)⟩
    · rintro db t ⟨o, ho, hk⟩
      exact ⟨o, { ho with }, hk⟩
  obtain ⟨o, -, hk⟩ := h
  exact hk

end Db

namespace DaoState

/-- The call does not succeed in cutting a user's permission loose from its role. -/
def SparesGrants (σ : DaoState c) (x : DaoCall) : Prop :=
  σ.returns x = true → x.op.SparesGrants σ.db

instance (σ : DaoState c) (x : DaoCall) : Decidable (σ.SparesGrants x) :=
  inferInstanceAs (Decidable (_ → _))

/-- One call that spares grants leaves no permission conferred by a deleted role. -/
theorem rolesKept_call {o : Owners} {σ : DaoState c} {x : DaoCall} (ho : o.Consistent σ.db)
    (hk : σ.db.RolesKept) (hx : σ.SparesGrants x) : (σ.call x).db.RolesKept := by
  cases hr : σ.returns x with
  | true => exact (σ.call_effect x).rolesKept ho hk (hx hr)
  | false =>
      have hsame : (σ.call x).db = (σ.facing x.outcomes x.wallClock).db :=
        DaoOp.run_of_false (Prod.ext hr rfl)
      rw [hsame]
      exact hk

/-- After a run of calls that spare grants, none is. -/
theorem rolesKept_run {installed : ℤ} {σ : DaoState c} (hσ : σ.db = Db.initial installed)
    {l : List DaoCall} (hl : Meets DaoState.call SparesGrants σ l) :
    ∃ o : Owners, o.Consistent (run DaoState.call σ l).db ∧
      (run DaoState.call σ l).db.RolesKept := by
  refine run_invariant (P := fun τ : DaoState c => ∃ o : Owners, o.Consistent τ.db ∧ τ.db.RolesKept)
    ?_ ?_ hl
  · rintro τ x ⟨o, ho, hk⟩ hx
    obtain ⟨o', ho', -⟩ := (τ.call_effect x).consistent ho
    exact ⟨o', ho', rolesKept_call ho hk hx⟩
  · obtain ⟨o, ho⟩ := Db.exists_owners hσ []
    refine ⟨o, ho, ?_⟩
    rw [hσ]
    exact Db.rolesKept_initial installed

end DaoState

/-- **In every run whose operations spare grants, `checkPermission` decides** what it
is meant to decide. -/
theorem checkPermission_decides {installed : ℤ} {σ : DaoState c} (hσ : σ.db = Db.initial installed)
    (l : List DaoCall) (hl : Meets DaoState.call (fun τ x => x.op.SparesGrants τ.db) σ l) :
    (run DaoState.call σ l).db.Decides := by
  obtain ⟨o, ho, hk⟩ := DaoState.rolesKept_run hσ (hl.mono fun _ _ hop _ => hop)
  exact hk.decides ho

/-- A run that grants a role and deletes another, which confers nothing. -/
theorem checkPermission_decides_after_deleting_member :
    (run DaoState.call (DaoState.start 0 : DaoState .binary)
      [⟨.assignRoleToUser "qq_bot" "42" "admin", [], 7⟩,
        ⟨.deleteRole "qq_bot" "member", [], 8⟩]).db.Decides :=
  checkPermission_decides (DaoState.db_start 0) _
    (by rw [DaoState.start_eq_seeded]; decide +kernel)

/-- The role `admin` of `qq_bot` is deleted, and user 100001 keeps its permissions. -/
theorem deleted_role_still_grants :
    let σ := run DaoState.call (DaoState.start 0 : DaoState .binary)
      [⟨.deleteRole "qq_bot" "admin", [], 0⟩]
    ((PermissionDAO.checkPermission "qq_bot" "100001" "member:kick" "").run σ).1 = true ∧
      ¬ σ.db.Granted "qq_bot" "100001" "member:kick" := by
  rw [DaoState.start_eq_seeded]
  decide +kernel

end SiqiAuth
