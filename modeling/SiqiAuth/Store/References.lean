import SiqiAuth.Store.InitRows

/-!
# What refers to what

The script declares no foreign key; its comments say which column refers to which
table.  The creating operations keep the references good, since each looks up what it
refers to.  The three deletions take a row away and leave what refers to it.

## Main definitions

* `Db.Referential` — every number that a row holds is the number of a row.
* `DaoOp.DeletesUnreferenced` — the operation deletes nothing that a row refers to.
* `references_kept` — runs of such operations keep the references good, and when nothing
  fails no others do.
-/

namespace SiqiAuth
open Lib

variable {c : Collation}

namespace Db
variable (db : Db c)

/-- There is an app of that number. -/
def HasApp (n : ℕ) : Prop := ∃ a ∈ db.sysApps, a.id = n

def HasRole (n : ℕ) : Prop := ∃ r ∈ db.sysRoles, r.id = n

def HasPermission (n : ℕ) : Prop := ∃ p ∈ db.sysPermissions, p.id = n

/-- Every number that a row holds is the number of a row. -/
structure Referential : Prop where
  role_app : ∀ r ∈ db.sysRoles, db.HasApp r.appId
  perm_app : ∀ p ∈ db.sysPermissions, db.HasApp p.appId
  binding_role : ∀ rp ∈ db.sysRolePermissions, db.HasRole rp.roleId
  binding_perm : ∀ rp ∈ db.sysRolePermissions, db.HasPermission rp.permId
  assignment_app : ∀ ur ∈ db.sysUserRoles, db.HasApp ur.appId
  assignment_role : ∀ ur ∈ db.sysUserRoles, db.HasRole ur.roleId

/-- Some row refers to the app of that number. -/
def RefersToApp (n : ℕ) : Prop :=
  (∃ r ∈ db.sysRoles, r.appId = n) ∨ (∃ p ∈ db.sysPermissions, p.appId = n) ∨
    ∃ ur ∈ db.sysUserRoles, ur.appId = n

def RefersToRole (n : ℕ) : Prop :=
  (∃ rp ∈ db.sysRolePermissions, rp.roleId = n) ∨ ∃ ur ∈ db.sysUserRoles, ur.roleId = n

def RefersToPermission (n : ℕ) : Prop := ∃ rp ∈ db.sysRolePermissions, rp.permId = n

instance (n : ℕ) : Decidable (db.RefersToApp n) := inferInstanceAs (Decidable (_ ∨ _ ∨ _))
instance (n : ℕ) : Decidable (db.RefersToRole n) := inferInstanceAs (Decidable (_ ∨ _))
instance (n : ℕ) : Decidable (db.RefersToPermission n) := inferInstanceAs (Decidable (∃ _ ∈ _, _))

end Db

/-- The operation deletes nothing that a row refers to. -/
def DaoOp.DeletesUnreferenced (db : Db c) : DaoOp → Prop
  | .deleteApp a => ∀ app ∈ db.sysApps, c.same app.appCode a = true → ¬ db.RefersToApp app.id
  | .deleteRole a k => ∀ app ∈ db.sysApps, c.same app.appCode a = true →
      ∀ role ∈ db.sysRoles, role.appId = app.id → c.same role.roleKey k = true →
        ¬ db.RefersToRole role.id
  | .deletePermission a k => ∀ app ∈ db.sysApps, c.same app.appCode a = true →
      ∀ perm ∈ db.sysPermissions, perm.appId = app.id → c.same perm.permKey k = true →
        ¬ db.RefersToPermission perm.id
  | _ => True

instance (db : Db c) (op : DaoOp) : Decidable (op.DeletesUnreferenced db) := by
  induction op using DaoOp.casesOn <;> dsimp only [DaoOp.DeletesUnreferenced] <;> infer_instance

/-! ## One operation -/

namespace Db
variable {db db' : Db c}

/-- Nothing that was referred to is gone, and what refers to something refers to what
there was. -/
theorem Referential.of_grown (db : Db c) (happ : ∀ n, db.HasApp n → db'.HasApp n)
    (hrole : ∀ n, db.HasRole n → db'.HasRole n)
    (hperm : ∀ n, db.HasPermission n → db'.HasPermission n)
    (hr : ∀ r ∈ db'.sysRoles, db.HasApp r.appId) (hp : ∀ p ∈ db'.sysPermissions, db.HasApp p.appId)
    (hrp : ∀ rp ∈ db'.sysRolePermissions, db.HasRole rp.roleId ∧ db.HasPermission rp.permId)
    (hur : ∀ ur ∈ db'.sysUserRoles, db.HasApp ur.appId ∧ db.HasRole ur.roleId) :
    db'.Referential where
  role_app r h := happ _ (hr r h)
  perm_app p h := happ _ (hp p h)
  binding_role rp h := hrole _ (hrp rp h).1
  binding_perm rp h := hperm _ (hrp rp h).2
  assignment_app ur h := happ _ (hur ur h).1
  assignment_role ur h := hrole _ (hur ur h).2

theorem Referential.binding (h : db.Referential) :
    ∀ rp ∈ db.sysRolePermissions, db.HasRole rp.roleId ∧ db.HasPermission rp.permId :=
  fun rp hrp => ⟨h.binding_role rp hrp, h.binding_perm rp hrp⟩

theorem Referential.assignment (h : db.Referential) :
    ∀ ur ∈ db.sysUserRoles, db.HasApp ur.appId ∧ db.HasRole ur.roleId :=
  fun ur hur => ⟨h.assignment_app ur hur, h.assignment_role ur hur⟩

/-- An app that nothing refers to can go. -/
theorem Referential.dropApp {a : String} (h : db.Referential)
    (ha : (DaoOp.deleteApp a).DeletesUnreferenced db) : (db.dropApp a).Referential := by
  have hkept : ∀ n, db.RefersToApp n → db.HasApp n → (db.dropApp a).HasApp n := by
    intro n hn happ
    obtain ⟨app, happ, rfl⟩ := happ
    refine ⟨app, Table.mem_delete.mpr ⟨happ, ?_⟩, rfl⟩
    by_contra hcode
    exact ha app happ (by simpa using hcode) hn
  exact {
    role_app := fun r hr => hkept _ (Or.inl ⟨r, hr, rfl⟩) (h.role_app r hr)
    perm_app := fun p hp => hkept _ (Or.inr (Or.inl ⟨p, hp, rfl⟩)) (h.perm_app p hp)
    binding_role := h.binding_role
    binding_perm := h.binding_perm
    assignment_app := fun ur hur =>
      hkept _ (Or.inr (Or.inr ⟨ur, hur, rfl⟩)) (h.assignment_app ur hur)
    assignment_role := h.assignment_role }

theorem Referential.dropRole {a k : String} {app : SysApp} (h : db.Referential)
    (happ : app ∈ db.sysApps) (hcode : c.same app.appCode a = true)
    (hk : (DaoOp.deleteRole a k).DeletesUnreferenced db) : (db.dropRole app.id k).Referential := by
  have hkept : ∀ n, db.RefersToRole n → db.HasRole n → (db.dropRole app.id k).HasRole n := by
    intro n hn hrole
    obtain ⟨role, hrole, rfl⟩ := hrole
    refine ⟨role, Table.mem_delete.mpr ⟨hrole, ?_⟩, rfl⟩
    by_contra hdropped
    have ⟨hid, hkey⟩ : role.appId = app.id ∧ c.same role.roleKey k = true := by
      simpa using hdropped
    exact hk app happ hcode role hrole hid hkey hn
  exact {
    role_app := fun r hr => h.role_app r (Table.mem_delete.mp hr).1
    perm_app := h.perm_app
    binding_role := fun rp hrp => hkept _ (Or.inl ⟨rp, hrp, rfl⟩) (h.binding_role rp hrp)
    binding_perm := h.binding_perm
    assignment_app := h.assignment_app
    assignment_role := fun ur hur => hkept _ (Or.inr ⟨ur, hur, rfl⟩) (h.assignment_role ur hur) }

theorem Referential.dropPermission {a k : String} {app : SysApp} (h : db.Referential)
    (happ : app ∈ db.sysApps) (hcode : c.same app.appCode a = true)
    (hk : (DaoOp.deletePermission a k).DeletesUnreferenced db) :
    (db.dropPermission app.id k).Referential where
  role_app := h.role_app
  perm_app p hp := h.perm_app p (Table.mem_delete.mp hp).1
  binding_role := h.binding_role
  binding_perm := by
    intro rp hrp
    obtain ⟨perm, hperm, hid⟩ := h.binding_perm rp hrp
    refine ⟨perm, Table.mem_delete.mpr ⟨hperm, ?_⟩, hid⟩
    by_contra hdropped
    have ⟨happId, hkey⟩ : perm.appId = app.id ∧ c.same perm.permKey k = true := by
      simpa using hdropped
    exact hk app happ hcode perm hperm happId hkey ⟨rp, hrp, hid.symm⟩
  assignment_app := h.assignment_app
  assignment_role := h.assignment_role

end Db

/-- **An operation that deletes nothing referred to keeps the references good.** -/
theorem DaoOp.Effect.referential {db db' : Db c} {op : DaoOp} {r : Bool} (h : Effect db op r db')
    (hdb : db.Referential) (hop : op.DeletesUnreferenced db) : db'.Referential := by
  cases h with
  | nothing => exact hdb
  | createApp secret now ht =>
      refine .of_grown db (fun n hn => ?_) (fun _ hn => hn) (fun _ hn => hn) hdb.role_app hdb.perm_app
        hdb.binding hdb.assignment
      obtain ⟨app, happ, hid⟩ := hn
      exact ⟨app, Table.mem_insert_of_mem ht happ, hid⟩
  | updateApp r now =>
      refine .of_grown db (fun n hn => ?_) (fun _ hn => hn) (fun _ hn => hn) hdb.role_app hdb.perm_app
        hdb.binding hdb.assignment
      obtain ⟨app, happ, rfl⟩ := hn
      refine ⟨_, Db.mem_setApp.mpr ⟨app, happ, rfl⟩, ?_⟩
      split <;> simp
  | deleteApp r => exact hdb.dropApp hop
  | createRole now happ hcode ht =>
      refine .of_grown db (fun _ hn => hn) (fun n hn => ?_) (fun _ hn => hn) (fun r hr => ?_)
        hdb.perm_app hdb.binding hdb.assignment
      · obtain ⟨role, hrole, hid⟩ := hn
        exact ⟨role, Table.mem_insert_of_mem ht hrole, hid⟩
      · rcases (Table.mem_insert_iff ht r).mp hr with hr | rfl
        · exact hdb.role_app r hr
        · exact ⟨_, happ, rfl⟩
  | updateRole now happ hcode =>
      refine .of_grown db (fun _ hn => hn) (fun n hn => ?_) (fun _ hn => hn) (fun r hr => ?_)
        hdb.perm_app hdb.binding hdb.assignment
      · obtain ⟨role, hrole, rfl⟩ := hn
        refine ⟨_, Db.mem_setRole.mpr ⟨role, hrole, rfl⟩, ?_⟩
        split <;> rfl
      · obtain ⟨role, hrole, -, happId, -⟩ := Db.exists_of_mem_setRole hr
        exact happId ▸ hdb.role_app role hrole
  | deleteRole r happ hcode => exact hdb.dropRole happ hcode hop
  | createPermission now happ hcode ht =>
      refine .of_grown db (fun _ hn => hn) (fun _ hn => hn) (fun n hn => ?_) hdb.role_app
        (fun p hp => ?_) hdb.binding hdb.assignment
      · obtain ⟨perm, hperm, hid⟩ := hn
        exact ⟨perm, Table.mem_insert_of_mem ht hperm, hid⟩
      · rcases (Table.mem_insert_iff ht p).mp hp with hp | rfl
        · exact hdb.perm_app p hp
        · exact ⟨_, happ, rfl⟩
  | updatePermission now happ hcode =>
      refine .of_grown db (fun _ hn => hn) (fun _ hn => hn) (fun n hn => ?_) hdb.role_app
        (fun p hp => ?_) hdb.binding hdb.assignment
      · obtain ⟨perm, hperm, rfl⟩ := hn
        refine ⟨_, Db.mem_setPermission.mpr ⟨perm, hperm, rfl⟩, ?_⟩
        split <;> rfl
      · obtain ⟨perm, hperm, -, happId, -⟩ := Db.exists_of_mem_setPermission hp
        exact happId ▸ hdb.perm_app perm hperm
  | deletePermission r happ hcode => exact hdb.dropPermission happ hcode hop
  | assignRoleToUser now happ hcode hrole hkey hid ht =>
      refine .of_grown db (fun _ hn => hn) (fun _ hn => hn) (fun _ hn => hn) hdb.role_app hdb.perm_app
        hdb.binding fun ur hur => ?_
      rcases (Table.mem_insert_iff ht ur).mp hur with hur | rfl
      · exact hdb.assignment ur hur
      · exact ⟨⟨_, happ, hid.symm⟩, ⟨_, hrole, rfl⟩⟩
  | removeRoleFromUser r =>
      exact .of_grown db (fun _ hn => hn) (fun _ hn => hn) (fun _ hn => hn) hdb.role_app hdb.perm_app
        hdb.binding fun ur hur => hdb.assignment ur (Table.mem_delete.mp hur).1
  | addPermissionToRole happ hcode hrole hkey hid hperm hkey' hid' ht =>
      refine .of_grown db (fun _ hn => hn) (fun _ hn => hn) (fun _ hn => hn) hdb.role_app hdb.perm_app
        (fun rp hrp => ?_) hdb.assignment
      rcases (Table.mem_insert_iff ht rp).mp hrp with hrp | rfl
      · exact hdb.binding rp hrp
      · exact ⟨⟨_, hrole, rfl⟩, ⟨_, hperm, rfl⟩⟩
  | removePermissionFromRole r =>
      exact .of_grown db (fun _ hn => hn) (fun _ hn => hn) (fun _ hn => hn) hdb.role_app hdb.perm_app
        (fun rp hrp => hdb.binding rp (Table.mem_delete.mp hrp).1) hdb.assignment

/-! ## What a deletion of something referred to leaves -/

namespace Db
variable {db : Db c} {a k : String} {app : SysApp}

/-- The rows that refer to a deleted app refer to nothing: its number is not issued
again. -/
theorem Referential.of_dropApp (h : (db.dropApp a).Referential) :
    (DaoOp.deleteApp a).DeletesUnreferenced db := by
  intro app happ hcode hrefers
  have hgone : ¬ (db.dropApp a).HasApp app.id := by
    intro hhas
    obtain ⟨app', happ', hid⟩ := hhas
    have ⟨hmem, hkept⟩ := Table.mem_delete.mp happ'
    rw [Table.eq_of_id hmem happ hid, hcode] at hkept
    simp at hkept
  rcases hrefers with ⟨r, hr, hid⟩ | ⟨p, hp, hid⟩ | ⟨ur, hur, hid⟩
  · exact hgone (hid ▸ h.role_app r hr)
  · exact hgone (hid ▸ h.perm_app p hp)
  · exact hgone (hid ▸ h.assignment_app ur hur)

theorem Referential.of_dropRole (happ : app ∈ db.sysApps) (hcode : c.same app.appCode a = true)
    (h : (db.dropRole app.id k).Referential) : (DaoOp.deleteRole a k).DeletesUnreferenced db := by
  intro app' happ' hcode' role hrole hid hkey hrefers
  have hgone : ¬ (db.dropRole app.id k).HasRole role.id := by
    intro hhas
    obtain ⟨role', hrole', hid'⟩ := hhas
    have ⟨hmem, hkept⟩ := Table.mem_delete.mp hrole'
    rw [Table.eq_of_id hmem hrole hid', hid, db.app_unique happ' happ hcode' hcode, hkey] at hkept
    simp at hkept
  rcases hrefers with ⟨rp, hrp, hid⟩ | ⟨ur, hur, hid⟩
  · exact hgone (hid ▸ h.binding_role rp hrp)
  · exact hgone (hid ▸ h.assignment_role ur hur)

theorem Referential.of_dropPermission (happ : app ∈ db.sysApps)
    (hcode : c.same app.appCode a = true) (h : (db.dropPermission app.id k).Referential) :
    (DaoOp.deletePermission a k).DeletesUnreferenced db := by
  intro app' happ' hcode' perm hperm hid hkey hrefers
  obtain ⟨rp, hrp, hid'⟩ := hrefers
  obtain ⟨perm', hperm', hid''⟩ := h.binding_perm rp hrp
  have ⟨hmem, hkept⟩ := Table.mem_delete.mp hperm'
  rw [Table.eq_of_id hmem hperm (hid''.trans hid'), hid, db.app_unique happ' happ hcode' hcode,
    hkey] at hkept
  simp at hkept

end Db

namespace DaoState
variable {σ : DaoState c} {x : DaoCall}

/-- When nothing fails, references are kept by no other operations. -/
theorem deletesUnreferenced_of_call (hx : ∀ o ∈ x.outcomes, o.succeeds = true)
    (h : (σ.call x).db.Referential) : x.op.DeletesUnreferenced σ.db := by
  have hcall : (σ.call x).db = (x.op.apply x.wallClock σ.db).2 := by
    have heffect := (DaoOp.run_performs x.op (σ.facing x.outcomes x.wallClock)).effect
    rcases heffect with happly | ⟨hfailed, -⟩
    · exact congrArg Prod.snd happly
    · exact absurd hx hfailed
  rw [hcall] at h
  cases hop : x.op with
  | deleteApp a =>
      rw [hop] at h
      exact h.of_dropApp
  | deleteRole a k =>
      rw [hop] at h
      intro app happ hcode
      have happly : ((DaoOp.deleteRole a k).apply x.wallClock σ.db).2 =
          σ.db.dropRole app.id k := by
        simp only [DaoOp.apply, DaoOp.plan, σ.db.head?_selectAppId happ hcode]
        rfl
      rw [happly] at h
      exact h.of_dropRole happ hcode app happ hcode
  | deletePermission a k =>
      rw [hop] at h
      intro app happ hcode
      have happly : ((DaoOp.deletePermission a k).apply x.wallClock σ.db).2 =
          σ.db.dropPermission app.id k := by
        simp only [DaoOp.apply, DaoOp.plan, σ.db.head?_selectAppId happ hcode]
        rfl
      rw [happly] at h
      exact h.of_dropPermission happ hcode app happ hcode
  | _ => trivial

end DaoState

/-! ## Every run -/

theorem Db.referential_initial (installed : ℤ) : (Db.initial installed : Db c).Referential := by
  refine Db.initial_induction ?_ (fun db op r db' hcreates hdb h => h.referential hdb ?_)
    (fun db t hdb => { hdb with }) installed
  · constructor <;> simp [Db.empty]
  · cases op with
    | deleteApp | deleteRole | deletePermission => simp [DaoOp.creates] at hcreates
    | _ => trivial

/-- **References are good after every run that deletes nothing referred to**, whatever the
environment does; and when nothing fails, after no other. -/
theorem references_kept {installed : ℤ} {σ : DaoState c} (hσ : σ.db = Db.initial installed)
    (l : List DaoCall) :
    (Meets DaoState.call (fun τ x => x.op.DeletesUnreferenced τ.db) σ l →
      (run DaoState.call σ l).db.Referential) ∧
    ((∀ x ∈ l, ∀ o ∈ x.outcomes, o.succeeds = true) →
      (∀ m, m <+: l → (run DaoState.call σ m).db.Referential) →
        Meets DaoState.call (fun τ x => x.op.DeletesUnreferenced τ.db) σ l) := by
  constructor
  · intro hl
    refine run_invariant (P := fun τ : DaoState c => τ.db.Referential)
      (fun τ x hτ hx => (τ.call_effect x).referential hτ hx) ?_ hl
    rw [hσ]
    exact Db.referential_initial installed
  · clear hσ
    induction l generalizing σ with
    | nil => simp
    | cons x l ih =>
        intro hl hprefix
        refine ⟨DaoState.deletesUnreferenced_of_call (hl x (by simp)) ?_,
          ih (fun y hy => hl y (by simp [hy])) fun m hm => ?_⟩
        · exact hprefix [x] (by simp)
        · exact hprefix (x :: m) (by simpa using hm)

/-- An app is created and deleted again. -/
theorem references_kept_bare_app :
    (run DaoState.call (DaoState.start 0 : DaoState .binary)
      [⟨.createApp "小程序" "mini" "", [], 0⟩, ⟨.deleteApp "mini", [], 0⟩]).db.Referential := by
  have hl : Meets DaoState.call (fun (τ : DaoState .binary) x => x.op.DeletesUnreferenced τ.db)
      (DaoState.start 0) [⟨.createApp "小程序" "mini" "", [], 0⟩, ⟨.deleteApp "mini", [], 0⟩] := by
    rw [DaoState.start_eq_seeded]
    decide +kernel
  exact (references_kept (DaoState.db_start 0) _).1 hl

/-- The app `qq_bot` is deleted, and its roles stay. -/
theorem deleted_app_is_referred_to :
    ¬ (run DaoState.call (DaoState.start 0 : DaoState .binary)
      [⟨.deleteApp "qq_bot", [], 0⟩]).db.Referential := by
  intro h
  have hrole := h.role_app
  revert hrole
  unfold Db.HasApp
  rw [DaoState.start_eq_seeded]
  decide +kernel

end SiqiAuth
