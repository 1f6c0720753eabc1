import SiqiAuth.Store.Ownership
import SiqiAuth.Store.Reading

/-!
# Deleting and creating again

A deleted permission or app leaves its bindings and assignments behind.  They never
come back to life: what is created again under the old name has a new number, and no
row left behind bears it.

## Main definitions

* `DaoState.history` — the operations of a run with what they returned.
* `CreatesPermission`, `BindsPermission`, `CreatesApp` — the successes that count.
* `Db.Denies` — a user is refused a permission, in every environment.
* `Db.NoPermission`, `Db.Unbound`, `Db.NoApp` — what keeps it so.
* `Grant.IssuedAfter` — a grant none of whose rows existed at some earlier state.
-/

namespace SiqiAuth
open Lib

variable {c : Collation}

/-! ## Histories -/

/-- The operations of a run, each with what it returned. -/
def DaoState.history (σ : DaoState c) (l : List DaoCall) : List (DaoOp × Bool) :=
  (transcript DaoState.call σ l).map fun x => (x.2.op, x.1.returns x.2)

@[simp] theorem DaoState.history_nil (σ : DaoState c) : σ.history [] = [] := rfl
@[simp] theorem DaoState.history_cons (σ : DaoState c) (x : DaoCall) (l : List DaoCall) :
    σ.history (x :: l) = (x.op, σ.returns x) :: (σ.call x).history l := rfl

variable (c) in
/-- A creation of the permission `p` of `a` has succeeded: of a key that is kept as `p`. -/
def CreatesPermission (a p : String) : DaoOp × Bool → Prop
  | (.createPermission a' _ p' _, true) => c.same a' a = true ∧ c.same (varchar 64 p') p = true
  | _ => False

variable (c) in
/-- `addPermissionToRole(a, r, p)` has succeeded, for some role `r`. -/
def BindsPermission (a p : String) : DaoOp × Bool → Prop
  | (.addPermissionToRole a' _ p', true) => c.same a' a = true ∧ c.same p' p = true
  | _ => False

variable (c) in
/-- A creation of the app `a` has succeeded: of a code that is kept as `a`. -/
def CreatesApp (a : String) : DaoOp × Bool → Prop
  | (.createApp _ a' _, true) => c.same (varchar 32 a') a = true
  | _ => False

/-! ## Refusals -/

namespace Db
variable (db : Db c)

/-- Whatever the environment does, `checkPermission` answers false and
`getUserPermissions` does not list the permission. -/
def Denies (a u p : String) : Prop :=
  ∀ σ : DaoState c, σ.db = db →
    (∀ res, ((PermissionDAO.checkPermission a u p res).run σ).1 = false) ∧
      ∀ kn ∈ ((PermissionDAO.getUserPermissions a u).run σ).1, c.same kn.1 p = false

/-- The app has no permission of that key. -/
def NoPermission (a p : String) : Prop :=
  ∀ app ∈ db.sysApps, c.same app.appCode a = true → ∀ q ∈ db.sysPermissions, q.appId = app.id →
    c.same q.permKey p = false

/-- No permission of the app of that key is bound to any role. -/
def Unbound (a p : String) : Prop :=
  ∀ app ∈ db.sysApps, c.same app.appCode a = true → ∀ q ∈ db.sysPermissions, q.appId = app.id →
    c.same q.permKey p = true → ∀ rp ∈ db.sysRolePermissions, rp.permId ≠ q.id

/-- There is no app of that code. -/
def NoApp (a : String) : Prop := ∀ app ∈ db.sysApps, c.same app.appCode a = false

variable {db} {o : Owners} {a p : String}

theorem NoPermission.unbound (h : db.NoPermission a p) : db.Unbound a p := by
  intro app happ hcode q hq hid hkey
  rw [h app happ hcode q hq hid] at hkey
  exact (Bool.false_ne_true hkey).elim

/-- In particular when nothing fails. -/
theorem Denies.checkPermission {u : String} (h : db.Denies a u p) :
    ((PermissionDAO.checkPermission a u p "").run ⟨db, "", [], 0⟩).1 = false :=
  (h ⟨db, "", [], 0⟩ rfl).1 ""

theorem denies_of_grants {u : String} (h : ∀ g ∈ db.snapshot.selectUserPermissions a u,
    c.same g.perm.permKey p = false) : db.Denies a u p := by
  rintro σ rfl
  constructor
  · intro res
    by_contra htrue
    obtain ⟨g, hg⟩ := PermissionDAO.checkPermission_sound (Bool.eq_true_of_not_eq_false htrue)
    obtain ⟨hg, hcode, huser, hkey, -⟩ := (Snapshot.mem_selectCheckPermission _).mp hg
    rw [h g ((Snapshot.mem_selectUserPermissions _).mpr ⟨hg, hcode, huser⟩)] at hkey
    exact Bool.false_ne_true hkey
  · intro kn hkn
    obtain ⟨g, hg, rfl⟩ := PermissionDAO.getUserPermissions_sound hkn
    exact h g hg

theorem Unbound.denies (ho : o.Consistent db) (h : db.Unbound a p) (u : String) :
    db.Denies a u p := by
  refine denies_of_grants fun g hg => ?_
  obtain ⟨hg, hcode, -⟩ := (Snapshot.mem_selectUserPermissions _).mp hg
  obtain ⟨hur, happ, hrp, hp, hid, hrole, hperm⟩ := (Snapshot.mem_grants _).mp hg
  by_contra hkey
  have happId : g.perm.appId = g.app.id := (chain_one_app ho hur hrp hp hrole hperm).trans hid
  exact h g.app happ hcode g.perm hp happId (Bool.eq_true_of_not_eq_false hkey) g.rp hrp hperm

theorem NoApp.denies (h : db.NoApp a) (u p : String) : db.Denies a u p := by
  refine denies_of_grants fun g hg => ?_
  obtain ⟨hg, hcode, -⟩ := (Snapshot.mem_selectUserPermissions _).mp hg
  obtain ⟨-, happ, -⟩ := (Snapshot.mem_grants _).mp hg
  rw [h g.app happ] at hcode
  exact (Bool.false_ne_true hcode).elim

end Db

/-! ## One operation -/

namespace DaoOp.Effect
variable {db db' : Db c} {op : DaoOp} {r : Bool} {o : Owners} {a p : String}

/-- A deleted app leaves everything else in place. -/
theorem deleteApp_keeps (h : Effect db (.deleteApp a) r db') :
    db'.sysRoles = db.sysRoles ∧ db'.sysPermissions = db.sysPermissions ∧
      db'.sysRolePermissions = db.sysRolePermissions ∧ db'.sysUserRoles = db.sysUserRoles := by
  cases h with
  | nothing => exact ⟨rfl, rfl, rfl, rfl⟩
  | deleteApp => exact ⟨rfl, rfl, rfl, rfl⟩

theorem createApp_keeps {n a d : String} (h : Effect db (.createApp n a d) r db') :
    db'.sysRoles = db.sysRoles ∧ db'.sysPermissions = db.sysPermissions ∧
      db'.sysRolePermissions = db.sysRolePermissions ∧ db'.sysUserRoles = db.sysUserRoles := by
  cases h with
  | nothing => exact ⟨rfl, rfl, rfl, rfl⟩
  | createApp => exact ⟨rfl, rfl, rfl, rfl⟩

theorem noApp_of_deleteApp (h : Effect db (.deleteApp a) true db') : db'.NoApp a := by
  cases h with
  | nothing hr => exact (Bool.false_ne_true (hr rfl)).elim
  | deleteApp => exact fun app happ => (Table.mem_delete.mp happ).2

theorem noPermission_of_deletePermission (h : Effect db (.deletePermission a p) true db') :
    db'.NoPermission a p := by
  cases h with
  | nothing hr => exact (Bool.false_ne_true (hr rfl)).elim
  | @deletePermission _ _ app _ happ hcode =>
      intro app' happ' hcode' q hq hid
      obtain rfl : app' = app := db.app_unique happ' happ hcode' hcode
      have hkeep := (Table.mem_delete.mp hq).2
      rw [hid, beq_self_eq_true, Bool.true_and] at hkeep
      exact hkeep

theorem noApp (h : Effect db op r db') (hno : ¬ CreatesApp c a (op, r)) (hn : db.NoApp a) :
    db'.NoApp a := by
  intro app' happ'
  cases h with
  | createApp secret now ht =>
      rcases (Table.mem_insert_iff ht app').mp happ' with happ | rfl
      · exact hn app' happ
      · exact Bool.eq_false_iff.mpr hno
  | updateApp r now =>
      obtain ⟨app, happ, -, hcode⟩ := Db.exists_of_mem_setApp happ'
      rw [← hcode]
      exact hn app happ
  | deleteApp r => exact hn app' (Table.mem_delete.mp happ').1
  | _ => exact hn app' happ'

/-- No permission belongs to an app that is yet to be created. -/
theorem perm_app_ne_next (ho : o.Consistent db) {q : SysPermission} (hq : q ∈ db.sysPermissions) :
    q.appId ≠ db.sysApps.next := by
  have hlt := ho.perm_lt _ (Table.id_lt_next hq)
  have howner : o.perm q.id = q.appId := ho.perm_appId q hq
  change o.perm q.id < _ at hlt
  omega

/-- Two codes of one app's number are the same. -/
theorem same_of_appId {app app' : SysApp} {a' : String} (happ : app ∈ db.sysApps)
    (happ' : app' ∈ db.sysApps) (hid : app'.id = app.id) (hcode : c.same app.appCode a' = true)
    (hcode' : c.same app'.appCode a = true) : c.same a' a = true := by
  obtain rfl : app' = app := Table.eq_of_id happ' happ hid
  exact c.same_trans _ _ _ (c.same_comm hcode) hcode'

theorem noPermission (h : Effect db op r db') (ho : o.Consistent db)
    (hno : ¬ CreatesPermission c a p (op, r)) (hn : db.NoPermission a p) :
    db'.NoPermission a p := by
  intro app' happ' hcode' q hq hid
  cases h with
  | createApp secret now ht =>
      rcases (Table.mem_insert_iff ht app').mp happ' with happ | rfl
      · exact hn app' happ hcode' q hq hid
      · exact (perm_app_ne_next ho hq hid).elim
  | updateApp r now =>
      obtain ⟨app, happ, hid', hcode⟩ := Db.exists_of_mem_setApp happ'
      exact hn app happ (hcode ▸ hcode') q hq (hid.trans hid'.symm)
  | deleteApp r => exact hn app' (Table.mem_delete.mp happ').1 hcode' q hq hid
  | createPermission now happ hcode ht =>
      rcases (Table.mem_insert_iff ht q).mp hq with hq | rfl
      · exact hn app' happ' hcode' q hq hid
      · by_contra hkey
        exact hno ⟨same_of_appId happ happ' hid.symm hcode hcode', Bool.eq_true_of_not_eq_false hkey⟩
  | updatePermission now happ hcode =>
      obtain ⟨q', hq', -, hid', hkey⟩ := Db.exists_of_mem_setPermission hq
      rw [← hkey]
      exact hn app' happ' hcode' q' hq' (hid'.trans hid)
  | deletePermission r happ hcode => exact hn app' happ' hcode' q (Table.mem_delete.mp hq).1 hid
  | _ => exact hn app' happ' hcode' q hq hid

/-- A permission that is created again is bound to nothing. -/
theorem unbound_of_createPermission (h : Effect db op r db') (ho : o.Consistent db)
    (hcr : CreatesPermission c a p (op, r)) (hn : db.NoPermission a p) : db'.Unbound a p := by
  intro app' happ' hcode' q hq hid hkey rp hrp
  cases h with
  | createPermission now happ hcode ht =>
      rcases (Table.mem_insert_iff ht q).mp hq with hq | rfl
      · rw [hn app' happ' hcode' q hq hid] at hkey
        exact (Bool.false_ne_true hkey).elim
      · exact Nat.ne_of_lt (ho.binding_lt rp hrp).2
  | nothing hr =>
      cases op with
      | createPermission =>
          cases r with
          | true => exact (Bool.false_ne_true (hr rfl)).elim
          | false => exact hcr.elim
      | _ => exact hcr.elim
  | _ => exact hcr.elim

theorem unbound (h : Effect db op r db') (ho : o.Consistent db)
    (hno : ¬ BindsPermission c a p (op, r)) (hu : db.Unbound a p) : db'.Unbound a p := by
  intro app' happ' hcode' q hq hid hkey rp hrp
  cases h with
  | createApp secret now ht =>
      rcases (Table.mem_insert_iff ht app').mp happ' with happ | rfl
      · exact hu app' happ hcode' q hq hid hkey rp hrp
      · exact (perm_app_ne_next ho hq hid).elim
  | updateApp r now =>
      obtain ⟨app, happ, hid', hcode⟩ := Db.exists_of_mem_setApp happ'
      exact hu app happ (hcode ▸ hcode') q hq (hid.trans hid'.symm) hkey rp hrp
  | deleteApp r => exact hu app' (Table.mem_delete.mp happ').1 hcode' q hq hid hkey rp hrp
  | createPermission now happ hcode ht =>
      rcases (Table.mem_insert_iff ht q).mp hq with hq | rfl
      · exact hu app' happ' hcode' q hq hid hkey rp hrp
      · exact Nat.ne_of_lt (ho.binding_lt rp hrp).2
  | updatePermission now happ hcode =>
      obtain ⟨q', hq', hqid, hid', hkey'⟩ := Db.exists_of_mem_setPermission hq
      rw [← hqid]
      exact hu app' happ' hcode' q' hq' (hid'.trans hid) (hkey' ▸ hkey) rp hrp
  | deletePermission r happ hcode =>
      exact hu app' happ' hcode' q (Table.mem_delete.mp hq).1 hid hkey rp hrp
  | addPermissionToRole happ hcode hrole hrkey hrid hperm hpkey hpid ht =>
      rcases (Table.mem_insert_iff ht rp).mp hrp with hrp | rfl
      · exact hu app' happ' hcode' q hq hid hkey rp hrp
      · intro heq
        obtain rfl := Table.eq_of_id hperm hq heq
        exact hno ⟨same_of_appId happ happ' (hid.symm.trans hpid) hcode hcode',
          c.same_trans _ _ _ (c.same_comm hpkey) hkey⟩
  | removePermissionFromRole r =>
      exact hu app' happ' hcode' q hq hid hkey rp (Table.mem_delete.mp hrp).1
  | _ => exact hu app' happ' hcode' q hq hid hkey rp hrp

end DaoOp.Effect

/-! ## Runs -/

section Runs
variable {o : Owners} {σ : DaoState c} {a p : String}

theorem unbound_of_run (ho : o.Consistent σ.db) (hu : σ.db.Unbound a p) (l : List DaoCall)
    (hno : ∀ e ∈ σ.history l, ¬ BindsPermission c a p e) :
    (run DaoState.call σ l).db.Unbound a p := by
  induction l generalizing σ o with
  | nil => exact hu
  | cons x l ih =>
      obtain ⟨o', ho', -⟩ := (σ.call_effect x).consistent ho
      have hhead := hno _ (by rw [DaoState.history_cons]; exact List.mem_cons_self)
      refine ih ho' ((σ.call_effect x).unbound ho hhead hu) fun e he => hno e ?_
      rw [DaoState.history_cons]
      exact List.mem_cons_of_mem _ he

/-- Until the permission has been created again and after that bound, it is bound to
nothing. -/
theorem unbound_of_deleted (ho : o.Consistent σ.db) (hn : σ.db.NoPermission a p)
    (l : List DaoCall) (hno : (σ.history l).Pairwise fun e e' =>
      ¬ (CreatesPermission c a p e ∧ BindsPermission c a p e')) :
    (run DaoState.call σ l).db.Unbound a p := by
  induction l generalizing σ o with
  | nil => exact hn.unbound
  | cons x l ih =>
      obtain ⟨o', ho', -⟩ := (σ.call_effect x).consistent ho
      rw [DaoState.history_cons, List.pairwise_cons] at hno
      by_cases hcr : CreatesPermission c a p (x.op, σ.returns x)
      · -- From here on only a binding could help.
        refine unbound_of_run ho' ((σ.call_effect x).unbound_of_createPermission ho hcr hn) l ?_
        exact fun e he hb => hno.1 e he ⟨hcr, hb⟩
      · exact ih ho' ((σ.call_effect x).noPermission ho hcr hn) hno.2

theorem noApp_of_run (hn : σ.db.NoApp a) (l : List DaoCall)
    (hno : ∀ e ∈ σ.history l, ¬ CreatesApp c a e) : (run DaoState.call σ l).db.NoApp a := by
  induction l generalizing σ with
  | nil => exact hn
  | cons x l ih =>
      have hhead := hno _ (by rw [DaoState.history_cons]; exact List.mem_cons_self)
      refine ih ((σ.call_effect x).noApp hhead hn) fun e he => hno e ?_
      rw [DaoState.history_cons]
      exact List.mem_cons_of_mem _ he

end Runs

/-! ## What a new app grants -/

/-- The role, the permission, the binding and the assignment of a grant were numbered
after the state `db`. -/
structure Grant.IssuedAfter (db : Db c) (g : Grant) : Prop where
  role : db.sysRoles.next ≤ g.ur.roleId
  permission : db.sysPermissions.next ≤ g.perm.id
  binding : db.sysRolePermissions.next ≤ g.rp.id
  assignment : db.sysUserRoles.next ≤ g.ur.id

/-- Whatever a new app comes to grant rests on rows newer than itself. -/
theorem issuedAfter_of_noApp {db db' : Db c} {o o' : Owners} {a : String} {g : Grant}
    (ho : o.Consistent db) (ho' : o'.Consistent db') (hext : o'.Extends o db)
    (hlater : Db.Later db db') (hno : db.NoApp a) (hg : g ∈ db'.snapshot.grants)
    (hcode : c.same g.app.appCode a = true) : g.IssuedAfter db := by
  obtain ⟨hur, happ, hrp, hp, hid, hrole, hperm⟩ := (Snapshot.mem_grants _).mp hg
  have happId : db.sysApps.next ≤ g.app.id := by
    by_contra hlt
    obtain ⟨app, happ', -, hcode'⟩ := hlater.old_app g.app happ (Nat.lt_of_not_le hlt)
    rw [← hcode', hno app happ'] at hcode
    exact Bool.false_ne_true hcode
  have hroleId : db.sysRoles.next ≤ g.ur.roleId := by
    by_contra hlt
    have hlt := Nat.lt_of_not_le hlt
    have howner := ho.role_lt _ hlt
    rw [← hext.role _ hlt, ho'.assignment _ hur, hid] at howner
    omega
  have hpermId : db.sysPermissions.next ≤ g.perm.id := by
    by_contra hlt
    have hlt := Nat.lt_of_not_le hlt
    have howner := ho.perm_lt _ hlt
    rw [← hext.perm _ hlt, ho'.perm_appId _ hp, Db.chain_one_app ho' hur hrp hp hrole hperm, hid]
      at howner
    omega
  refine ⟨hroleId, hpermId, ?_, ?_⟩
  · by_contra hlt
    have hold := hlater.old_rolePermission g.rp hrp (Nat.lt_of_not_le hlt)
    have := (ho.binding_lt _ hold).1
    omega
  · by_contra hlt
    have hold := hlater.old_userRole g.ur hur (Nat.lt_of_not_le hlt)
    have := ho.assignment_lt _ hold
    omega

theorem DaoOp.Effect.noApp_before_createApp {db db' : Db c} {n a a' d : String}
    (h : Effect db (.createApp n a' d) true db') (hstored : c.same (varchar 32 a') a = true) :
    db.NoApp a := by
  cases h with
  | nothing hr => exact (Bool.false_ne_true (hr rfl)).elim
  | createApp secret now ht =>
      intro app happ
      rw [← c.same_congr_right hstored]
      exact (Table.insert_eq_some ht).2.2 app happ

/-- **Deleting and creating again never resurrects old rights.**  Let an operation `x`
succeed after any run, and any run `later` follow.

A deleted permission is denied unless `later` contains a successful creation of it
that a successful binding follows.  A deleted app leaves the other tables alone, and
all is denied in it until it is created again.  And whatever an app that was created
by `x` grants, it grants through rows issued after `x`.

What is created is the key, or the code, that the column keeps. -/
theorem no_revival {installed : ℤ} {σ : DaoState c} (hσ : σ.db = Db.initial installed)
    (earlier : List DaoCall) (x : DaoCall) (hx : (run DaoState.call σ earlier).returns x = true)
    (later : List DaoCall) (a : String) :
    let σ₀ := run DaoState.call σ earlier
    let σ₁ := σ₀.call x
    let σ₂ := run DaoState.call σ₁ later
    (∀ p, x.op = .deletePermission a p →
      ((σ₁.history later).Pairwise fun e e' =>
        ¬ (CreatesPermission c a p e ∧ BindsPermission c a p e')) →
      ∀ u, σ₂.db.Denies a u p) ∧
    (x.op = .deleteApp a →
      (σ₁.db.sysRoles = σ₀.db.sysRoles ∧ σ₁.db.sysPermissions = σ₀.db.sysPermissions ∧
        σ₁.db.sysRolePermissions = σ₀.db.sysRolePermissions ∧
        σ₁.db.sysUserRoles = σ₀.db.sysUserRoles) ∧
      ((∀ e ∈ σ₁.history later, ¬ CreatesApp c a e) → ∀ u p, σ₂.db.Denies a u p)) ∧
    (∀ n a' d, x.op = .createApp n a' d → c.same (varchar 32 a') a = true →
      ∀ τ : DaoState c, τ.db = σ₂.db → ∀ u p res,
      ((PermissionDAO.checkPermission a u p res).run τ).1 = true →
        (∃ g, g ∈ σ₂.db.snapshot.selectCheckPermission a u p) ∧
          ∀ g ∈ σ₂.db.snapshot.selectCheckPermission a u p, g.IssuedAfter σ₁.db) := by
  intro σ₀ σ₁ σ₂
  obtain ⟨o, ho⟩ := Db.exists_owners hσ earlier
  have heffect : DaoOp.Effect σ₀.db x.op true σ₁.db := by
    rw [← hx]
    exact σ₀.call_effect x
  obtain ⟨o₁, ho₁, hext₁⟩ := heffect.consistent ho
  obtain ⟨o₂, ho₂, hext₂, hlater⟩ := Db.owners_of_run ho₁ later
  refine ⟨?_, ?_, ?_⟩
  · intro p hop hno u
    rw [hop] at heffect
    exact (unbound_of_deleted ho₁ heffect.noPermission_of_deletePermission later hno).denies ho₂ u
  · intro hop
    rw [hop] at heffect
    exact ⟨heffect.deleteApp_keeps,
      fun hno u p => (noApp_of_run heffect.noApp_of_deleteApp later hno).denies u p⟩
  · rintro n a' d hop hstored τ hτ u p res htrue
    rw [← hτ]
    refine ⟨PermissionDAO.checkPermission_sound htrue, fun g hg => ?_⟩
    rw [hτ] at hg
    obtain ⟨hg, hcode, -⟩ := (Snapshot.mem_selectCheckPermission _).mp hg
    rw [hop] at heffect
    have hlater₀ : Db.Later σ₀.db σ₂.db := heffect.later.trans hlater
    have hext₀ : o₂.Extends o σ₀.db :=
      ⟨fun m hm => (hext₂.role m (lt_of_lt_of_le hm heffect.later.roles_next)).trans (hext₁.role m hm),
        fun m hm => (hext₂.perm m (lt_of_lt_of_le hm heffect.later.perms_next)).trans
          (hext₁.perm m hm)⟩
    have hissued := issuedAfter_of_noApp ho ho₂ hext₀ hlater₀
      (heffect.noApp_before_createApp hstored) hg hcode
    -- `createApp` leaves these four tables alone: issued before it is issued before `σ₁`.
    obtain ⟨hroles, hperms, hrps, hurs⟩ := heffect.createApp_keeps
    exact ⟨by rw [hroles]; exact hissued.role, by rw [hperms]; exact hissued.permission,
      by rw [hrps]; exact hissued.binding, by rw [hurs]; exact hissued.assignment⟩

/-- `member:kick` of `qq_bot` is deleted and created again, but bound to nothing. -/
theorem no_revival_of_recreated_permission :
    (run DaoState.call
      ((DaoState.start 0 : DaoState .binary).call
        ⟨.deletePermission "qq_bot" "member:kick", [], 0⟩)
      [⟨.createPermission "qq_bot" "踢出成员" "member:kick" "", [], 1⟩]).db.Denies
        "qq_bot" "100001" "member:kick" :=
  (no_revival (DaoState.db_start 0) [] ⟨.deletePermission "qq_bot" "member:kick", [], 0⟩
    (by rw [DaoState.start_eq_seeded]; decide +kernel)
    [⟨.createPermission "qq_bot" "踢出成员" "member:kick" "", [], 1⟩] "qq_bot").1
      _ rfl (List.pairwise_singleton _ _) _

/-- A key of 64 characters is created, deleted, and created again with a space after it, which
its column cuts off.  The key is bound once more, and granted without a creation under its
name. -/
theorem revival_of_padded_key :
    let key := String.ofList (List.replicate 64 'k')
    let σ : DaoState .binary :=
      (DaoState.start 0).call ⟨.createPermission "qq_bot" "K" key "", [], 0⟩
    let deletion : DaoCall := ⟨.deletePermission "qq_bot" key, [], 1⟩
    let later : List DaoCall := [⟨.createPermission "qq_bot" "K" (key ++ " ") "", [], 2⟩,
      ⟨.addPermissionToRole "qq_bot" "admin" key, [], 3⟩]
    σ.returns deletion = true ∧
      (∀ x ∈ later, ∀ n d, x.op ≠ .createPermission "qq_bot" n key d) ∧
      ¬ (run DaoState.call (σ.call deletion) later).db.Denies "qq_bot" "100001" key := by
  intro key σ deletion later
  have hdeleted : σ.returns deletion = true := by
    simp only [σ, deletion, DaoState.start_eq_seeded]
    decide +kernel
  have hallowed : ((PermissionDAO.checkPermission "qq_bot" "100001" key "").run
      ⟨(run DaoState.call (σ.call deletion) later).db, "", [], 0⟩).1 = true := by
    simp only [σ, deletion, DaoState.start_eq_seeded]
    decide +kernel
  refine ⟨hdeleted, ?_, fun hdenies => ?_⟩
  · simp [later, key]
  · exact Bool.false_ne_true (hdenies.checkPermission.symm.trans hallowed)

end SiqiAuth
