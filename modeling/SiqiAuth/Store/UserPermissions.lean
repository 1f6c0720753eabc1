import SiqiAuth.Store.Ownership
import SiqiAuth.Store.Reading

/-!
# The permission keys of a user

The set of keys that `getUserPermissions` selects for a user of an app, and when the
function returns exactly that: its connection is lent and its statement raises
nothing.  Whatever happens it returns no other keys.

## Main definitions

* `Db.Reaches` — a user has a permission in an app, be the app enabled or not.
* `Db.permKeys` — the keys of the permissions a user reaches.
* `readsThrough` — the outcomes under which a read of one statement succeeds.
* `getUserPermissions_keys` — such a read returns them.
-/

namespace SiqiAuth
open Lib

variable {c : Collation}

namespace Db
variable {db : Db c} {app : SysApp} {a u k p : String} {perm : SysPermission}

/-- The user reaches the permission through an assignment in the app and a binding of
the role assigned. -/
def Reaches (db : Db c) (app : SysApp) (userId : String) (perm : SysPermission) : Prop :=
  perm ∈ db.sysPermissions ∧ ∃ ur ∈ db.sysUserRoles, ur.appId = app.id ∧
    c.same ur.appUserId userId = true ∧
      ∃ rp ∈ db.sysRolePermissions, rp.roleId = ur.roleId ∧ rp.permId = perm.id

/-- The permission keys of a user of an app. -/
def permKeys (db : Db c) (appCode userId : String) : Finset String :=
  ((db.snapshot.selectUserPermissions appCode userId).map fun g => g.perm.permKey).toFinset

theorem mem_permKeys : k ∈ db.permKeys a u ↔ ∃ app ∈ db.sysApps, c.same app.appCode a = true ∧
    ∃ perm, db.Reaches app u perm ∧ perm.permKey = k := by
  simp only [permKeys, List.mem_toFinset, List.mem_map]
  constructor
  · rintro ⟨g, hg, rfl⟩
    obtain ⟨hg, hcode, huser⟩ := (Snapshot.mem_selectUserPermissions _).mp hg
    obtain ⟨hur, happ, hrp, hp, hid, hrole, hperm⟩ := (Snapshot.mem_grants _).mp hg
    exact ⟨g.app, happ, hcode, g.perm, ⟨hp, g.ur, hur, hid, huser, g.rp, hrp, hrole.symm, hperm⟩, rfl⟩
  · rintro ⟨app, happ, hcode, perm, ⟨hp, ur, hur, hid, huser, rp, hrp, hrole, hperm⟩, rfl⟩
    refine ⟨⟨ur, app, rp, perm⟩, (Snapshot.mem_selectUserPermissions _).mpr ⟨?_, hcode, huser⟩, rfl⟩
    exact (Snapshot.mem_grants _).mpr ⟨hur, happ, hrp, hp, hid, hrole.symm, hperm⟩

/-- What `checkPermission` counts, in the same terms: it asks for the app's status, and
leaves the comparison of keys to the column. -/
theorem exists_selectCheckPermission_iff :
    (∃ g, g ∈ db.snapshot.selectCheckPermission a u p) ↔ ∃ app ∈ db.sysApps,
      c.same app.appCode a = true ∧ app.status = 1 ∧
        ∃ perm, db.Reaches app u perm ∧ c.same perm.permKey p = true := by
  constructor
  · rintro ⟨g, hg⟩
    obtain ⟨hg, hcode, huser, hkey, hst⟩ := (Snapshot.mem_selectCheckPermission _).mp hg
    obtain ⟨hur, happ, hrp, hp, hid, hrole, hperm⟩ := (Snapshot.mem_grants _).mp hg
    exact ⟨g.app, happ, hcode, hst, g.perm,
      ⟨hp, g.ur, hur, hid, huser, g.rp, hrp, hrole.symm, hperm⟩, hkey⟩
  · rintro ⟨app, happ, hcode, hst, perm, ⟨hp, ur, hur, hid, huser, rp, hrp, hrole, hperm⟩, hkey⟩
    refine ⟨⟨ur, app, rp, perm⟩,
      (Snapshot.mem_selectCheckPermission _).mpr ⟨?_, hcode, huser, hkey, hst⟩⟩
    exact (Snapshot.mem_grants _).mpr ⟨hur, happ, hrp, hp, hid, hrole.symm, hperm⟩

/-- In tables that agree with a record of owners, what a user reaches in an app belongs
to the app. -/
theorem Reaches.appId {o : Owners} (h : db.Reaches app u perm) (ho : o.Consistent db) :
    perm.appId = app.id := by
  obtain ⟨hp, ur, hur, hid, -, rp, hrp, hrole, hperm⟩ := h
  exact (chain_one_app ho hur hrp hp hrole.symm hperm).trans hid

end Db

/-- Asked for a connection, the environment lends one. -/
def Outcome.lends : Outcome → Bool
  | refused _ => false
  | _ => true

/-- Sent a reading statement, it answers with all the rows. -/
def Outcome.completes : Outcome → Bool
  | raised .. => false
  | _ => true

/-- A function that sends one statement gets its connection and all its rows. -/
def readsThrough (outcomes : List Outcome) : Bool :=
  (outcomes.headD (.answered [])).lends && (outcomes.tail.headD (.answered [])).completes

theorem Outcome.lends_of_succeeds {o : Outcome} (h : o.succeeds = true) : o.lends = true := by
  cases o with
  | refused => exact h
  | _ => rfl

theorem Outcome.completes_of_succeeds {o : Outcome} (h : o.succeeds = true) :
    o.completes = true := by
  cases o with
  | raised => exact h
  | _ => rfl

theorem succeeds_headD {outcomes : List Outcome} (h : ∀ o ∈ outcomes, o.succeeds = true) :
    (outcomes.headD (.answered [])).succeeds = true := by
  cases outcomes with
  | nil => rfl
  | cons o outcomes => exact h o List.mem_cons_self

theorem readsThrough_of_succeeds {outcomes : List Outcome}
    (h : ∀ o ∈ outcomes, o.succeeds = true) : readsThrough outcomes = true := by
  have htail : (outcomes.tail.headD (.answered [])).succeeds = true :=
    succeeds_headD fun o ho => h o (List.mem_of_mem_tail ho)
  rw [readsThrough, Outcome.lends_of_succeeds (succeeds_headD h),
    Outcome.completes_of_succeeds htail]
  rfl

/-- A connection that is lent is used at once. -/
theorem run_withConnection {α : Type} {dflt : α} {body : Dao c α} {σ : DaoState c}
    (h : (σ.outcomes.headD (.answered [])).lends = true) :
    (withConnection dflt body).run σ = body.run { σ with outcomes := σ.outcomes.tail } := by
  rw [withConnection_run]
  cases ho : σ.outcomes.headD (.answered []) with
  | refused what => rw [ho] at h; cases h
  | _ => rfl

namespace PermissionDAO

/-- **A read that gets through returns the user's permission keys.** -/
theorem getUserPermissions_keys {a u : String} {σ : DaoState c}
    (h : readsThrough σ.outcomes = true) :
    (((getUserPermissions a u).run σ).1.map Prod.fst).toFinset = σ.db.permKeys a u := by
  rw [readsThrough, Bool.and_eq_true] at h
  have hrun : ((getUserPermissions a u).run σ).1 =
      ((deliver (σ.outcomes.tail.headD (.answered [])) (.ok (arrange
        (σ.outcomes.tail.headD (.answered [])).picks (σ.db.snapshot.selectUserPermissions a u)))).1.map
        fun g => (g.perm.permKey, g.perm.permName)) := by
    rw [getUserPermissions, run_withConnection h.1]
    rfl
  have hperm := fun picks => (arrange_perm picks
    (σ.db.snapshot.selectUserPermissions a u)).map fun g => g.perm.permKey
  rw [hrun, List.map_map]
  cases ho : σ.outcomes.tail.headD (.answered []) with
  | raised picks fetched what => rw [ho] at h; cases h.2
  | _ => exact List.toFinset_eq_of_perm _ _ (hperm _)

/-- Whatever happens, a read returns only keys of the user. -/
theorem getUserPermissions_keys_subset (a u : String) (σ : DaoState c) :
    (((getUserPermissions a u).run σ).1.map Prod.fst).toFinset ⊆ σ.db.permKeys a u := by
  intro k hk
  obtain ⟨kn, hkn, rfl⟩ := List.mem_map.mp (List.mem_toFinset.mp hk)
  obtain ⟨g, hg, rfl⟩ := getUserPermissions_sound hkn
  exact List.mem_toFinset.mpr (List.mem_map.mpr ⟨g, hg, rfl⟩)

end PermissionDAO
end SiqiAuth
