import SiqiAuth.Lib.Simulation
import SiqiAuth.Store.InitRows
import SiqiAuth.Store.Refinement

/-!
# Concurrent operations, one after the other

The statements of concurrent operations are interleaved in any way, and no transaction
holds those of one operation together.  What the tables stand for is changed by the writing
statements alone, and each of these is the last one of its operation.  So the view after any
interleaving is what comes of the edits of some of the operations that have returned true,
one after the other in the order of their returning; and if no statement refers to a row
that has gone in the meantime, every operation returns what its edit would be answered with
at the moment it returns.

## Main definitions

* `Statement.Keeps` — rows keep their numbers, apps and keys.
* `Progress.Aims` — what an operation has looked up is for its keys.
* `DaoReply`, `Db.replies` — what the operations of an interleaving return.
* `View.perform`, `View.Accepts` — the edit of an operation that has returned.
* `Progress.next_refines` — the last step of an operation.
* `Db.run_serial`, `Db.run_linearizable` — every interleaving.
-/

namespace SiqiAuth
open Lib

variable {c : Collation}

/-! ## Numbers keep their meaning -/

/-- A role and a permission with a number that was issued before is one that was there
before, and a new permission is what the statement inserts. -/
structure Statement.Keeps (w : Statement) (db db' : Db c) : Prop where
  role : ∀ r' ∈ db'.sysRoles, r'.id < db.sysRoles.next →
    ∃ r ∈ db.sysRoles, r.id = r'.id ∧ r.appId = r'.appId ∧ r.roleKey = r'.roleKey
  perm : ∀ p' ∈ db'.sysPermissions, p'.id < db.sysPermissions.next →
    ∃ p ∈ db.sysPermissions, p.id = p'.id ∧ p.appId = p'.appId ∧ p.permKey = p'.permKey
  newPerm : ∀ p' ∈ db'.sysPermissions, db.sysPermissions.next ≤ p'.id →
    ∃ n k d, w = .insertPermission p'.appId n k d

namespace Statement
variable {w : Statement} {db db' : Db c} {now : DateTime} {rows : ℕ}

/-- What the rows of roles and permissions come from when they are no others than before. -/
theorem Keeps.of_subset (hroles : ∀ r ∈ db'.sysRoles, r ∈ db.sysRoles)
    (hperms : ∀ p ∈ db'.sysPermissions, p ∈ db.sysPermissions) : w.Keeps db db' where
  role := fun r hr _ => ⟨r, hroles r hr, rfl, rfl, rfl⟩
  perm := fun p hp _ => ⟨p, hperms p hp, rfl, rfl, rfl⟩
  newPerm := by
    intro p hp hle
    have hlt : p.id < db.sysPermissions.next := Table.id_lt_next (hperms p hp)
    omega

theorem keeps (h : w.write now db = .ok (rows, db')) : w.Keeps db db' := by
  have hrefl : w.Keeps db db := .of_subset (fun _ => id) fun _ => id
  cases w with
  | insertRole appId n k d df =>
      obtain ⟨t, ht, rfl⟩ := inserted_eq_ok h
      refine { hrefl with role := ?_ }
      intro r' hr' hlt
      rcases (Table.mem_insert_iff ht r').mp hr' with hr | rfl
      · exact hrefl.role r' hr hlt
      · exact absurd hlt (lt_irrefl _)
  | updateRole appId k n d df =>
      cases h
      exact { hrefl with role := fun r' hr' _ => Db.exists_of_mem_setRole hr' }
  | insertPermission appId n k d =>
      obtain ⟨t, ht, rfl⟩ := inserted_eq_ok h
      refine { hrefl with perm := ?_, newPerm := ?_ }
      · intro p' hp' hlt
        rcases (Table.mem_insert_iff ht p').mp hp' with hp | rfl
        · exact hrefl.perm p' hp hlt
        · exact absurd hlt (lt_irrefl _)
      · intro p' hp' hle
        rcases (Table.mem_insert_iff ht p').mp hp' with hp | rfl
        · exact hrefl.newPerm p' hp hle
        · exact ⟨n, k, d, rfl⟩
  | updatePermission appId k n d =>
      cases h
      refine { hrefl with perm := fun p' hp' _ => Db.exists_of_mem_setPermission hp', newPerm := ?_ }
      intro p' hp' hle
      obtain ⟨p, hp, hid, -⟩ := Db.exists_of_mem_setPermission hp'
      have hlt : p.id < db.sysPermissions.next := Table.id_lt_next hp
      omega
  | insertApp | insertUserRole | insertRolePermission | insertAuditLog =>
      obtain ⟨t, -, rfl⟩ := inserted_eq_ok h
      exact .of_subset (fun _ => id) fun _ => id
  | updateApp | deleteApp | deleteUserRole | deleteRolePermission =>
      cases h
      exact .of_subset (fun _ => id) fun _ => id
  | deleteRole =>
      cases h
      exact .of_subset (fun r hr => (Table.mem_delete.mp hr).1) fun _ => id
  | deletePermission =>
      cases h
      exact .of_subset (fun _ => id) fun p hp => (Table.mem_delete.mp hp).1

/-! ### What is kept for those who know the numbers -/

section Numbers
variable (hy : w.Yields db db') (hk : w.Keeps db db') {n m : ℕ} {a k p : String}
include hy

theorem numbers (h : db.Numbers n a) : db'.Numbers n a := by
  have happs := hy.apps_le
  have hissued := h.1
  refine ⟨by omega, fun app' happ' hid => ?_⟩
  obtain ⟨app, happ, happId, hcode⟩ := hy.app app' happ' (hid ▸ h.1)
  rw [← hcode]
  exact h.2 app happ (happId.trans hid)

include hk

theorem numbersRole (h : db.NumbersRole n m a k) : db'.NumbersRole n m a k := by
  have hroles := hy.roles_le
  have hissued := h.1
  refine ⟨by omega, numbers hy h.2.1, fun r' hr' hid => ?_⟩
  obtain ⟨r, hr, hrid, happ, hkey⟩ := hk.role r' hr' (hid ▸ h.1)
  rw [← happ, ← hkey]
  exact h.2.2 r hr (hrid.trans hid)

theorem numbersPermission (h : db.NumbersPermission n m a p) : db'.NumbersPermission n m a p := by
  have hperms := hy.perms_le
  have hissued := h.1
  refine ⟨by omega, numbers hy h.2.1, fun q' hq' hid => ?_⟩
  obtain ⟨q, hq, hqid, happ, hkey⟩ := hk.perm q' hq' (hid ▸ h.1)
  rw [← happ, ← hkey]
  exact h.2.2 q hq (hqid.trans hid)

/-- A statement that has been made up stays one for its keys. -/
theorem aims {t : ℤ} {w' : Statement} {op : DaoOp} (h : op.Aims t db w') : op.Aims t db' w' := by
  cases op with
  | createRole | updateRole | deleteRole | createPermission | updatePermission | deletePermission =>
      obtain ⟨appId, hnumbers, rfl⟩ := h
      exact ⟨appId, numbers hy hnumbers, rfl⟩
  | assignRoleToUser =>
      obtain ⟨roleId, appId, hnumbers, rfl⟩ := h
      exact ⟨roleId, appId, numbersRole hy hk hnumbers, rfl⟩
  | addPermissionToRole =>
      obtain ⟨roleId, appId, permId, appId', hnumbers, hnumbers', rfl⟩ := h
      exact ⟨roleId, appId, permId, appId', numbersRole hy hk hnumbers,
        numbersPermission hy hk hnumbers', rfl⟩
  | _ => exact h

end Numbers

/-- A statement made up for an operation founds its permission on an app that has been
there. -/
theorem founded (h : w.write now db = .ok (rows, db')) (hdb : db.Founded) (hrefers : w.Refers db)
    {t : ℤ} {op : DaoOp} (haims : op.Aims t db w) : db'.Founded := by
  have hy := yields h
  have hk := keeps h
  have happs := hy.apps_le
  refine { hy.linked hdb.toLinked hrefers with perm_lt := fun p' hp' => ?_ }
  by_cases hlt : p'.id < db.sysPermissions.next
  · obtain ⟨p, hp, -, happ, -⟩ := hk.perm p' hp' hlt
    have hfounded := hdb.perm_lt p hp
    omega
  · obtain ⟨n, k, d, rfl⟩ := hk.newPerm p' hp' (by omega)
    cases op with
    | createPermission a n' k' d' =>
        obtain ⟨appId, hnumbers, heq⟩ := haims
        have hissued := hnumbers.1
        cases heq
        omega
    | _ => simp [DaoOp.Aims] at haims

end Statement

/-! ## Operations in steps -/

namespace Progress
variable {op : DaoOp} {wallClock : ℤ} {out : Outcome} {db db' : Db c} {p : Progress}

/-- What the operation has looked up is for its keys, and it looks up what it has to. -/
def Aims (op : DaoOp) (wallClock : ℤ) (db : Db c) : Progress → Prop
  | called => True
  | getAppId | selectAppId => op.begin wallClock = .getAppId
  | selectRole => op.begin wallClock = .selectRole
  | selectPermission role => ∃ a k p, op = .addPermissionToRole a k p ∧
      db.NumbersRole role.id role.appId a k
  | send w => op.Aims wallClock db w
  | returned _ => True

theorem aims_begin : (op.begin wallClock).Aims op wallClock db := by
  cases op with
  | updateApp a n d st =>
      by_cases hidle : (n.isNone && d.isNone && st.isNone) = true
      · simp [DaoOp.begin, hidle, Aims]
      · simp [DaoOp.begin, hidle, Aims, DaoOp.Aims, DaoOp.idle]
  | _ => exact rfl

theorem aims_withAppId {app : SysApp} (happ : app ∈ db.sysApps)
    (hcode : c.same app.appCode op.appCode = true) :
    (op.withAppId app.id).Aims op wallClock db := by
  have hnumbers := DaoOp.numbers_of_mem happ hcode
  cases op with
  | createRole | updateRole | deleteRole | createPermission | updatePermission | deletePermission =>
      exact ⟨app.id, hnumbers, rfl⟩
  | _ => trivial

theorem aims_withRole {role : SysRole} (hrole : role ∈ op.roles db.snapshot) :
    (op.withRole role).Aims op wallClock db := by
  cases op with
  | assignRoleToUser a u k =>
      exact ⟨role.id, role.appId, (DaoOp.numbersRole_of_mem hrole).1, rfl⟩
  | addPermissionToRole a k p => exact ⟨a, k, p, rfl, (DaoOp.numbersRole_of_mem hrole).1⟩
  | _ => trivial

theorem aims_withPermission {role : SysRole} {perm : SysPermission}
    (haims : (selectPermission role).Aims op wallClock db)
    (hperm : perm ∈ op.permissions db.snapshot) :
    (DaoOp.withPermission role perm).Aims op wallClock db := by
  obtain ⟨a, k, p, rfl, hnumbers⟩ := haims
  exact ⟨role.id, role.appId, perm.id, perm.appId, hnumbers,
    (DaoOp.numbersPermission_of_mem hperm).1, rfl⟩

/-- A step that changes nothing is well aimed. -/
theorem aims_of_write {w : Statement} {now : DateTime} {rows : ℕ}
    (h : w.write now db = .ok (rows, db')) (hp : p.Aims op wallClock db) :
    p.Aims op wallClock db' := by
  have hy := Statement.yields h
  have hk := Statement.keeps h
  cases p with
  | selectPermission role =>
      obtain ⟨a, k, p, hop, hnumbers⟩ := hp
      exact ⟨a, k, p, hop, Statement.numbersRole hy hk hnumbers⟩
  | send w' => exact Statement.aims hy hk hp
  | _ => exact hp

/-- **A step keeps the tables founded**, and what every operation has looked up is for its
keys. -/
theorem next_founded (out : Outcome) (hdb : db.Founded) (hrefers : p.Refers op db)
    (haims : p.Aims op wallClock db) :
    (p.next op wallClock out db).2.Founded ∧
      (p.next op wallClock out db).1.Aims op wallClock (p.next op wallClock out db).2 ∧
      ∀ op' t' (p' : Progress), p'.Aims op' t' db →
        p'.Aims op' t' (p.next op wallClock out db).2 := by
  cases p with
  | called =>
      refine ⟨hdb, ?_, fun _ _ _ => id⟩
      simp only [next]
      split
      · exact aims_begin
      · trivial
  | getAppId =>
      refine ⟨hdb, ?_, fun _ _ _ => id⟩
      simp only [next]
      split
      · exact haims
      · trivial
  | selectAppId =>
      refine ⟨hdb, ?_, fun _ _ _ => id⟩
      simp only [next]
      rcases lookup_cases out (db.snapshot.selectAppId op.appCode) fun appId => op.withAppId appId
        with hstop | ⟨appId, happId, hgo⟩
      · rw [hstop]
        trivial
      · obtain ⟨app, happ, hcode, rfl⟩ := (Snapshot.mem_selectAppId _).mp happId
        rw [hgo]
        exact aims_withAppId happ hcode
  | selectRole =>
      refine ⟨hdb, ?_, fun _ _ _ => id⟩
      simp only [next]
      rcases lookup_cases out (op.roles db.snapshot) fun role => op.withRole role
        with hstop | ⟨role, hrole, hgo⟩
      · rw [hstop]
        trivial
      · rw [hgo]
        exact aims_withRole hrole
  | selectPermission role =>
      refine ⟨hdb, ?_, fun _ _ _ => id⟩
      simp only [next]
      rcases lookup_cases out (op.permissions db.snapshot) (DaoOp.withPermission role)
        with hstop | ⟨perm, hperm, hgo⟩
      · rw [hstop]
        trivial
      · rw [hgo]
        exact aims_withPermission haims hperm
  | send w =>
      by_cases hpass : out.completes = true
      · cases hexec : w.exec (dateTime wallClock) db with
        | error e =>
            simp only [next, hpass, hexec, if_true]
            exact ⟨hdb, trivial, fun _ _ _ => id⟩
        | ok x =>
            obtain ⟨rows, db'⟩ := x
            have hwrite := Statement.write_of_exec hexec
            simp only [next, hpass, hexec, if_true]
            exact ⟨Statement.founded hwrite hdb hrefers haims, trivial,
              fun _ _ _ => aims_of_write hwrite⟩
      · simp only [next, hpass]
        exact ⟨hdb, trivial, fun _ _ _ => id⟩
  | returned r => exact ⟨hdb, trivial, fun _ _ _ => id⟩

/-! ### The last step -/

/-- What the operation has returned. -/
def result : Progress → Option Bool
  | returned r => some r
  | _ => none

/-- Whether the environment lets the next step down. -/
def fails (out : Outcome) : Progress → Bool
  | called | getAppId => !out.lends
  | selectAppId | selectRole | selectPermission _ | send _ => !out.completes
  | returned _ => false

/-- What the next step refers to by number is there. -/
def Finds (db : Db c) : Progress → Prop
  | send w => w.Finds db
  | _ => True

instance (p : Progress) : Decidable (p.Finds db) := by
  induction p using Progress.casesOn <;> dsimp only [Finds] <;> infer_instance

theorem result_eq_some {p : Progress} {r : Bool} : p.result = some r ↔ p = .returned r := by
  cases p <;> simp [result]

/-- An operation that goes on has changed nothing. -/
theorem db_next (h : (p.next op wallClock out db).1.result = none) :
    (p.next op wallClock out db).2 = db := by
  cases p with
  | send w =>
      simp only [next] at h ⊢
      split at h
      · split at h <;> cases h
      · cases h
  | _ => rfl

theorem begin_eq_returned {r : Bool} (h : op.begin wallClock = .returned r) :
    r = true ∧ (op.edit wallClock : ViewEdit c) = .answer true := by
  cases op with
  | updateApp a n d st =>
      by_cases hidle : (n.isNone && d.isNone && st.isNone) = true
      · simp only [DaoOp.begin, hidle, if_true, returned.injEq] at h
        exact ⟨h.symm, if_pos hidle⟩
      · simp [DaoOp.begin, hidle] at h
  | _ => cases h

/-- A lookup ends the operation when it fails or finds nothing. -/
theorem lookup_eq_returned {α : Type} {rows : List α} {f : α → Progress} {r : Bool}
    (hf : ∀ x, (f x).result = none) (h : lookup out rows f = .returned r) :
    r = false ∧ (out.completes = true → rows = []) := by
  by_cases hpass : out.completes = true
  · cases hhead : (arrange out.picks rows).head? with
    | none =>
        simp only [lookup, hpass, hhead, if_true, returned.injEq] at h
        have hnil := (arrange_perm out.picks rows).symm
        rw [List.head?_eq_none_iff.mp hhead] at hnil
        exact ⟨h.symm, fun _ => hnil.eq_nil⟩
    | some x =>
        simp only [lookup, hpass, hhead, if_true] at h
        have hgo := hf x
        rw [h] at hgo
        cases hgo
  · simp only [lookup, hpass, Bool.false_eq_true, if_false, returned.injEq] at h
    exact ⟨h.symm, fun hpass' => absurd hpass' hpass⟩

/-- An operation that is let down returns false and has changed nothing. -/
theorem next_of_fails (h : p.fails out = true) :
    p.next op wallClock out db = (.returned false, db) := by
  cases p <;> simp_all [fails, next, lookup]

/-- A statement that refers to what has gone does nothing that can be seen. -/
theorem next_of_not_finds (hdb : db.Founded) (h : ¬ p.Finds db) :
    (p.next op wallClock out db).2.view = db.view := by
  cases p with
  | send w =>
      simp only [next]
      split
      · split
        · rename_i rows db' hexec
          exact DaoOp.view_of_not_finds hdb h (Statement.write_of_exec hexec)
        · rfl
      · rfl
  | _ => exact absurd trivial h

/-- What looks up an app goes on with its number, and has nothing to send without it. -/
theorem plan_of_getAppId (db : Db c) (h : op.begin wallClock = .getAppId) : op.idle = false ∧
    (∀ appId, (op.withAppId appId).result = none) ∧
      (db.snapshot.selectAppId op.appCode = [] → op.plan wallClock db = none) := by
  cases op with
  | createRole | updateRole | deleteRole | createPermission | updatePermission
  | deletePermission =>
      refine ⟨rfl, fun _ => rfl, fun hrows => ?_⟩
      simp only [DaoOp.appCode] at hrows
      simp [DaoOp.plan, hrows]
  | updateApp =>
      simp only [DaoOp.begin] at h
      split at h <;> cases h
  | _ => cases h

/-- What looks up a role goes on with it, and has nothing to send without it. -/
theorem plan_of_selectRole (db : Db c) (h : op.begin wallClock = .selectRole) : op.idle = false ∧
    (∀ role, (op.withRole role).result = none) ∧
      (op.roles db.snapshot = [] → op.plan wallClock db = none) := by
  cases op with
  | assignRoleToUser | addPermissionToRole =>
      refine ⟨rfl, fun _ => rfl, fun hrows => ?_⟩
      simp only [DaoOp.roles] at hrows
      simp [DaoOp.plan, hrows]
  | updateApp =>
      simp only [DaoOp.begin] at h
      split at h <;> cases h
  | _ => cases h

/-- The last step of an operation that looks up in vain is an edit that is refused. -/
theorem refused_of_plan (hop : op.idle = false) (hplan : op.plan wallClock db = none) :
    (false = true ↔ (db.view (c.value op.storedCode)).Accepts (op.edit wallClock)) ∧
      db.view = Rbac.perform db.view (c.value op.storedCode, op.edit wallClock) := by
  have hnot := DaoOp.not_accepts_of_plan hop hplan
  exact ⟨by simpa using hnot, (Rbac.perform_of_refused hnot).symm⟩

/-- **The last step of an operation does to the view what its edit does**, and the operation
returns true when that is accepted. -/
theorem next_refines (hdb : db.Founded) (hrefers : p.Refers op db) (haims : p.Aims op wallClock db)
    (hgo : p.fails out = false) (hfinds : p.Finds db) (hp : p.result = none) {r : Bool}
    (h : (p.next op wallClock out db).1 = .returned r) :
    (r = true ↔ (db.view (c.value op.storedCode)).Accepts (op.edit wallClock)) ∧
      (p.next op wallClock out db).2.view =
        Rbac.perform db.view (c.value op.storedCode, op.edit wallClock) := by
  cases p with
  | called =>
      simp only [fails, Bool.not_eq_false'] at hgo
      simp only [next, hgo, if_true] at h
      obtain ⟨rfl, hedit⟩ := begin_eq_returned (c := c) h
      rw [hedit, Rbac.perform_eq_self rfl]
      exact ⟨by simp [Rbac.Accepts], rfl⟩
  | getAppId =>
      simp only [fails, Bool.not_eq_false'] at hgo
      simp [next, hgo] at h
  | selectAppId =>
      obtain ⟨hidle, hgoes, hplan⟩ := plan_of_getAppId db haims
      obtain ⟨rfl, hrows⟩ := lookup_eq_returned hgoes h
      exact refused_of_plan hidle (hplan (hrows (by simpa [fails] using hgo)))
  | selectRole =>
      obtain ⟨hidle, hgoes, hplan⟩ := plan_of_selectRole db haims
      obtain ⟨rfl, hrows⟩ := lookup_eq_returned hgoes h
      exact refused_of_plan hidle (hplan (hrows (by simpa [fails] using hgo)))
  | selectPermission role =>
      obtain ⟨a, k, q, rfl, -⟩ := haims
      obtain ⟨rfl, hrows⟩ := lookup_eq_returned (fun _ => rfl) h
      have hnone : db.snapshot.selectPermission a q = [] := hrows (by simpa [fails] using hgo)
      exact refused_of_plan rfl (by simp [DaoOp.plan, hnone])
  | send w =>
      have hsends := DaoOp.refines hdb haims hrefers hfinds
      have hpass : out.completes = true := by simpa [fails] using hgo
      simp only [next, hpass, if_true] at h ⊢
      rw [← hsends.accepts, ← hsends.view, DaoOp.sends]
      cases hexec : w.exec (dateTime wallClock) db with
      | error e =>
          simp only [hexec, returned.injEq] at h ⊢
          simp [← h]
      | ok x =>
          simp only [hexec, returned.injEq] at h ⊢
          simp [← h]
  | returned => cases hp

end Progress

/-! ## Every interleaving -/

/-- What an operation has returned, and whether its environment has let it down. -/
structure DaoReply where
  op : DaoOp
  wallClock : ℤ
  result : Bool
  failed : Bool
  deriving DecidableEq, Repr

namespace View

/-- The edit of an operation that has returned. -/
noncomputable def perform (v : View c) (y : DaoReply) : View c :=
  Rbac.perform v (c.value y.op.storedCode, y.op.edit y.wallClock)

def Accepts (v : View c) (y : DaoReply) : Prop :=
  (v (c.value y.op.storedCode)).Accepts (y.op.edit y.wallClock)

/-- What comes of an operation that has returned: its edit, if it has returned true. -/
noncomputable def reply (v : View c) (y : DaoReply) : View c := if y.result then v.perform y else v

end View

namespace DaoThread

/-- How the environment meets the next step. -/
def outcome (t : DaoThread) : Outcome := t.call.outcomes.headD (.answered [])

/-- What the thread returns by its next step, if it does. -/
def reply (t : DaoThread) (db : Db c) : Option DaoReply :=
  match t.progress.result, (t.next db).1.progress.result with
  | none, some r => some ⟨t.call.op, t.call.wallClock, r, t.progress.fails t.outcome⟩
  | _, _ => none

/-- What the thread has looked up is still so, and for its keys. -/
structure Knows (db : Db c) (t : DaoThread) : Prop where
  refers : t.progress.Refers t.call.op db
  aims : t.progress.Aims t.call.op t.call.wallClock db

variable {db : Db c} {t : DaoThread}

theorem next_founded (hdb : db.Founded) (ht : t.Knows db) : (t.next db).2.Founded ∧
    (t.next db).1.Knows (t.next db).2 ∧ ∀ t' : DaoThread, t'.Knows db → t'.Knows (t.next db).2 := by
  obtain ⟨-, hrefers, hothers⟩ := t.next_linked hdb.toLinked ht.refers
  obtain ⟨hfounded, haims, hothers'⟩ := Progress.next_founded t.outcome hdb ht.refers ht.aims
  exact ⟨hfounded, ⟨hrefers, haims⟩, fun t' ht' => ⟨hothers t' ht'.refers, hothers' _ _ _ ht'.aims⟩⟩

/-- A thread that does not return cannot be seen. -/
theorem next_silent (h : t.reply db = none) : (t.next db).2.view = db.view := by
  cases hbefore : t.progress.result with
  | some r =>
      have hp := Progress.result_eq_some.mp hbefore
      simp [next, hp, Progress.next]
  | none =>
      cases hafter : (t.next db).1.progress.result with
      | some r => simp [reply, hbefore, hafter] at h
      | none => exact congrArg Db.view (Progress.db_next hafter)

/-- What a thread returns by its next step. -/
theorem reply_eq_some {y : DaoReply} (h : t.reply db = some y) : t.progress.result = none ∧
    (t.progress.next t.call.op t.call.wallClock t.outcome db).1 = .returned y.result ∧
      y = ⟨t.call.op, t.call.wallClock, y.result, t.progress.fails t.outcome⟩ := by
  simp only [reply] at h
  split at h
  case h_1 r hbefore hafter =>
    obtain rfl := Option.some_inj.mp h
    exact ⟨hbefore, Progress.result_eq_some.mp hafter, rfl⟩
  case h_2 => cases h

/-- **A thread that returns** has done its edit, if what its last step refers to is there;
otherwise it cannot be seen. -/
theorem next_reply (hdb : db.Founded) (ht : t.Knows db) {y : DaoReply} (h : t.reply db = some y) :
    (t.progress.Finds db → (y.result = true ↔ y.failed = false ∧ db.view.Accepts y) ∧
      (t.next db).2.view = db.view.reply y) ∧
    (¬ t.progress.Finds db → (t.next db).2.view = db.view) := by
  obtain ⟨hbefore, hafter, hy⟩ := reply_eq_some h
  refine ⟨fun hfinds => ?_, Progress.next_of_not_finds hdb⟩
  rw [hy]
  change _ ∧ (t.progress.next t.call.op t.call.wallClock t.outcome db).2.view = _
  cases hfails : t.progress.fails t.outcome with
  | true =>
      have hstop : t.progress.next t.call.op t.call.wallClock t.outcome db = (.returned false, db) :=
        Progress.next_of_fails hfails
      simp only [hstop, Progress.returned.injEq] at hafter ⊢
      simp [View.reply, ← hafter]
  | false =>
      obtain ⟨haccepts, hview⟩ :=
        Progress.next_refines hdb ht.refers ht.aims hfails hfinds hbefore hafter
      refine ⟨by simpa [View.Accepts] using haccepts, ?_⟩
      simp only [View.reply]
      split
      · exact hview
      · rename_i hfalse
        rw [hview]
        exact Rbac.perform_of_refused fun hacc => hfalse (haccepts.mpr hacc)

end DaoThread

namespace Db

/-- What a move returns, if it is the last step of an operation. -/
def reply (p : Pool (Db c) DaoThread) : DbMove → Option DaoReply
  | .dao (.advance i) => p.threads[i]?.bind fun t => t.reply p.shared
  | _ => none

/-- What the operations of an interleaving return, in the order of their returning. -/
def replies (p : Pool (Db c) DaoThread) (l : List DbMove) : List DaoReply :=
  outputs Db.move Db.reply p l

/-- What the move refers to by number is there. -/
def Finds (p : Pool (Db c) DaoThread) : DbMove → Prop
  | .dao (.advance i) => ∀ t ∈ p.threads[i]?, t.progress.Finds p.shared
  | _ => True

instance (p : Pool (Db c) DaoThread) (x : DbMove) : Decidable (Finds p x) := by
  induction x using DbMove.casesOn with
  | dao x => induction x using Move.casesOn <;> dsimp only [Finds] <;> infer_instance
  | log t => exact isTrue trivial

/-- The tables are founded, and what every operation has looked up is still so. -/
structure Serial (p : Pool (Db c) DaoThread) : Prop where
  founded : p.shared.Founded
  knows : ∀ t ∈ p.threads, t.Knows p.shared

variable {p : Pool (Db c) DaoThread} {x : DbMove}

theorem knows_log {db : Db c} {t : DaoThread} (h : t.Knows db) (log : Table sysAuditLogsSchema) :
    t.Knows { db with sysAuditLogs := log } := by
  refine ⟨(Progress.refers_log _ _ _ _).mpr h.refers, ?_⟩
  have haims := h.aims
  cases hp : t.progress with
  | send w =>
      rw [hp] at haims
      cases hop : t.call.op <;> rw [hop] at haims <;> exact haims
  | _ =>
      rw [hp] at haims
      exact haims

/-- **A move keeps the tables founded**, and what the operations have looked up so. -/
theorem serial_move (h : Serial p) (x : DbMove) : Serial (Db.move p x) := by
  cases x with
  | dao x =>
      have hmeets : Meets Db.step (fun _ _ => True) p [x] := ⟨trivial, trivial⟩
      obtain ⟨-, hfounded, hknows⟩ := Pool.run_ghost (J := fun (_ : Unit) (db : Db c) => db.Founded)
        (T := fun _ db t => t.Knows db) (fun _ _ _ _ => ⟨trivial, trivial⟩)
        (fun p _ t _ _ _ hfounded ht => ⟨(), DaoThread.next_founded hfounded ht⟩)
        ⟨(), h.founded, h.knows⟩ hmeets
      exact ⟨hfounded, hknows⟩
  | log t => exact ⟨{ h.founded with }, fun u hu => knows_log (h.knows u hu) t⟩

theorem view_log (db : Db c) (t : Table sysAuditLogsSchema) :
    ({ db with sysAuditLogs := t } : Db c).view = db.view := rfl

/-- What a move that returns something does. -/
theorem move_reply (h : Serial p) {y : DaoReply} (hy : Db.reply p x = some y) :
    (Finds p x → (y.result = true ↔ y.failed = false ∧ p.shared.view.Accepts y) ∧
      (Db.move p x).shared.view = p.shared.view.reply y) ∧
    (¬ Finds p x → (Db.move p x).shared.view = p.shared.view) := by
  cases x with
  | log t => cases hy
  | dao x =>
      cases x with
      | start q => cases hy
      | advance i =>
          obtain ⟨t, hi, hy⟩ := Option.bind_eq_some_iff.mp hy
          have hnext := DaoThread.next_reply h.founded (h.knows t (List.mem_of_getElem? hi)) hy
          have hmove : (Db.move p (.dao (.advance i))).shared = (t.next p.shared).2 := by
            simp only [Db.move, Db.step, Pool.step_advance hi]
          simpa [Finds, hi, hmove] using hnext

/-- What a move that returns nothing does. -/
theorem move_silent (hy : Db.reply p x = none) : (Db.move p x).shared.view = p.shared.view := by
  cases x with
  | log t => rfl
  | dao x =>
      cases x with
      | start q => rfl
      | advance i =>
          cases hi : p.threads[i]? with
          | none => simp only [Db.move, Db.step, Pool.step, hi]
          | some t =>
              simp only [Db.reply, hi, Option.bind_some] at hy
              simp only [Db.move, Db.step, Pool.step_advance hi]
              exact DaoThread.next_silent hy

theorem serial_run (h : Serial p) (l : List DbMove) : Serial (run Db.move p l) :=
  run_induction (P := Serial) (fun _ x hp => serial_move hp x) l h

theorem founded_initial {installed : ℤ} {db : Db c} (hdb : db = Db.initial installed) :
    db.Founded := by
  obtain ⟨o, ho⟩ := Db.exists_owners (σ := ⟨db, "", [], 0⟩) hdb []
  refine { ho.linked with perm_lt := fun p hp => ?_ }
  rw [← ho.perm_appId p hp]
  exact ho.perm_lt p.id (Table.id_lt_next hp)

/-- Tables that no operation is at work on. -/
theorem Founded.serial {db : Db c} (h : db.Founded) : Serial (⟨db, []⟩ : Pool (Db c) DaoThread) :=
  ⟨h, fun t ht => by cases ht⟩

theorem Reachable.founded {db : Db c} (h : db.Reachable) : db.Founded := by
  obtain ⟨installed, start, hstart, l, rfl⟩ := h
  exact (serial_run (founded_initial hstart).serial l).founded

theorem reachable_initial (installed : ℤ) : (Db.initial installed : Db c).Reachable := .initial rfl

/-- **Every interleaving, as seen through the view**: from tables that have been reached, what
the tables stand for after any interleaving of the statements of the operations, whatever fails,
is what comes of accepted edits of operations that have returned true, one after the other in
the order in which they have returned. -/
theorem run_serial {db : Db c} (hdb : db.Reachable) (l : List DbMove) :
    ∃ ys, ys.Sublist (replies ⟨db, []⟩ l) ∧
      Meets View.perform (fun v y => y.result = true ∧ v.Accepts y) db.view ys ∧
        (run Db.move ⟨db, []⟩ l).shared.view = run View.perform db.view ys := by
  refine run_simulates_some (f := fun p : Pool (Db c) DaoThread => p.shared.view) (I := Serial)
    (C := fun _ _ => True) (fun p x hp _ => serial_move hp x) (fun p x hp _ => ?_)
    hdb.founded.serial (meets_of_forall _ (fun _ _ => trivial) _ _)
  cases hy : Db.reply p x with
  | none => exact Or.inl (move_silent hy)
  | some y =>
      obtain ⟨hfound, hlost⟩ := move_reply hp hy
      by_cases hfinds : Finds p x
      · obtain ⟨haccepts, hview⟩ := hfound hfinds
        cases hr : y.result with
        | true =>
            refine Or.inr ⟨y, rfl, ⟨hr, (haccepts.mp hr).2⟩, ?_⟩
            rw [hview, View.reply, if_pos hr]
        | false =>
            refine Or.inl ?_
            rw [hview, View.reply, hr]
            rfl
      · exact Or.inl (hlost hfinds)

/-- Two operations, whose steps are taken in the given order. -/
def twoThreads (x y : DaoCall) (order : List ℕ) : List DbMove :=
  .dao (.start x) :: .dao (.start y) :: order.map fun i => .dao (.advance i)

/-- A role is created in an app that is deleted just before the role is inserted. -/
theorem run_serial_deleted_app :
    let db : Db .binary := Db.initial 0
    let l := twoThreads ⟨.createRole "qq_bot" "Ops" "ops" "" false, [], 7⟩ ⟨.deleteApp "qq_bot", [], 8⟩
      [0, 0, 0, 1, 1, 0]
    ∃ ys, ys.Sublist (replies ⟨db, []⟩ l) ∧
      Meets View.perform (fun v y => y.result = true ∧ v.Accepts y) db.view ys ∧
        (run Db.move ⟨db, []⟩ l).shared.view = run View.perform db.view ys :=
  run_serial (reachable_initial 0) _

-- Both operations return true, but for the first there is nothing to see.
example : (replies (⟨Db.seeded, []⟩ : Pool (Db .binary) DaoThread) (twoThreads
    ⟨.createRole "qq_bot" "Ops" "ops" "" false, [], 7⟩ ⟨.deleteApp "qq_bot", [], 8⟩
      [0, 0, 0, 1, 1, 0])).map DaoReply.result = [true, true] := by decide +kernel

/-- **An interleaving is linearizable** if every statement finds what it refers to by number:
each operation returns true exactly if its environment has served it and its edit is accepted
at the moment it returns, and the edits of those that return true are what is done to the
view, in the order of their returning. -/
theorem run_linearizable {db : Db c} (hdb : db.Reachable) (l : List DbMove)
    (hfinds : Meets Db.move Finds ⟨db, []⟩ l) :
    Meets View.reply (fun v y => y.result = true ↔ y.failed = false ∧ v.Accepts y) db.view
        (replies ⟨db, []⟩ l) ∧
      (run Db.move ⟨db, []⟩ l).shared.view = run View.reply db.view (replies ⟨db, []⟩ l) :=
  Simulates.simulated_run (f := fun p : Pool (Db c) DaoThread => p.shared.view) (I := Serial)
    ⟨fun _ x hp _ => serial_move hp x, fun _ _ _ _ hy => move_silent hy,
      fun _ _ _ hp hfinds hy => (move_reply hp hy).1 hfinds⟩ hdb.founded.serial hfinds

/-- A role that is created twice at a time. -/
theorem run_linearizable_two_creations :
    let db : Db .binary := Db.initial 0
    let l := twoThreads ⟨.createRole "qq_bot" "Ops" "ops" "" false, [], 7⟩
      ⟨.createRole "qq_bot" "Operators" "ops" "" true, [], 7⟩ [0, 1, 0, 1, 0, 1, 1, 0]
    Meets View.reply (fun v y => y.result = true ↔ y.failed = false ∧ v.Accepts y) db.view
        (replies ⟨db, []⟩ l) ∧
      (run Db.move ⟨db, []⟩ l).shared.view = run View.reply db.view (replies ⟨db, []⟩ l) :=
  run_linearizable (reachable_initial 0) _ (by rw [Db.initial_eq_seeded]; decide +kernel)

end Db
end SiqiAuth
