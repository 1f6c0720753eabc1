import SiqiAuth.Store.Ownership
import SiqiAuth.Store.Progress

/-!
# Bindings within one app

`addPermissionToRole` looks up its role and its permission in two statements, each by the
code of the app.  When the app is deleted in between, and another one created with its
code, the role found belongs to the one and the permission to the other.  As long as this
does not happen, the statements of concurrent operations in whatever order bind roles to
permissions of their own app only.

## Main definitions

* `Db.WithinOneApp` — no binding and no assignment reaches across apps.
* `Progress.Knows` — what an operation has learned agrees with a record of owners.
* `Db.KeepsCode` — the app code of a binding has not been given to another app.
* `bindings_within_one_app` — what holds after every interleaving that keeps it.
-/

namespace SiqiAuth
open Lib

variable {c : Collation}

/-- No binding and no assignment reaches across apps, as far as the rows they refer to
exist. -/
structure Db.WithinOneApp (db : Db c) : Prop where
  binding : ∀ rp ∈ db.sysRolePermissions, ∀ r ∈ db.sysRoles, ∀ p ∈ db.sysPermissions,
    rp.roleId = r.id → rp.permId = p.id → r.appId = p.appId
  assignment : ∀ ur ∈ db.sysUserRoles, ∀ r ∈ db.sysRoles, ur.roleId = r.id → ur.appId = r.appId

/-- Tables that agree with a record of owners stay within one app. -/
theorem Owners.Consistent.withinOneApp {o : Owners} {db : Db c} (ho : o.Consistent db) :
    db.WithinOneApp := by
  constructor
  · intro rp hrp r hr p hp hrole hperm
    calc r.appId = o.role r.id := (ho.role_appId r hr).symm
      _ = o.role rp.roleId := by rw [hrole]
      _ = o.perm rp.permId := ho.binding rp hrp
      _ = o.perm p.id := by rw [hperm]
      _ = p.appId := ho.perm_appId p hp
  · intro ur hur r hr hrole
    calc ur.appId = o.role ur.roleId := (ho.assignment ur hur).symm
      _ = o.role r.id := by rw [hrole]
      _ = r.appId := ho.role_appId r hr

/-! ## What an operation knows -/

/-- What an operation has learned agrees with a record of owners. -/
def Progress.Knows (o : Owners) (db : Db c) : Progress → Prop
  | selectPermission role => role.id < db.sysRoles.next ∧ o.role role.id = role.appId
  | send w => w.Knows o db
  | _ => True

/-- `db'` comes after `db`, and `o'` continues the record `o`. -/
structure Owners.Continues (o : Owners) (db : Db c) (o' : Owners) (db' : Db c) : Prop where
  owners : o'.Extends o db
  apps : db.sysApps.next ≤ db'.sysApps.next
  roles : db.sysRoles.next ≤ db'.sysRoles.next
  perms : db.sysPermissions.next ≤ db'.sysPermissions.next

namespace Owners.Continues
variable {o o' : Owners} {db db' : Db c}

theorem refl (o : Owners) (db : Db c) : o.Continues db o db :=
  ⟨.refl o db, le_refl _, le_refl _, le_refl _⟩

/-- What is known stays true. -/
theorem statement_knows (h : o.Continues db o' db') {w : Statement} (hw : w.Knows o db) :
    w.Knows o' db' := by
  have happs := h.apps
  have hroles := h.roles
  have hperms := h.perms
  cases w with
  | insertRole | insertPermission =>
      simp only [Statement.Knows] at hw ⊢
      omega
  | insertUserRole appId u roleId =>
      simp only [Statement.Knows] at hw ⊢
      refine ⟨by omega, ?_⟩
      rw [h.owners.role _ hw.1]
      exact hw.2
  | insertRolePermission roleId permId =>
      simp only [Statement.Knows] at hw ⊢
      refine ⟨by omega, by omega, ?_⟩
      rw [h.owners.role _ hw.1, h.owners.perm _ hw.2.1]
      exact hw.2.2
  | _ => trivial

theorem progress_knows (h : o.Continues db o' db') {p : Progress} (hp : p.Knows o db) :
    p.Knows o' db' := by
  cases p with
  | selectPermission role =>
      have hroles := h.roles
      simp only [Progress.Knows] at hp ⊢
      refine ⟨by omega, ?_⟩
      rw [h.owners.role _ hp.1]
      exact hp.2
  | send w => exact h.statement_knows hp
  | _ => trivial

end Owners.Continues

/-- Row numbers are only ever issued. -/
theorem Statement.next_le {w : Statement} {db db' : Db c} {now : DateTime} {rows : ℕ}
    (h : w.write now db = .ok (rows, db')) : db.sysApps.next ≤ db'.sysApps.next ∧
      db.sysRoles.next ≤ db'.sysRoles.next ∧ db.sysPermissions.next ≤ db'.sysPermissions.next := by
  cases w with
  | insertApp | insertRole | insertPermission | insertUserRole | insertRolePermission
  | insertAuditLog =>
      obtain ⟨t, ht, rfl⟩ := inserted_eq_ok h
      obtain ⟨-, hnext, -⟩ := Table.insert_eq_some ht
      simp [hnext]
  | _ =>
      cases h
      exact ⟨le_refl _, le_refl _, le_refl _⟩

/-- A statement continues the record. -/
theorem Statement.continues {w : Statement} {o : Owners} {db db' : Db c} {now : DateTime} {rows : ℕ}
    (hw : w.Knows o db) (ho : o.Consistent db) (h : w.write now db = .ok (rows, db')) :
    ∃ o' : Owners, o'.Consistent db' ∧ o.Continues db o' db' := by
  obtain ⟨o', ho', hext⟩ := w.consistent hw ho h
  obtain ⟨happs, hroles, hperms⟩ := next_le h
  exact ⟨o', ho', hext, happs, hroles, hperms⟩

/-! ## One step -/

/-- No app but that of the role found has, by now, the code and a permission with the key
that an operation is going to look up. -/
def DaoOp.KeepsCode (db : Db c) (role : SysRole) : DaoOp → Prop
  | addPermissionToRole a _ p => ∀ app ∈ db.sysApps, c.same app.appCode a = true →
      (∃ perm ∈ db.sysPermissions, perm.appId = app.id ∧ c.same perm.permKey p = true) →
        app.id = role.appId
  | _ => True

/-- An operation that is going to look up its permission does so in the app of its role. -/
def Db.KeepsCode (p : Pool (Db c) DaoThread) : Move DaoCall → Prop
  | .start _ => True
  | .advance i =>
      match p.threads[i]? with
      | some ⟨x, .selectPermission role⟩ => x.op.KeepsCode p.shared role
      | _ => True

instance (db : Db c) (role : SysRole) (op : DaoOp) : Decidable (op.KeepsCode db role) := by
  induction op using DaoOp.casesOn <;> dsimp only [DaoOp.KeepsCode] <;> infer_instance

instance (p : Pool (Db c) DaoThread) (x : Move DaoCall) : Decidable (Db.KeepsCode p x) := by
  unfold Db.KeepsCode
  repeat' split
  all_goals infer_instance

namespace Progress
variable {op : DaoOp} {wallClock : ℤ} {out : Outcome} {db : Db c} {o : Owners}

/-- A lookup ends the operation, or goes on with one of the rows. -/
theorem lookup_cases {α : Type} (out : Outcome) (rows : List α) (f : α → Progress) :
    lookup out rows f = returned false ∨ ∃ x ∈ rows, lookup out rows f = f x := by
  by_cases hpass : out.completes = true
  · cases hhead : (arrange out.picks rows).head? with
    | none => simp [lookup, hpass, hhead]
    | some x =>
        have hx : x ∈ rows := mem_arrange.mp (List.mem_of_head? hhead)
        exact Or.inr ⟨x, hx, by simp [lookup, hpass, hhead]⟩
  · simp [lookup, hpass]

theorem knows_begin (op : DaoOp) : (op.begin wallClock).Knows o db := by
  cases op with
  | updateApp a n d st =>
      simp only [DaoOp.begin]
      split <;> trivial
  | _ => trivial

theorem knows_withAppId {app : SysApp} (happ : app ∈ db.sysApps) :
    (op.withAppId app.id).Knows o db := by
  cases op with
  | createRole | createPermission => exact Table.id_lt_next happ
  | _ => trivial

theorem knows_withRole {role : SysRole} (ho : o.Consistent db) (hrole : role ∈ db.sysRoles) :
    (op.withRole role).Knows o db := by
  cases op with
  | assignRoleToUser | addPermissionToRole =>
      exact ⟨Table.id_lt_next hrole, ho.role_appId role hrole⟩
  | _ => trivial

theorem knows_withPermission {role : SysRole} {perm : SysPermission} (ho : o.Consistent db)
    (hrole : (selectPermission role).Knows o db) (hperm : perm ∈ op.permissions db.snapshot)
    (hkeeps : op.KeepsCode db role) : (DaoOp.withPermission role perm).Knows o db := by
  cases op with
  | addPermissionToRole a k p =>
      obtain ⟨hmem, hkey, app, happ, hid, hcode⟩ := (Snapshot.mem_selectPermission _).mp hperm
      have hown := hkeeps app happ hcode ⟨perm, hmem, hid, hkey⟩
      refine ⟨hrole.1, Table.id_lt_next hmem, ?_⟩
      rw [hrole.2, ho.perm_appId perm hmem, hid, hown]
  | _ => simp [DaoOp.permissions] at hperm

/-- **A step continues the record**, and what the operation has learned by it agrees. -/
theorem next_continues (op : DaoOp) (wallClock : ℤ) (out : Outcome) {p : Progress}
    (ho : o.Consistent db) (hp : p.Knows o db)
    (hkeeps : ∀ role, p = selectPermission role → op.KeepsCode db role) :
    ∃ o' : Owners, o'.Consistent (p.next op wallClock out db).2 ∧
      o.Continues db o' (p.next op wallClock out db).2 ∧
      (p.next op wallClock out db).1.Knows o' (p.next op wallClock out db).2 := by
  cases p with
  | called =>
      refine ⟨o, ho, .refl o db, ?_⟩
      simp only [next]
      split
      · exact knows_begin op
      · trivial
  | getAppId =>
      refine ⟨o, ho, .refl o db, ?_⟩
      simp only [next]
      split <;> trivial
  | selectAppId =>
      refine ⟨o, ho, .refl o db, ?_⟩
      simp only [next]
      rcases lookup_cases out (db.snapshot.selectAppId op.appCode) fun appId => op.withAppId appId
        with hstop | ⟨appId, happId, hgo⟩
      · rw [hstop]
        trivial
      · obtain ⟨app, happ, -, rfl⟩ := (Snapshot.mem_selectAppId _).mp happId
        rw [hgo]
        exact knows_withAppId happ
  | selectRole =>
      refine ⟨o, ho, .refl o db, ?_⟩
      simp only [next]
      rcases lookup_cases out (op.roles db.snapshot) fun role => op.withRole role
        with hstop | ⟨role, hrole, hgo⟩
      · rw [hstop]
        trivial
      · have hmem : role ∈ db.sysRoles := by
          cases op with
          | assignRoleToUser | addPermissionToRole => exact ((Snapshot.mem_selectRole _).mp hrole).1
          | _ => simp [DaoOp.roles] at hrole
        rw [hgo]
        exact knows_withRole ho hmem
  | selectPermission role =>
      refine ⟨o, ho, .refl o db, ?_⟩
      simp only [next]
      rcases lookup_cases out (op.permissions db.snapshot) (DaoOp.withPermission role)
        with hstop | ⟨perm, hperm, hgo⟩
      · rw [hstop]
        trivial
      · rw [hgo]
        exact knows_withPermission ho hp hperm (hkeeps role rfl)
  | send w =>
      by_cases hpass : out.completes = true
      · cases hexec : w.exec (dateTime wallClock) db with
        | error e =>
            simp only [next, hpass, hexec, if_true]
            exact ⟨o, ho, .refl o db, trivial⟩
        | ok x =>
            obtain ⟨rows, db'⟩ := x
            obtain ⟨o', ho', hcont⟩ := w.continues hp ho (Statement.write_of_exec hexec)
            simp only [next, hpass, hexec, if_true]
            exact ⟨o', ho', hcont, trivial⟩
      · simp only [next, hpass]
        exact ⟨o, ho, .refl o db, trivial⟩
  | returned r => exact ⟨o, ho, .refl o db, trivial⟩

end Progress

/-! ## Every interleaving -/

/-- **After every interleaving of the statements of concurrent operations, bindings and
assignments stay within one app**, if no operation looks up a permission after the code of
its app has gone to another one. -/
theorem bindings_within_one_app {installed : ℤ} {db : Db c} (hdb : db = Db.initial installed)
    {l : List (Move DaoCall)} (hl : Meets Db.step Db.KeepsCode ⟨db, []⟩ l) :
    (run Db.step ⟨db, []⟩ l).shared.WithinOneApp := by
  have hinitial : ∃ o : Owners, o.Consistent db := by
    have hrun := Db.exists_owners (σ := ⟨db, "", [], 0⟩) hdb []
    exact hrun
  have hnext : ∀ (p : Pool (Db c) DaoThread) i t (o : Owners), p.threads[i]? = some t →
      Db.KeepsCode p (.advance i) → o.Consistent p.shared → t.progress.Knows o p.shared →
        ∃ o' : Owners, o'.Consistent (t.next p.shared).2 ∧
          (t.next p.shared).1.progress.Knows o' (t.next p.shared).2 ∧
          ∀ t' : DaoThread, t'.progress.Knows o p.shared →
            t'.progress.Knows o' (t.next p.shared).2 := by
    intro p i t o hi hkeeps ho ht
    obtain ⟨x, progress⟩ := t
    have hown : ∀ role, progress = .selectPermission role → x.op.KeepsCode p.shared role := by
      intro role hrole
      subst hrole
      simpa [Db.KeepsCode, hi] using hkeeps
    obtain ⟨o', ho', hcont, hknows⟩ := Progress.next_continues x.op x.wallClock
      (x.outcomes.headD (.answered [])) ho ht hown
    exact ⟨o', ho', hknows, fun t' ht' => hcont.progress_knows ht'⟩
  obtain ⟨o, ho⟩ := hinitial
  obtain ⟨o', ho', -⟩ := Pool.run_ghost (J := fun (o : Owners) (db : Db c) => o.Consistent db)
    (T := fun o db t => t.progress.Knows o db) (fun _ _ _ _ => trivial) hnext
    ⟨o, ho, fun t ht => by cases ht⟩ hl
  exact ho'.withinOneApp

/-- A permission is created while another call is about to bind it, and the app `qq_bot` is
deleted and created again meanwhile. -/
theorem bindings_within_one_app_elsewhere :
    (run Db.step ⟨(Db.initial 0 : Db .binary), []⟩
      [.start ⟨.addPermissionToRole "course_bot" "teacher" "homework:pin", [], 0⟩, .advance 0,
        .advance 0, .start ⟨.deleteApp "qq_bot", [], 0⟩, .advance 1, .advance 1,
        .start ⟨.createApp "QQ机器人" "qq_bot" "", [], 0⟩, .advance 2, .advance 2,
        .start ⟨.createPermission "course_bot" "置顶作业" "homework:pin" "", [], 0⟩, .advance 3,
        .advance 3, .advance 3, .advance 3, .advance 0, .advance 0]).shared.WithinOneApp := by
  have hinitial : (Db.initial 0 : Db .binary) = Db.initial 0 := rfl
  refine bindings_within_one_app hinitial ?_
  rw [Db.initial_eq_seeded]
  decide +kernel

/-- Between the two lookups of `addPermissionToRole` its app is deleted, and created again
with a permission of the key asked for: a role of the old app is bound to a permission of
the new one. -/
theorem binding_across_apps :
    ¬ (run Db.step ⟨(Db.initial 0 : Db .binary), []⟩
      [.start ⟨.addPermissionToRole "qq_bot" "admin" "message:pin", [], 0⟩, .advance 0, .advance 0,
        .start ⟨.deleteApp "qq_bot", [], 0⟩, .advance 1, .advance 1,
        .start ⟨.createApp "QQ机器人" "qq_bot" "", [], 0⟩, .advance 2, .advance 2,
        .start ⟨.createPermission "qq_bot" "置顶消息" "message:pin" "", [], 0⟩, .advance 3, .advance 3,
        .advance 3, .advance 3, .advance 0, .advance 0]).shared.WithinOneApp := by
  intro h
  have hbinding := h.binding
  revert hbinding
  rw [Db.initial_eq_seeded]
  decide +kernel

end SiqiAuth
