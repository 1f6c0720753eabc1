import SiqiAuth.Store.PermissionDAO

/-!
# The writing operations of the DAO

`DaoOp` lists the thirteen functions of `PermissionDAO` that write the
authorization tables.  Each follows one plan: look up the row numbers it needs, send
one statement, and judge by the number of rows the statement reports.  `DaoOp.apply`
is that plan on bare tables, and `DaoOp.run` the function itself.

Whatever the environment does, the function does what the plan says or does nothing
and reports failure; when nothing fails it does what the plan says.

## Main definitions

* `DaoOp` — the operations, and `DaoOp.run`, the functions they stand for.
* `DaoOp.plan`, `DaoOp.verdict`, `DaoOp.apply` — the plan.
* `DaoOp.Performs` — an execution followed the plan, or failed without effect.
* `DaoOp.run_performs` — every execution does.
-/

namespace SiqiAuth
open Lib

/-- The writing operations, with their parameters. -/
inductive DaoOp
  | createApp (appName appCode description : String)
  | updateApp (appCode : String) (appName description : Option String) (status : Option ℤ)
  | deleteApp (appCode : String)
  | createRole (appCode roleName roleKey description : String) (isDefault : Bool)
  | updateRole (appCode roleKey : String) (roleName description : Option String)
      (isDefault : Option Bool)
  | deleteRole (appCode roleKey : String)
  | createPermission (appCode permName permKey description : String)
  | updatePermission (appCode permKey : String) (permName description : Option String)
  | deletePermission (appCode permKey : String)
  | assignRoleToUser (appCode userId roleKey : String)
  | removeRoleFromUser (appCode userId roleKey : String)
  | addPermissionToRole (appCode roleKey permKey : String)
  | removePermissionFromRole (appCode roleKey permKey : String)
  deriving DecidableEq, Repr

namespace DaoOp
variable {c : Collation}

/-- The app an operation is called for. -/
def appCode : DaoOp → String
  | createApp _ appCode _ => appCode
  | updateApp appCode _ _ _ => appCode
  | deleteApp appCode => appCode
  | createRole appCode _ _ _ _ => appCode
  | updateRole appCode _ _ _ _ => appCode
  | deleteRole appCode _ => appCode
  | createPermission appCode _ _ _ => appCode
  | updatePermission appCode _ _ _ => appCode
  | deletePermission appCode _ => appCode
  | assignRoleToUser appCode _ _ => appCode
  | removeRoleFromUser appCode _ _ => appCode
  | addPermissionToRole appCode _ _ => appCode
  | removePermissionFromRole appCode _ _ => appCode

/-- The code of the app whose rows an operation touches: the one that it is called for, or,
of a new app, the code as its column keeps it. -/
def storedCode : DaoOp → String
  | createApp _ appCode _ => varchar 32 appCode
  | op => op.appCode

/-- Whether an operation can only add a row. -/
def creates : DaoOp → Bool
  | createApp .. | createRole .. | createPermission .. | assignRoleToUser ..
  | addPermissionToRole .. => true
  | _ => false

/-- The function an operation stands for. -/
def run : DaoOp → Dao c Bool
  | createApp n a d => do return (← PermissionDAO.createApp n a d).1
  | updateApp a n d st => PermissionDAO.updateApp a n d st
  | deleteApp a => PermissionDAO.deleteApp a
  | createRole a n k d df => PermissionDAO.createRole a n k d df
  | updateRole a k n d df => PermissionDAO.updateRole a k n d df
  | deleteRole a k => PermissionDAO.deleteRole a k
  | createPermission a n k d => PermissionDAO.createPermission a n k d
  | updatePermission a k n d => PermissionDAO.updatePermission a k n d
  | deletePermission a k => PermissionDAO.deletePermission a k
  | assignRoleToUser a u k => PermissionDAO.assignRoleToUser a u k
  | removeRoleFromUser a u k => PermissionDAO.removeRoleFromUser a u k
  | addPermissionToRole a k p => PermissionDAO.addPermissionToRole a k p
  | removePermissionFromRole a k p => PermissionDAO.removePermissionFromRole a k p

/-! ## The plan -/

/-- Whether an operation has nothing to do, which only `updateApp` looks at. -/
def idle : DaoOp → Bool
  | updateApp _ n d st => n.isNone && d.isNone && st.isNone
  | _ => false

/-- The statement an operation sends; `none` when a row it needs is not there. -/
def plan (wallClock : ℤ) (db : Db c) : DaoOp → Option Statement
  | createApp n a d => some (.insertApp n a ("secret_" ++ a ++ "_" ++ toString wallClock) d)
  | updateApp a n d st => some (.updateApp a n d st)
  | deleteApp a => some (.deleteApp a)
  | createRole a n k d df =>
      (db.snapshot.selectAppId a).head?.map fun appId => .insertRole appId n k d df
  | updateRole a k n d df =>
      (db.snapshot.selectAppId a).head?.map fun appId => .updateRole appId k n d df
  | deleteRole a k => (db.snapshot.selectAppId a).head?.map fun appId => .deleteRole appId k
  | createPermission a n k d =>
      (db.snapshot.selectAppId a).head?.map fun appId => .insertPermission appId n k d
  | updatePermission a k n d =>
      (db.snapshot.selectAppId a).head?.map fun appId => .updatePermission appId k n d
  | deletePermission a k =>
      (db.snapshot.selectAppId a).head?.map fun appId => .deletePermission appId k
  | assignRoleToUser a u k =>
      (db.snapshot.selectRole a k).head?.map fun role => .insertUserRole role.appId u role.id
  | removeRoleFromUser a u k => some (.deleteUserRole a u k)
  | addPermissionToRole a k p =>
      (db.snapshot.selectRole a k).head?.bind fun role =>
        (db.snapshot.selectPermission a p).head?.map fun perm =>
          .insertRolePermission role.id perm.id
  | removePermissionFromRole a k p => some (.deleteRolePermission a k p)

/-- What an operation returns once its statement has reported `rows` rows. -/
def verdict (rows : ℕ) : DaoOp → Bool
  | updateApp .. | deleteApp .. | deleteRole .. | deletePermission .. | removeRoleFromUser ..
  | removePermissionFromRole .. => decide (0 < rows)
  | _ => true

/-- The result of an operation, and the tables after it. -/
def apply (wallClock : ℤ) (db : Db c) (op : DaoOp) : Bool × Db c :=
  if op.idle then (true, db)
  else
    match op.plan wallClock db with
    | none => (false, db)
    | some w =>
        match w.exec (dateTime wallClock) db with
        | .ok (rows, db') => (op.verdict rows, db')
        | .error _ => (false, db)

/-- From `σ` to `τ` the operation did what its plan says and returned `r`, or it
failed without effect. -/
structure Performs (op : DaoOp) (σ : DaoState c) (r : Bool) (τ : DaoState c) : Prop where
  wallClock_eq : τ.wallClock = σ.wallClock
  healthy : σ.Healthy → τ.Healthy
  effect : (r, τ.db) = op.apply σ.wallClock σ.db ∨ ¬ σ.Healthy ∧ r = false ∧ τ.db = σ.db

namespace Performs
variable {op : DaoOp} {σ τ υ : DaoState c} {r : Bool} {w : Statement} {n : ℕ}

theorem of_failed (h : Quiet σ τ) (hσ : ¬ σ.Healthy) : Performs op σ false τ :=
  ⟨h.wallClock_eq, h.healthy, Or.inr ⟨hσ, rfl, h.db_eq⟩⟩

theorem of_idle (h : Quiet σ τ) (hi : op.idle = true) : Performs op σ true τ :=
  ⟨h.wallClock_eq, h.healthy, Or.inl (by simp [apply, hi, h.db_eq])⟩

theorem of_unplanned (h : Quiet σ τ) (hi : op.idle = false)
    (hp : op.plan σ.wallClock σ.db = none) : Performs op σ false τ :=
  ⟨h.wallClock_eq, h.healthy, Or.inl (by simp [apply, hi, hp, h.db_eq])⟩

theorem of_sent (hi : op.idle = false) (hp : op.plan σ.wallClock σ.db = some w)
    (h : w.exec (dateTime σ.wallClock) σ.db = .ok (n, τ.db) ∧ τ.wallClock = σ.wallClock ∧
      (σ.Healthy → τ.Healthy)) : Performs op σ (op.verdict n) τ :=
  ⟨h.2.1, h.2.2, Or.inl (by simp [apply, hi, hp, h.1])⟩

theorem of_thrown (hi : op.idle = false) (hp : op.plan σ.wallClock σ.db = some w)
    (h : Quiet σ τ ∧ (¬ σ.Healthy ∨ ∃ e, w.exec (dateTime σ.wallClock) σ.db = .error e)) :
    Performs op σ false τ := by
  obtain ⟨hq, hσ | ⟨e, he⟩⟩ := h
  · exact of_failed hq hσ
  · exact ⟨hq.wallClock_eq, hq.healthy, Or.inl (by simp [apply, hi, hp, he, hq.db_eq])⟩

/-- What was done quietly beforehand makes no difference. -/
theorem after_quiet (hq : Quiet σ τ) (h : Performs op τ r υ) : Performs op σ r υ := by
  refine ⟨h.wallClock_eq.trans hq.wallClock_eq, fun hσ => h.healthy (hq.healthy hσ), ?_⟩
  rw [← hq.wallClock_eq, ← hq.db_eq]
  exact h.effect.imp_right fun hf => ⟨fun hσ => hf.1 (hq.healthy hσ), hf.2⟩

theorem before_quiet (h : Performs op σ r τ) (hq : Quiet τ υ) : Performs op σ r υ := by
  refine ⟨hq.wallClock_eq.trans h.wallClock_eq, fun hσ => hq.healthy (h.healthy hσ), ?_⟩
  rw [hq.db_eq]
  exact h.effect

end Performs

/-! ## Every execution follows the plan -/

section Executions
open Std.Do PermissionDAO
set_option mvcgen.warning false

/-- `getAppId` finds the app's number, or has failed. -/
@[spec] theorem getAppId_spec (appCode : String) (σ₀ : DaoState c) :
    ⦃fun σ => ⌜σ = σ₀⌝⦄ (getAppId appCode : Dao c (Option ℕ))
    ⦃⇓ r σ => ⌜Quiet σ₀ σ ∧ (r = (σ₀.db.snapshot.selectAppId appCode).head? ∨
      ¬ σ₀.Healthy ∧ r = none)⌝⦄ := by
  mvcgen [getAppId, withConnection, catchSql]
  all_goals subst_vars
  case vc1 σ₁ h₁ _ σ₂ h₂ =>
    exact ⟨h₁.1.trans h₂, Or.inr fun hh => Bool.false_ne_true (h₁.2 hh)⟩
  case vc2 σ₁ h₁ =>
    exact ⟨h₁.1, Or.inr fun hh => Bool.false_ne_true (h₁.2 hh)⟩
  case vc3 σ₁ h₁ _ σ₂ h₂ =>
    rw [← h₁.1.db_eq]
    exact ⟨h₁.1.trans h₂.1, Or.inl (head?_eq_of_perm h₂.2 (Db.selectAppId_unique _ appCode))⟩
  case vc4 σ₁ h₁ _ σ₂ h₂ =>
    exact ⟨h₁.1.trans h₂.1, Or.inr fun hh => h₂.2 (h₁.1.healthy hh)⟩

/-- What the body of a `try` block owes the operation it belongs to. -/
def BodyPerforms (op : DaoOp) (body : Sql c Bool) : Prop :=
  ∀ σ₀ : DaoState c, ⦃fun σ => ⌜σ = σ₀⌝⦄ body
    ⦃post⟨fun r σ => ⌜Performs op σ₀ r σ⌝, fun _ σ => ⌜Performs op σ₀ false σ⌝⟩⦄

/-- The connection and the `catch` clause around a body add only ways to fail. -/
theorem performs_of_body {op : DaoOp} {label : String} {body : Sql c Bool}
    (h : BodyPerforms op body) (σ₀ : DaoState c) :
    ⦃fun σ => ⌜σ = σ₀⌝⦄ withConnection false (reporting label false body)
    ⦃⇓ r σ => ⌜Performs op σ₀ r σ⌝⦄ := by
  have hbody : ∀ σ₀ : DaoState c, ⦃fun σ => ⌜σ = σ₀⌝⦄ body
    ⦃post⟨fun r σ => ⌜Performs op σ₀ r σ⌝, fun _ σ => ⌜Performs op σ₀ false σ⌝⟩⦄ := h
  mvcgen [withConnection, reporting, catchSql, hbody]
  all_goals subst_vars
  case vc1 σ₁ h₁ _ σ₂ h₂ =>
    exact .of_failed (h₁.1.trans h₂) fun hh => Bool.false_ne_true (h₁.2 hh)
  case vc2 σ₁ h₁ =>
    exact .of_failed h₁.1 fun hh => Bool.false_ne_true (h₁.2 hh)
  case vc3 σ₁ h₁ r σ₂ h₂ =>
    exact h₂.after_quiet h₁.1
  case vc4 σ₁ h₁ _ σ₂ h₂ _ σ₃ h₃ =>
    exact (h₂.before_quiet h₃).after_quiet h₁.1

/-- A body that sends its one statement at once. -/
theorem bodyPerforms_of_send {op : DaoOp} {w : Statement} (hi : op.idle = false)
    (hp : ∀ t (db : Db c), op.plan t db = some w)
    (hj : ∀ rows, op.verdict rows = decide (0 < rows)) :
    BodyPerforms (c := c) op (do
      let rows ← executeUpdate w
      return decide (0 < rows)) := by
  intro σ₀
  mvcgen
  all_goals subst_vars
  case vc1 rows σ₁ h₁ =>
    rw [← hj]
    exact .of_sent hi (hp _ _) h₁
  case vc2 => exact fun hq h => .of_thrown hi (hp _ _) ⟨hq, h⟩

/-- A body that looks up its app and then sends a statement. -/
def sendInApp (appCode e : String) (w : ℕ → Statement) (judge : ℕ → Sql c Bool) : Sql c Bool := do
  let some appId ← (getAppId appCode : Dao c _) | refuse e
  let rows ← executeUpdate (w appId)
  judge rows

theorem bodyPerforms_of_getAppId {op : DaoOp} {appCode : String} {e : String} {w : ℕ → Statement}
    {judge : ℕ → Sql c Bool} (hi : op.idle = false)
    (hp : ∀ t (db : Db c), op.plan t db = (db.snapshot.selectAppId appCode).head?.map w)
    (hj : ∀ n (σ₀ : DaoState c), ⦃fun σ => ⌜σ = σ₀⌝⦄ judge n
      ⦃post⟨fun r σ => ⌜Quiet σ₀ σ ∧ r = op.verdict n⌝, fun _ _ => ⌜False⌝⟩⦄) :
    BodyPerforms op (sendInApp appCode e w judge) := by
  intro σ₀
  mvcgen [sendInApp, refuse, hj]
  all_goals subst_vars
  case vc1 appId σ₁ h₁ rows σ₂ h₂ r σ₃ =>
    rintro hq rfl
    obtain ⟨hq₁, happ | ⟨-, hnone⟩⟩ := h₁
    · have hplan : op.plan σ₁.wallClock σ₁.db = some (w appId) := by
        rw [hp, hq₁.db_eq, ← happ, Option.map_some]
      exact ((Performs.of_sent hi hplan h₂).before_quiet hq).after_quiet hq₁
    · cases hnone
  case vc2 appId σ₁ h₁ _ σ₂ =>
    intro hq h
    obtain ⟨hq₁, happ | ⟨-, hnone⟩⟩ := h₁
    · have hplan : op.plan σ₁.wallClock σ₁.db = some (w appId) := by
        rw [hp, hq₁.db_eq, ← happ, Option.map_some]
      exact (Performs.of_thrown hi hplan ⟨hq, h⟩).after_quiet hq₁
    · cases hnone
  case vc3 σ₀ found hnot σ₁ h₁ _ σ₂ hq =>
    obtain ⟨hq₁, happ | ⟨hσ, -⟩⟩ := h₁
    · have hplan : op.plan σ₁.wallClock σ₁.db = none := by
        cases found with
        | none => rw [hp, hq₁.db_eq, ← happ, Option.map_none]
        | some n => exact (hnot n rfl).elim
      exact (Performs.of_unplanned hq hi hplan).after_quiet hq₁
    · exact .of_failed (hq₁.trans hq) hσ

/-- `return true` as the judgement of a creating or updating operation. -/
theorem judge_true {op : DaoOp} (hj : ∀ rows, op.verdict rows = true) (rows : ℕ)
    (σ₀ : DaoState c) : ⦃fun σ => ⌜σ = σ₀⌝⦄ (pure true : Sql c Bool)
    ⦃post⟨fun r σ => ⌜Quiet σ₀ σ ∧ r = op.verdict rows⌝, fun _ _ => ⌜False⌝⟩⦄ := by
  mvcgen
  subst_vars
  exact ⟨Quiet.refl _, (hj rows).symm⟩

/-- `if (rows == 0)` as the judgement of a deleting operation. -/
theorem judge_deleted {op : DaoOp} {e : String} (hj : ∀ rows, op.verdict rows = decide (0 < rows))
    (rows : ℕ) (σ₀ : DaoState c) : ⦃fun σ => ⌜σ = σ₀⌝⦄
    (if rows = 0 then refuse e else return true : Sql c Bool)
    ⦃post⟨fun r σ => ⌜Quiet σ₀ σ ∧ r = op.verdict rows⌝, fun _ _ => ⌜False⌝⟩⦄ := by
  mvcgen [refuse]
  all_goals subst_vars
  case vc1 _ σ₁ h₁ => exact ⟨h₁, (hj 0).symm⟩
  case vc2 hrows _ =>
    refine ⟨Quiet.refl _, ?_⟩
    rw [hj, eq_comm, decide_eq_true_eq]
    omega

/-- The role a lookup takes is the one the tables hold, in whatever order they answer. -/
theorem selectRole_head? {a k : String} {σ τ : DaoState c} {r : List SysRole}
    (h : Quiet σ τ ∧ r.Perm (σ.db.snapshot.selectRole a k)) :
    (τ.db.snapshot.selectRole a k).head? = r.head? := by
  rw [h.1.db_eq]
  exact (head?_eq_of_perm h.2 (Db.selectRole_unique _ a k)).symm

theorem selectPermission_head? {a p : String} {σ τ : DaoState c} {r : List SysPermission}
    (h : Quiet σ τ ∧ r.Perm (σ.db.snapshot.selectPermission a p)) :
    (τ.db.snapshot.selectPermission a p).head? = r.head? := by
  rw [h.1.db_eq]
  exact (head?_eq_of_perm h.2 (Db.selectPermission_unique _ a p)).symm

theorem head?_eq_none {α : Type} {r : List α} (h : ∀ x, r.head? = some x → False) :
    r.head? = none := by
  cases hr : r.head? with
  | none => rfl
  | some x => exact (h x hr).elim

theorem assignRoleToUser_body (a u k : String) :
    BodyPerforms (c := c) (assignRoleToUser a u k) (do
      let roles ← executeQuery fun db => db.snapshot.selectRole a k
      let some role := roles.head? | refuse "角色不存在"
      let _ ← executeUpdate (.insertUserRole role.appId u role.id)
      return true) := by
  intro σ₀
  mvcgen [refuse]
  all_goals subst_vars
  case vc1 roles role hrole σ₁ h₁ rows σ₂ h₂ =>
    have hrow := selectRole_head? h₁
    have hplan : (assignRoleToUser a u k).plan σ₁.wallClock σ₁.db =
        some (.insertUserRole role.appId u role.id) := by simp only [plan, hrow, hrole, Option.map_some]
    exact (Performs.of_sent rfl hplan h₂).after_quiet h₁.1
  case vc2 roles role hrole σ₁ h₁ _ σ₂ =>
    intro hq h
    have hrow := selectRole_head? h₁
    have hplan : (assignRoleToUser a u k).plan σ₁.wallClock σ₁.db =
        some (.insertUserRole role.appId u role.id) := by simp only [plan, hrow, hrole, Option.map_some]
    exact (Performs.of_thrown rfl hplan ⟨hq, h⟩).after_quiet h₁.1
  case vc3 roles σ₁ h₁ _ σ₂ hq hrole =>
    have hrow := selectRole_head? h₁
    have hplan : (assignRoleToUser a u k).plan σ₁.wallClock σ₁.db = none := by
      simp only [plan, hrow, head?_eq_none hrole, Option.map_none]
    exact (Performs.of_unplanned hq rfl hplan).after_quiet h₁.1
  case vc4 => exact fun hq hσ => .of_failed hq hσ

theorem addPermissionToRole_body (a k p : String) :
    BodyPerforms (c := c) (addPermissionToRole a k p) (do
      let roles ← executeQuery fun db => db.snapshot.selectRole a k
      let some role := roles.head? | refuse "角色不存在"
      let perms ← executeQuery fun db => db.snapshot.selectPermission a p
      let some perm := perms.head? | refuse "权限不存在"
      let _ ← executeUpdate (.insertRolePermission role.id perm.id)
      return true) := by
  intro σ₀
  mvcgen [refuse]
  all_goals subst_vars
  case vc1 roles role hrole σ₁ h₁ perms perm hperm σ₂ h₂ rows σ₃ h₃ =>
    have hrow := selectRole_head? h₁
    have hrow' := selectPermission_head? h₂
    have hplan : (addPermissionToRole a k p).plan σ₂.wallClock σ₂.db =
        some (.insertRolePermission role.id perm.id) := by
      rw [← h₂.1.db_eq] at hrow
      simp only [plan, hrow, hrole, hrow', hperm, Option.map_some, Option.bind_some]
    exact ((Performs.of_sent rfl hplan h₃).after_quiet h₂.1).after_quiet h₁.1
  case vc2 roles role hrole σ₁ h₁ perms perm hperm σ₂ h₂ _ σ₃ =>
    intro hq h
    have hrow := selectRole_head? h₁
    have hrow' := selectPermission_head? h₂
    have hplan : (addPermissionToRole a k p).plan σ₂.wallClock σ₂.db =
        some (.insertRolePermission role.id perm.id) := by
      rw [← h₂.1.db_eq] at hrow
      simp only [plan, hrow, hrole, hrow', hperm, Option.map_some, Option.bind_some]
    exact ((Performs.of_thrown rfl hplan ⟨hq, h⟩).after_quiet h₂.1).after_quiet h₁.1
  case vc3 roles role hrole σ₁ h₁ perms σ₂ h₂ _ σ₃ hq hperm =>
    have hrow := selectRole_head? h₁
    have hrow' := selectPermission_head? h₂
    have hplan : (addPermissionToRole a k p).plan σ₂.wallClock σ₂.db = none := by
      rw [← h₂.1.db_eq] at hrow
      simp only [plan, hrow, hrole, hrow', head?_eq_none hperm, Option.map_none, Option.bind_some]
    exact ((Performs.of_unplanned hq rfl hplan).after_quiet h₂.1).after_quiet h₁.1
  case vc4 roles role hrole σ₁ h₁ _ σ₂ =>
    exact fun hq hσ => (Performs.of_failed hq hσ).after_quiet h₁.1
  case vc5 roles σ₁ h₁ _ σ₂ hq hrole =>
    have hrow := selectRole_head? h₁
    have hplan : (addPermissionToRole a k p).plan σ₁.wallClock σ₁.db = none := by
      simp only [plan, hrow, head?_eq_none hrole, Option.bind_none]
    exact (Performs.of_unplanned hq rfl hplan).after_quiet h₁.1
  case vc6 => exact fun hq hσ => .of_failed hq hσ

theorem updateApp_body (a : String) (n d : Option String) (st : Option ℤ) :
    BodyPerforms (c := c) (updateApp a n d st) (do
      if n.isNone && d.isNone && st.isNone then
        return true
      let rows ← executeUpdate (.updateApp a n d st)
      return decide (0 < rows)) := by
  intro σ₀
  mvcgen
  all_goals subst_vars
  case vc1 hidle _ => exact .of_idle (Quiet.refl _) hidle
  case vc2 hidle _ rows σ₁ h₁ => exact .of_sent (Bool.eq_false_iff.mpr hidle) rfl h₁
  case vc3 hidle _ _ σ₁ =>
    exact fun hq h => .of_thrown (Bool.eq_false_iff.mpr hidle) rfl ⟨hq, h⟩

theorem createApp_spec (n a d : String) (σ₀ : DaoState c) :
    ⦃fun σ => ⌜σ = σ₀⌝⦄ (PermissionDAO.createApp n a d : Dao c (Bool × String))
    ⦃⇓ r σ => ⌜Performs (createApp n a d) σ₀ r.1 σ⌝⦄ := by
  mvcgen [PermissionDAO.createApp, withConnection, reporting, catchSql]
  all_goals subst_vars
  case vc1 σ₁ h₁ _ σ₂ h₂ =>
    exact .of_failed (h₁.1.trans h₂) fun hh => Bool.false_ne_true (h₁.2 hh)
  case vc2 σ₁ h₁ =>
    exact .of_failed h₁.1 fun hh => Bool.false_ne_true (h₁.2 hh)
  case vc3 σ₁ h₁ secret rows σ₂ h₂ =>
    exact (Performs.of_sent rfl rfl h₂).after_quiet h₁.1
  case vc4 σ₁ h₁ secret _ σ₂ h₂ _ σ₃ h₃ =>
    exact ((Performs.of_thrown rfl rfl h₂).before_quiet h₃).after_quiet h₁.1

/-- What a triple says of an execution. -/
theorem of_triple {α : Type} {x : Dao c α} {σ : DaoState c} {Q : α → DaoState c → Prop}
    (h : ⦃fun τ => ⌜τ = σ⌝⦄ x ⦃⇓ r τ => ⌜Q r τ⌝⦄) : Q (x.run σ).1 (x.run σ).2 :=
  h σ rfl

/-- **An operation follows its plan**, or it fails without effect. -/
theorem run_performs (op : DaoOp) (σ : DaoState c) :
    Performs op σ (op.run.run σ).1 (op.run.run σ).2 := by
  cases op with
  | createApp n a d => exact of_triple (createApp_spec n a d σ)
  | updateApp a n d st => exact of_triple (performs_of_body (updateApp_body a n d st) σ)
  | deleteApp a =>
      exact of_triple (performs_of_body (bodyPerforms_of_send rfl (fun _ _ => rfl) fun _ => rfl) σ)
  | assignRoleToUser a u k => exact of_triple (performs_of_body (assignRoleToUser_body a u k) σ)
  | createRole a n k d df =>
      exact of_triple (performs_of_body
        (bodyPerforms_of_getAppId rfl (fun _ _ => rfl) (judge_true fun _ => rfl)) σ)
  | updateRole a k n d df =>
      exact of_triple (performs_of_body
        (bodyPerforms_of_getAppId rfl (fun _ _ => rfl) (judge_true fun _ => rfl)) σ)
  | deleteRole a k =>
      exact of_triple (performs_of_body
        (bodyPerforms_of_getAppId rfl (fun _ _ => rfl) (judge_deleted fun _ => rfl)) σ)
  | createPermission a n k d =>
      exact of_triple (performs_of_body
        (bodyPerforms_of_getAppId rfl (fun _ _ => rfl) (judge_true fun _ => rfl)) σ)
  | updatePermission a k n d =>
      exact of_triple (performs_of_body
        (bodyPerforms_of_getAppId rfl (fun _ _ => rfl) (judge_true fun _ => rfl)) σ)
  | deletePermission a k =>
      exact of_triple (performs_of_body
        (bodyPerforms_of_getAppId rfl (fun _ _ => rfl) (judge_deleted fun _ => rfl)) σ)
  | removeRoleFromUser a u k =>
      exact of_triple (performs_of_body (bodyPerforms_of_send rfl (fun _ _ => rfl) fun _ => rfl) σ)
  | addPermissionToRole a k p => exact of_triple (performs_of_body (addPermissionToRole_body a k p) σ)
  | removePermissionFromRole a k p =>
      exact of_triple (performs_of_body (bodyPerforms_of_send rfl (fun _ _ => rfl) fun _ => rfl) σ)

end Executions
end DaoOp
end SiqiAuth
