import SiqiAuth.Store.Lockstep
import SiqiAuth.Store.UserPermissions
import SiqiAuth.Store.Writes

/-!
# What an operation asks of the database

Each operation asks for connections and sends statements in a fixed order.  If all of it
gets through, the operation does what its plan says, and has used up as much of the
environment as it asked for whenever it has changed the tables; otherwise it changes
nothing.

## Main definitions

* `Interaction`, `getThrough` — what is asked for, and that all of it is granted.
* `DaoOp.interactions` — what an operation asks for.
* `DaoOp.run_exact` — what an operation does, given what the environment does.
* `DaoOp.run_of_writes`, `DaoOp.run_of_not_writes` — when an operation changes a row.
* `run_createAuditLog`, `run_createAuditLog_stopped` — the same of `createAuditLog`.
-/

namespace SiqiAuth
open Lib

variable {c : Collation}

inductive Interaction
  | connection
  | statement
  deriving DecidableEq, Repr

/-- Whether what the environment does lets the DAO go on. -/
def Interaction.passes : Interaction → Outcome → Bool
  | connection, o => o.lends
  | statement, o => o.completes

/-- Whether all that is asked for is granted. -/
def getThrough : List Interaction → List Outcome → Bool
  | [], _ => true
  | i :: is, os => i.passes (os.headD (.answered [])) && getThrough is os.tail

/-- What an operation asks for, as long as its lookups find something. -/
def DaoOp.interactions : DaoOp → List Interaction
  | createApp .. | updateApp .. | deleteApp .. | removeRoleFromUser ..
  | removePermissionFromRole .. => [.connection, .statement]
  -- `getAppId` has a connection of its own.
  | createRole .. | updateRole .. | deleteRole .. | createPermission .. | updatePermission ..
  | deletePermission .. => [.connection, .connection, .statement, .statement]
  | assignRoleToUser .. => [.connection, .statement, .statement]
  | addPermissionToRole .. => [.connection, .statement, .statement, .statement]

theorem getThrough_of_succeeds {os : List Outcome} (h : ∀ o ∈ os, o.succeeds = true)
    (is : List Interaction) : getThrough is os = true := by
  induction is generalizing os with
  | nil => rfl
  | cons i is ih =>
      have htail : getThrough is os.tail = true := ih fun o ho => h o (List.mem_of_mem_tail ho)
      rw [getThrough, htail, Bool.and_true]
      cases i with
      | connection => exact Outcome.lends_of_succeeds (succeeds_headD h)
      | statement => exact Outcome.completes_of_succeeds (succeeds_headD h)

/-! ## Single steps -/

namespace DaoState
variable (σ : DaoState c)

/-- What the environment does next. -/
def outcome : Outcome := σ.outcomes.headD (.answered [])

/-- The state once that has happened. -/
def after : DaoState c := { σ with outcomes := σ.outcomes.tail }

@[simp] theorem db_after : σ.after.db = σ.db := rfl
@[simp] theorem wallClock_after : σ.after.wallClock = σ.wallClock := rfl
@[simp] theorem outcomes_after : σ.after.outcomes = σ.outcomes.tail := rfl

end DaoState

section Steps
variable {α β : Type} {σ : DaoState c}

theorem getThrough_cons (i : Interaction) (is : List Interaction) (σ : DaoState c) :
    getThrough (i :: is) σ.outcomes = (i.passes σ.outcome && getThrough is σ.after.outcomes) := rfl

theorem getThrough_nil (os : List Outcome) : getThrough [] os = true := rfl

theorem getThrough_connection (is : List Interaction) (σ : DaoState c) :
    getThrough (.connection :: is) σ.outcomes =
      (σ.outcome.lends && getThrough is σ.after.outcomes) := rfl

theorem getThrough_statement (is : List Interaction) (σ : DaoState c) :
    getThrough (.statement :: is) σ.outcomes =
      (σ.outcome.completes && getThrough is σ.after.outcomes) := rfl

theorem run_withConnection_refused (dflt : α) (body : Dao c α) (h : σ.outcome.lends = false) :
    ((withConnection dflt body).run σ).1 = dflt ∧ ((withConnection dflt body).run σ).2.db = σ.db := by
  rw [DaoState.outcome] at h
  rw [withConnection_run]
  cases hout : σ.outcomes.headD (.answered []) with
  | refused what => cases what <;> exact ⟨rfl, rfl⟩
  | _ =>
      rw [hout] at h
      cases h

theorem run_executeQuery {rows : Db c → List α} (h : σ.outcome.completes = true) :
    (executeQuery rows : Sql c (List α)).run.run σ =
      (.ok (arrange σ.outcome.picks (rows σ.db)), σ.after) := by
  simp only [DaoState.outcome, DaoState.after] at h ⊢
  rw [executeQuery_run]
  cases hout : σ.outcomes.headD (.answered []) with
  | raised => simp only [hout, Outcome.completes, Bool.false_eq_true] at h
  | _ => rfl

theorem run_executeQuery_raised (rows : Db c → List α) (h : σ.outcome.completes = false) :
    ∃ what, (executeQuery rows : Sql c (List α)).run.run σ = (.error what, σ.after) := by
  simp only [DaoState.outcome, DaoState.after] at h ⊢
  rw [executeQuery_run]
  cases hout : σ.outcomes.headD (.answered []) with
  | raised picks fetched what => exact ⟨what, rfl⟩
  | _ => simp only [hout, Outcome.completes, Bool.true_eq_false] at h

/-- What `executeUpdate` returns once the statement has got through. -/
def sent (w : Statement) (σ : DaoState c) : Except String ℕ × DaoState c :=
  match w.exec (dateTime σ.wallClock) σ.db with
  | .error refusal => (.error refusal.what, σ.after)
  | .ok (rows, db) => (.ok rows, { σ.after with db := db })

theorem executeUpdate_run (w : Statement) (σ : DaoState c) :
    (executeUpdate w : Sql c ℕ).run.run σ = (match σ.outcome with
      | .raised _ _ what => throw what
      | _ => do
          let σ ← get
          match w.exec (dateTime σ.wallClock) σ.db with
          | .error refusal => throw refusal.what
          | .ok (rows, db) =>
              set { σ with db := db }
              return rows : Sql c ℕ).run.run σ.after := rfl

/-- What is done about the server's report. -/
theorem run_reported (x : Except SqlError (ℕ × Db c)) (σ : DaoState c) :
    (match x with
      | .error refusal => throw refusal.what
      | .ok (rows, db) => do
          set { σ with db := db }
          return rows : Sql c ℕ).run.run σ = match x with
      | .error refusal => (.error refusal.what, σ)
      | .ok (rows, db) => (.ok rows, { σ with db := db }) := by
  cases x <;> rfl

theorem run_executeUpdate {w : Statement} (h : σ.outcome.completes = true) :
    (executeUpdate w : Sql c ℕ).run.run σ = sent w σ := by
  rw [executeUpdate_run]
  cases hout : σ.outcome with
  | raised => simp [hout, Outcome.completes] at h
  | _ => exact run_reported _ σ.after

theorem run_executeUpdate_raised {w : Statement} (h : σ.outcome.completes = false) :
    ∃ what, (executeUpdate w : Sql c ℕ).run.run σ = (.error what, σ.after) := by
  rw [executeUpdate_run]
  cases hout : σ.outcome with
  | raised picks fetched what => exact ⟨what, rfl⟩
  | _ => simp [hout, Outcome.completes] at h

theorem run_catchSql (body : Sql c α) (handler : String → Dao c α) (σ : DaoState c) :
    (catchSql body handler).run σ = match body.run.run σ with
      | (.ok a, τ) => (a, τ)
      | (.error e, τ) => (handler e).run τ := by
  rw [catchSql, StateT.run_bind]
  cases hout : body.run.run σ with
  | mk r τ => cases r <;> rfl

theorem run_reporting (label : String) (dflt : α) (body : Sql c α) (σ : DaoState c) :
    (reporting label dflt body).run σ = match body.run.run σ with
      | (.ok a, τ) => (a, τ)
      | (.error e, τ) => (dflt, { τ with lastError := label ++ e }) := by
  rw [reporting, run_catchSql]
  rfl

theorem run_bindSql (body : Sql c α) (f : α → Sql c β) (σ : DaoState c) :
    (body >>= f).run.run σ = match body.run.run σ with
      | (.ok a, τ) => (f a).run.run τ
      | (.error e, τ) => (.error e, τ) := by
  rw [ExceptT.run_bind, StateT.run_bind]
  cases hout : body.run.run σ with
  | mk r τ => cases r <;> rfl

theorem run_liftBindSql (x : Dao c α) (f : α → Sql c β) (σ : DaoState c) :
    ((liftM x : Sql c α) >>= f).run.run σ = (f (x.run σ).1).run.run (x.run σ).2 := by
  rw [run_bindSql]
  rfl

/-- `getAppId` finds the app's number. -/
theorem run_getAppId {a : String} (h : getThrough [.connection, .statement] σ.outcomes = true) :
    (PermissionDAO.getAppId a : Dao c (Option ℕ)).run σ =
      ((σ.db.snapshot.selectAppId a).head?, σ.after.after) := by
  rw [getThrough_connection, getThrough_statement, getThrough_nil, Bool.and_true,
    Bool.and_eq_true] at h
  rw [PermissionDAO.getAppId, run_withConnection h.1]
  change (catchSql _ _).run σ.after = _
  rw [run_catchSql, run_bindSql, run_executeQuery h.2]
  have hhead := head?_eq_of_perm (arrange_perm σ.after.outcome.picks (σ.db.snapshot.selectAppId a))
    (Db.selectAppId_unique _ a)
  exact Prod.ext hhead rfl

/-- Or it has failed, and finds none. -/
theorem run_getAppId_stopped {a : String}
    (h : getThrough [.connection, .statement] σ.outcomes = false) :
    ∃ τ : DaoState c, (PermissionDAO.getAppId a : Dao c (Option ℕ)).run σ = (none, τ) ∧
      τ.db = σ.db := by
  rw [getThrough_connection, getThrough_statement, getThrough_nil, Bool.and_true] at h
  by_cases hconn : σ.outcome.lends = true
  · have hraised : σ.after.outcome.completes = false := by simpa [hconn] using h
    refine ⟨σ.after.after, ?_, rfl⟩
    rw [PermissionDAO.getAppId, run_withConnection hconn]
    change (catchSql _ _).run σ.after = _
    obtain ⟨what, hquery⟩ := run_executeQuery_raised (fun db => db.snapshot.selectAppId a) hraised
    rw [run_catchSql, run_bindSql, hquery]
    rfl
  · have hrefused := run_withConnection_refused (none : Option ℕ)
      (catchSql (do return (← executeQuery fun db => db.snapshot.selectAppId a).head?)
        fun _ => return none) (by simpa using hconn)
    exact ⟨_, Prod.ext hrefused.1 rfl, hrefused.2⟩

end Steps

/-! ## Operations -/

namespace DaoOp
variable {op : DaoOp} {σ τ : DaoState c} {w : Statement} {is : List Interaction}

/-- What an operation does, given what the environment does. -/
structure Exact (op : DaoOp) (is : List Interaction) (σ : DaoState c) (r : Bool) (τ : DaoState c) :
    Prop where
  through : getThrough is σ.outcomes = true → (r, τ.db) = op.apply σ.wallClock σ.db ∧
    (τ.db = σ.db ∨ τ.outcomes = σ.outcomes.drop is.length)
  stopped : getThrough is σ.outcomes = false → τ.db = σ.db

/-- The result of the body of a `try` block whose exceptions are reported as false. -/
def result : Except String Bool → Bool
  | .ok r => r
  | .error _ => false

namespace Exact
variable {r : Bool} {i : Interaction}

/-- What is asked for first is granted. -/
theorem cons (hi : i.passes σ.outcome = true) (h : Exact op is σ.after r τ) :
    Exact op (i :: is) σ r τ := by
  have hcons : getThrough (i :: is) σ.outcomes = getThrough is σ.after.outcomes := by
    rw [getThrough_cons, hi, Bool.true_and]
  constructor
  · intro hg
    have hout := h.through (hcons ▸ hg)
    simpa using hout
  · intro hg
    exact h.stopped (hcons ▸ hg)

/-- Not all that is asked for is granted. -/
theorem of_stopped (hg : getThrough is σ.outcomes = false) (hdb : τ.db = σ.db) :
    Exact op is σ r τ :=
  ⟨fun hg' => by simp [hg] at hg', fun _ => hdb⟩

/-- A row that is needed is not there. -/
theorem of_unplanned (hidle : op.idle = false) (hplan : op.plan σ.wallClock σ.db = none)
    (hdb : τ.db = σ.db) : Exact op is σ false τ :=
  ⟨fun _ => ⟨by simp [apply, hidle, hplan, hdb], Or.inl hdb⟩, fun _ => hdb⟩

theorem of_idle (hidle : op.idle = true) (hdb : τ.db = σ.db) : Exact op is σ true τ :=
  ⟨fun _ => ⟨by simp [apply, hidle, hdb], Or.inl hdb⟩, fun _ => hdb⟩

end Exact

/-- The connection and the `catch` clause around a body. -/
theorem exact_of_body {label : String} {body : Sql c Bool}
    (h : Exact op is σ.after (result (body.run.run σ.after).1) (body.run.run σ.after).2) :
    Exact op (.connection :: is) σ ((withConnection false (reporting label false body)).run σ).1
      ((withConnection false (reporting label false body)).run σ).2 := by
  by_cases hconn : σ.outcome.lends = true
  · have hrun : (withConnection false (reporting label false body)).run σ =
        (reporting label false body).run σ.after := run_withConnection hconn
    rw [hrun, run_reporting]
    refine .cons hconn ?_
    generalize body.run.run σ.after = out at h ⊢
    obtain ⟨r, υ⟩ := out
    cases r with
    | ok r => exact h
    | error e => exact ⟨h.through, h.stopped⟩
  · have hrefused := run_withConnection_refused false (reporting label false body)
      (by simpa using hconn)
    refine .of_stopped ?_ hrefused.2
    rw [getThrough_connection, Bool.eq_false_iff.mpr hconn, Bool.false_and]

/-- The last step of a body: its statement, and the judgement of the report. -/
theorem exact_of_executeUpdate {judge : ℕ → Sql c Bool} (hidle : op.idle = false)
    (hplan : op.plan σ.wallClock σ.db = some w)
    (hj : ∀ rows τ, result ((judge rows).run.run τ).1 = op.verdict rows ∧
      ((judge rows).run.run τ).2.db = τ.db ∧ ((judge rows).run.run τ).2.outcomes = τ.outcomes) :
    Exact op [.statement] σ (result ((executeUpdate w >>= judge).run.run σ).1)
      ((executeUpdate w >>= judge).run.run σ).2 := by
  have hget : getThrough [.statement] σ.outcomes = σ.outcome.completes := by
    rw [getThrough_statement, getThrough_nil, Bool.and_true]
  rw [run_bindSql]
  constructor
  · intro hg
    rw [run_executeUpdate (by rwa [hget] at hg), sent]
    cases hexec : w.exec (dateTime σ.wallClock) σ.db with
    | error refusal =>
        refine ⟨?_, Or.inl rfl⟩
        simp [apply, hidle, hplan, hexec, result]
    | ok x =>
        obtain ⟨rows, db⟩ := x
        have hjudge := hj rows { σ.after with db := db }
        refine ⟨?_, Or.inr ?_⟩
        · have happly : op.apply σ.wallClock σ.db = (op.verdict rows, db) := by
            simp [apply, hidle, hplan, hexec]
          rw [happly]
          exact Prod.ext hjudge.1 hjudge.2.1
        · exact hjudge.2.2.trans List.drop_one.symm
  · intro hg
    obtain ⟨what, hraised⟩ := run_executeUpdate_raised (w := w) (by rwa [hget] at hg)
    rw [hraised]
    rfl

/-- What such a body does is up to what `getAppId` finds. -/
theorem run_sendInApp (a e : String) (w : ℕ → Statement) (judge : ℕ → Sql c Bool)
    (σ : DaoState c) :
    (sendInApp a e w judge).run.run σ = (match ((PermissionDAO.getAppId a).run σ).1 with
      | some appId => executeUpdate (w appId) >>= judge
      | none => refuse e : Sql c Bool).run.run ((PermissionDAO.getAppId a).run σ).2 := by
  refine (run_liftBindSql (PermissionDAO.getAppId a) _ σ).trans ?_
  cases ((PermissionDAO.getAppId a).run σ).1 <;> rfl

theorem exact_of_getAppId {a e : String} {w : ℕ → Statement} {judge : ℕ → Sql c Bool}
    (hidle : op.idle = false)
    (hplan : ∀ t (db : Db c), op.plan t db = (db.snapshot.selectAppId a).head?.map w)
    (hj : ∀ rows τ, result ((judge rows).run.run τ).1 = op.verdict rows ∧
      ((judge rows).run.run τ).2.db = τ.db ∧ ((judge rows).run.run τ).2.outcomes = τ.outcomes)
    (σ : DaoState c) :
    Exact op [.connection, .statement, .statement] σ
      (result ((sendInApp a e w judge).run.run σ).1) ((sendInApp a e w judge).run.run σ).2 := by
  rw [run_sendInApp]
  by_cases hfound : getThrough [.connection, .statement] σ.outcomes = true
  · have hpass := hfound
    rw [getThrough_connection, getThrough_statement, getThrough_nil, Bool.and_true,
      Bool.and_eq_true] at hpass
    rw [run_getAppId hfound]
    refine .cons hpass.1 (.cons hpass.2 ?_)
    cases hhead : (σ.db.snapshot.selectAppId a).head? with
    | none => exact .of_unplanned hidle (by simp [hplan, hhead]) rfl
    | some appId => exact exact_of_executeUpdate hidle (by simp [hplan, hhead]) hj
  · obtain ⟨τ, hrun, hdb⟩ := run_getAppId_stopped (a := a) (by simpa using hfound)
    rw [hrun]
    refine .of_stopped ?_ hdb
    have hstop : getThrough [.connection, .statement] σ.outcomes = false := by simpa using hfound
    rw [getThrough_connection, getThrough_statement, getThrough_nil, Bool.and_true] at hstop
    rw [getThrough_connection, getThrough_statement, ← Bool.and_assoc, hstop, Bool.false_and]

/-- A lookup that a body begins with. -/
theorem exact_of_executeQuery {α : Type} (rows : Db c → List α) (f : Option α → Sql c Bool)
    (hunique : ∀ db, ∀ x ∈ rows db, ∀ y ∈ rows db, x = y)
    (h : Exact op is σ.after (result ((f (rows σ.db).head?).run.run σ.after).1)
      ((f (rows σ.db).head?).run.run σ.after).2) :
    Exact op (.statement :: is) σ
      (result ((executeQuery rows >>= fun xs => f xs.head?).run.run σ).1)
      ((executeQuery rows >>= fun xs => f xs.head?).run.run σ).2 := by
  rw [run_bindSql]
  by_cases hpass : σ.outcome.completes = true
  · rw [run_executeQuery hpass]
    have hhead : (arrange σ.outcome.picks (rows σ.db)).head? = (rows σ.db).head? :=
      head?_eq_of_perm (arrange_perm _ _) (hunique _)
    refine .cons hpass ?_
    rw [← hhead] at h
    exact h
  · obtain ⟨what, hraised⟩ := run_executeQuery_raised rows (by simpa using hpass)
    rw [hraised]
    refine .of_stopped ?_ rfl
    rw [getThrough_statement, Bool.eq_false_iff.mpr hpass, Bool.false_and]

theorem judged_true {op : DaoOp} (hv : ∀ rows, op.verdict rows = true) (rows : ℕ) (τ : DaoState c) :
    result ((pure true : Sql c Bool).run.run τ).1 = op.verdict rows ∧
      ((pure true : Sql c Bool).run.run τ).2.db = τ.db ∧
      ((pure true : Sql c Bool).run.run τ).2.outcomes = τ.outcomes :=
  ⟨(hv rows).symm, rfl, rfl⟩

theorem judged_positive {op : DaoOp} (hv : ∀ rows, op.verdict rows = decide (0 < rows)) (rows : ℕ)
    (τ : DaoState c) :
    result ((pure (decide (0 < rows)) : Sql c Bool).run.run τ).1 = op.verdict rows ∧
      ((pure (decide (0 < rows)) : Sql c Bool).run.run τ).2.db = τ.db ∧
      ((pure (decide (0 < rows)) : Sql c Bool).run.run τ).2.outcomes = τ.outcomes :=
  ⟨(hv rows).symm, rfl, rfl⟩

theorem judged_deleted {op : DaoOp} {e : String}
    (hv : ∀ rows, op.verdict rows = decide (0 < rows)) (rows : ℕ) (τ : DaoState c) :
    let judge : Sql c Bool := if rows = 0 then refuse e else return true
    result (judge.run.run τ).1 = op.verdict rows ∧ (judge.run.run τ).2.db = τ.db ∧
      (judge.run.run τ).2.outcomes = τ.outcomes := by
  intro judge
  by_cases hrows : rows = 0
  · have hjudge : judge = refuse e := if_pos hrows
    rw [hjudge, hv, hrows]
    exact ⟨rfl, rfl, rfl⟩
  · have hjudge : judge = pure true := if_neg hrows
    rw [hjudge, hv, decide_eq_true (Nat.pos_of_ne_zero hrows)]
    exact ⟨rfl, rfl, rfl⟩

/-- `createApp` returns a pair; but for the secret it is like the others. -/
theorem run_createApp (n a d : String) (σ : DaoState c) : (createApp n a d).run.run σ =
    (withConnection false (reporting "创建应用失败: " false (do
      let _ ← executeUpdate (.insertApp n a ("secret_" ++ a ++ "_" ++ toString σ.wallClock) d)
      return true)) : Dao c Bool).run σ := by
  obtain ⟨secret, hsecret⟩ : ∃ s, s = "secret_" ++ a ++ "_" ++ toString σ.wallClock := ⟨_, rfl⟩
  by_cases hconn : σ.outcome.lends = true
  · have hrun : (PermissionDAO.createApp n a d).run σ =
        (reporting "创建应用失败: " (false, secret) (do
          let _ ← executeUpdate (.insertApp n a secret d)
          return (true, secret))).run σ.after := by
      rw [hsecret]
      exact run_withConnection hconn
    have hfst : (createApp n a d).run.run σ = (((PermissionDAO.createApp n a d).run σ).1.1,
      ((PermissionDAO.createApp n a d).run σ).2) := rfl
    rw [hfst, hrun, run_withConnection hconn, ← hsecret]
    change _ = (reporting _ _ _).run σ.after
    rw [run_reporting, run_reporting, run_bindSql, run_bindSql]
    generalize (executeUpdate (.insertApp n a secret d) : Sql c ℕ).run.run σ.after = out
    obtain ⟨r, υ⟩ := out
    cases r <;> rfl
  · cases hout : σ.outcomes with
    | nil => simp [DaoState.outcome, hout, Outcome.lends] at hconn
    | cons o os =>
        cases o with
        | refused what =>
            obtain ⟨db, e, outcomes, wallClock⟩ := σ
            obtain rfl : outcomes = .refused what :: os := hout
            cases what <;> rfl
        | _ => simp [DaoState.outcome, hout, Outcome.lends] at hconn

/-- What `assignRoleToUser` does with the role that it has found. -/
def assignFound (userId : String) (role? : Option SysRole) : Sql c Bool := do
  let some role := role? | refuse "角色不存在"
  let _ ← executeUpdate (.insertUserRole role.appId userId role.id)
  return true

/-- What `addPermissionToRole` does with the permission that it has found. -/
def addFound (role : SysRole) (perm? : Option SysPermission) : Sql c Bool := do
  let some perm := perm? | refuse "权限不存在"
  let _ ← executeUpdate (.insertRolePermission role.id perm.id)
  return true

/-- What `addPermissionToRole` does with the role that it has found. -/
def addToFound (appCode permKey : String) (role? : Option SysRole) : Sql c Bool := do
  let some role := role? | refuse "角色不存在"
  let perms ← executeQuery fun db => db.snapshot.selectPermission appCode permKey
  addFound role perms.head?

/-- **What an operation does, given what the environment does.** -/
theorem run_exact (op : DaoOp) (σ : DaoState c) :
    Exact op op.interactions σ (op.run.run σ).1 (op.run.run σ).2 := by
  cases op with
  | createApp n a d =>
      rw [run_createApp]
      exact exact_of_body (exact_of_executeUpdate rfl rfl (judged_true fun _ => rfl))
  | updateApp a n d st =>
      refine exact_of_body ?_
      by_cases hidle : (updateApp a n d st).idle = true
      · simp only [idle] at hidle
        simp only [hidle, if_true]
        exact .of_idle hidle rfl
      · have hidle' := hidle
        simp only [idle] at hidle'
        simp only [hidle']
        exact exact_of_executeUpdate (by simpa using hidle) rfl (judged_positive fun _ => rfl)
  | deleteApp a =>
      exact exact_of_body (exact_of_executeUpdate rfl rfl (judged_positive fun _ => rfl))
  | createRole a n k d df =>
      exact exact_of_body (exact_of_getAppId rfl (fun _ _ => rfl) (judged_true fun _ => rfl) _)
  | updateRole a k n d df =>
      exact exact_of_body (exact_of_getAppId rfl (fun _ _ => rfl) (judged_true fun _ => rfl) _)
  | deleteRole a k =>
      exact exact_of_body (exact_of_getAppId rfl (fun _ _ => rfl) (judged_deleted fun _ => rfl) _)
  | createPermission a n k d =>
      exact exact_of_body (exact_of_getAppId rfl (fun _ _ => rfl) (judged_true fun _ => rfl) _)
  | updatePermission a k n d =>
      exact exact_of_body (exact_of_getAppId rfl (fun _ _ => rfl) (judged_true fun _ => rfl) _)
  | deletePermission a k =>
      exact exact_of_body (exact_of_getAppId rfl (fun _ _ => rfl) (judged_deleted fun _ => rfl) _)
  | assignRoleToUser a u k =>
      refine exact_of_body ?_
      generalize σ.after = τ
      refine exact_of_executeQuery (fun db => db.snapshot.selectRole a k) (assignFound u)
        (fun db => db.selectRole_unique a k) ?_
      cases hrole : (τ.db.snapshot.selectRole a k).head? with
      | none => exact .of_unplanned rfl (by simp [plan, hrole]) rfl
      | some role =>
          exact exact_of_executeUpdate rfl (by simp [plan, hrole]) (judged_true fun _ => rfl)
  | removeRoleFromUser a u k =>
      exact exact_of_body (exact_of_executeUpdate rfl rfl (judged_positive fun _ => rfl))
  | addPermissionToRole a k p =>
      refine exact_of_body ?_
      generalize σ.after = τ
      refine exact_of_executeQuery (fun db => db.snapshot.selectRole a k) (addToFound a p)
        (fun db => db.selectRole_unique a k) ?_
      cases hrole : (τ.db.snapshot.selectRole a k).head? with
      | none => exact .of_unplanned rfl (by simp [plan, hrole]) rfl
      | some role =>
          refine exact_of_executeQuery (fun db => db.snapshot.selectPermission a p) (addFound role)
            (fun db => db.selectPermission_unique a p) ?_
          rw [DaoState.db_after]
          cases hperm : (τ.db.snapshot.selectPermission a p).head? with
          | none => exact .of_unplanned rfl (by simp [plan, hrole, hperm]) rfl
          | some perm =>
              exact exact_of_executeUpdate rfl (by simp [plan, hrole, hperm])
                (judged_true fun _ => rfl)
  | removePermissionFromRole a k p =>
      exact exact_of_body (exact_of_executeUpdate rfl rfl (judged_positive fun _ => rfl))

/-- Only what gets through and writes changes a row. -/
theorem run_of_not_writes {op : DaoOp} {σ : DaoState c}
    (h : ¬ (getThrough op.interactions σ.outcomes = true ∧ op.Writes σ.wallClock σ.db)) :
    (op.run.run σ).2.db = σ.db := by
  have hexact := op.run_exact σ
  by_cases hget : getThrough op.interactions σ.outcomes = true
  · have hdb := congrArg Prod.snd (hexact.through hget).1
    refine hdb.trans ?_
    have hw : ¬ op.Writes σ.wallClock σ.db := fun hw => h ⟨hget, hw⟩
    by_cases hv : op.Vacuous σ.wallClock σ.db
    · rw [apply_of_vacuous hv]
    · rw [apply_of_neither hw hv]
  · exact hexact.stopped (by simpa using hget)

/-- What gets through and writes reports success, changes a row, and has used up what it
asked for. -/
theorem run_of_writes {op : DaoOp} {σ : DaoState c}
    (hget : getThrough op.interactions σ.outcomes = true) (hw : op.Writes σ.wallClock σ.db) :
    (op.run.run σ).1 = true ∧ (op.run.run σ).2.db.snapshot ≠ σ.db.snapshot ∧
      (op.run.run σ).2.outcomes = σ.outcomes.drop op.interactions.length := by
  obtain ⟨happly, hout⟩ := (op.run_exact σ).through hget
  obtain ⟨hok, hne⟩ := apply_of_writes hw
  rw [← happly] at hok hne
  refine ⟨hok, hne, hout.resolve_left fun hdb => ?_⟩
  exact hne (congrArg Db.snapshot hdb)

theorem sysAuditLogs_apply (t : ℤ) (db : Db c) (op : DaoOp) :
    (op.apply t db).2.sysAuditLogs = db.sysAuditLogs := by
  by_cases hidle : op.idle = true
  · simp [apply, hidle]
  · cases hplan : op.plan t db with
    | none => simp [apply, hidle, hplan]
    | some w =>
        cases hexec : w.exec (dateTime t) db with
        | error e => simp [apply, hidle, hplan, hexec]
        | ok x =>
            obtain ⟨rows, db'⟩ := x
            have hlogs := Statement.sysAuditLogs_write (plan_ne_insertAuditLog hplan)
              (Statement.write_of_exec hexec)
            simp [apply, hidle, hplan, hexec, hlogs]

/-- No operation writes to the audit log. -/
theorem sysAuditLogs_run (op : DaoOp) (σ : DaoState c) :
    (op.run.run σ).2.db.sysAuditLogs = σ.db.sysAuditLogs := by
  by_cases hget : getThrough op.interactions σ.outcomes = true
  · have hdb := congrArg Prod.snd ((op.run_exact σ).through hget).1
    exact (congrArg Db.sysAuditLogs hdb).trans (sysAuditLogs_apply _ _ _)
  · rw [(op.run_exact σ).stopped (by simpa using hget)]

end DaoOp

/-! ## The audit log -/

/-- The columns of the audit log hold the values of an entry. -/
def AuditEntry.Fits (e : AuditEntry) : Prop := (Statement.insertAuditLog e).overflow = none

instance (e : AuditEntry) : Decidable e.Fits := inferInstanceAs (Decidable (_ = none))

/-- An audit row is written if its entry fits and its connection and statement get
through. -/
def AuditEntry.Gets (e : AuditEntry) (os : List Outcome) : Prop :=
  e.Fits ∧ getThrough [.connection, .statement] os = true

instance (e : AuditEntry) (os : List Outcome) : Decidable (e.Gets os) :=
  inferInstanceAs (Decidable (_ ∧ _))

theorem run_createAuditLog {e : AuditEntry} {σ : DaoState c} (h : e.Gets σ.outcomes) :
    ∃ id now, ((PermissionDAO.createAuditLog e).run σ).2.db.sysAuditLogs.rows =
        σ.db.sysAuditLogs.rows ++ [e.row id now] ∧
      ((PermissionDAO.createAuditLog e).run σ).2.db.snapshot = σ.db.snapshot := by
  obtain ⟨hfits, hget⟩ := h
  rw [getThrough_connection, getThrough_statement, getThrough_nil, Bool.and_true,
    Bool.and_eq_true] at hget
  obtain ⟨t, ht⟩ := Table.exists_insert σ.db.sysAuditLogs
    (fun id => e.row id (dateTime σ.wallClock)) (fun _ => rfl) fun _ _ => rfl
  have hexec : (Statement.insertAuditLog e).exec (dateTime σ.wallClock) σ.db =
      .ok (1, { σ.db with sysAuditLogs := t }) := by
    rw [Statement.exec_of_admitted (Or.inl hfits)]
    exact congrArg (inserted (.duplicateEntry "" "PRIMARY") fun t =>
      { σ.db with sysAuditLogs := t }) ht
  have hsent : sent (.insertAuditLog e) σ.after =
      (.ok 1, { σ.after.after with db := { σ.db with sysAuditLogs := t } }) := by
    simp [sent, hexec]
  rw [PermissionDAO.createAuditLog, run_withConnection hget.1]
  change ∃ id now, ((catchSql _ _).run σ.after).2.db.sysAuditLogs.rows = _ ∧
    ((catchSql _ _).run σ.after).2.db.snapshot = _
  rw [run_catchSql, run_bindSql, run_executeUpdate hget.2, hsent]
  exact ⟨_, _, (Table.insert_eq_some ht).1, rfl⟩

theorem run_createAuditLog_stopped {e : AuditEntry} {σ : DaoState c} (h : ¬ e.Gets σ.outcomes) :
    ((PermissionDAO.createAuditLog e).run σ).2.db = σ.db := by
  by_cases hconn : σ.outcome.lends = true
  · rw [PermissionDAO.createAuditLog, run_withConnection hconn]
    change ((catchSql _ _).run σ.after).2.db = _
    rw [run_catchSql, run_bindSql]
    by_cases hpass : σ.after.outcome.completes = true
    · have hfits : ¬ (Statement.insertAuditLog e).Admitted σ.db := by
        rintro (hfits | hstores)
        · refine h ⟨hfits, ?_⟩
          rw [getThrough_connection, getThrough_statement, hconn, hpass, getThrough_nil]
          rfl
        · exact absurd hstores (by simp [Statement.stores])
      obtain ⟨refusal, hexec⟩ := Statement.exec_of_not_admitted (dateTime σ.wallClock) hfits
      have hsent : sent (.insertAuditLog e) σ.after = (.error refusal.what, σ.after.after) := by
        simp [sent, hexec]
      rw [run_executeUpdate hpass, hsent]
      rfl
    · obtain ⟨what, hraised⟩ := run_executeUpdate_raised (σ := σ.after)
        (w := .insertAuditLog e) (by simpa using hpass)
      rw [hraised]
      rfl
  · exact (run_withConnection_refused _ _ (by simpa using hconn)).2

end SiqiAuth
