import SiqiAuth.Lib.Pool
import SiqiAuth.Store.Interaction

/-!
# Operations in steps

The writing operations of the DAO as threads over one set of tables.  A step asks the
environment for a connection, or sends one statement and takes in its answer; other
threads can run between any two of them, and no transaction holds the steps of an
operation together.  Taken one after the other, they are the operation.

## Main definitions

* `Progress` — where an operation stands, with what it has learned so far.
* `Progress.next` — its next step.
* `DaoThread`, `Db.step` — an operation with its environment; a move of the scheduler.
* `solo_eq_call` — an operation that runs alone does what `DaoState.call` says.
-/

namespace SiqiAuth
open Lib

variable {c : Collation}

/-- Where an operation stands. -/
inductive Progress
  /-- Before its connection. -/
  | called
  /-- Before the connection of `getAppId`. -/
  | getAppId
  | selectAppId
  | selectRole
  /-- Before the lookup of a permission for the role it has found. -/
  | selectPermission (role : SysRole)
  | send (w : Statement)
  | returned (r : Bool)
  deriving DecidableEq, Repr

namespace DaoOp

/-- What an operation goes on to with its connection. -/
def begin (wallClock : ℤ) : DaoOp → Progress
  | createApp n a d => .send (.insertApp n a ("secret_" ++ a ++ "_" ++ toString wallClock) d)
  | updateApp a n d st =>
      if n.isNone && d.isNone && st.isNone then .returned true else .send (.updateApp a n d st)
  | deleteApp a => .send (.deleteApp a)
  | removeRoleFromUser a u k => .send (.deleteUserRole a u k)
  | removePermissionFromRole a k p => .send (.deleteRolePermission a k p)
  | assignRoleToUser .. | addPermissionToRole .. => .selectRole
  | _ => .getAppId

/-- What it goes on to with the number of its app. -/
def withAppId (appId : ℕ) : DaoOp → Progress
  | createRole _ n k d df => .send (.insertRole appId n k d df)
  | updateRole _ k n d df => .send (.updateRole appId k n d df)
  | deleteRole _ k => .send (.deleteRole appId k)
  | createPermission _ n k d => .send (.insertPermission appId n k d)
  | updatePermission _ k n d => .send (.updatePermission appId k n d)
  | deletePermission _ k => .send (.deletePermission appId k)
  | _ => .returned false

/-- The rows of its lookup of a role, and what it goes on to with the role found. -/
def roles (s : Snapshot c) : DaoOp → List SysRole
  | assignRoleToUser a _ k | addPermissionToRole a k _ => s.selectRole a k
  | _ => []

def withRole (role : SysRole) : DaoOp → Progress
  | assignRoleToUser _ u _ => .send (.insertUserRole role.appId u role.id)
  | addPermissionToRole .. => .selectPermission role
  | _ => .returned false

/-- The rows of its lookup of a permission, and what it goes on to with the permission
found. -/
def permissions (s : Snapshot c) : DaoOp → List SysPermission
  | addPermissionToRole a _ p => s.selectPermission a p
  | _ => []

def withPermission (role : SysRole) (perm : SysPermission) : Progress :=
  .send (.insertRolePermission role.id perm.id)

end DaoOp

namespace Progress

/-- What a lookup goes on to: it takes the first row of the answer. -/
def lookup {α : Type} (o : Outcome) (rows : List α) (f : α → Progress) : Progress :=
  if o.completes then
    match (arrange o.picks rows).head? with
    | some x => f x
    | none => .returned false
  else .returned false

/-- The next step of an operation. -/
def next (op : DaoOp) (wallClock : ℤ) (o : Outcome) (db : Db c) : Progress → Progress × Db c
  | called => (if o.lends then op.begin wallClock else returned false, db)
  | getAppId => (if o.lends then selectAppId else returned false, db)
  | selectAppId => (lookup o (db.snapshot.selectAppId op.appCode) fun appId => op.withAppId appId, db)
  | selectRole => (lookup o (op.roles db.snapshot) fun role => op.withRole role, db)
  | selectPermission role => (lookup o (op.permissions db.snapshot) (DaoOp.withPermission role), db)
  | send w =>
      if o.completes then
        match w.exec (dateTime wallClock) db with
        | .ok (rows, db') => (returned (op.verdict rows), db')
        | .error _ => (returned false, db)
      else (returned false, db)
  | returned r => (returned r, db)

end Progress

/-- A call, and how far it has got. -/
structure DaoThread where
  call : DaoCall
  progress : Progress

namespace DaoThread

def init (x : DaoCall) : DaoThread := ⟨x, .called⟩

/-- The next step of a thread, which uses up one outcome of its environment. -/
def next (t : DaoThread) (db : Db c) : DaoThread × Db c :=
  let (progress, db') :=
    t.progress.next t.call.op t.call.wallClock (t.call.outcomes.headD (.answered [])) db
  (⟨{ t.call with outcomes := t.call.outcomes.tail }, progress⟩, db')

end DaoThread

/-- A move of the scheduler. -/
def Db.step : Pool (Db c) DaoThread → Move DaoCall → Pool (Db c) DaoThread :=
  Pool.step DaoThread.init DaoThread.next

/-! ## Operations that run alone -/

namespace Progress
variable {op : DaoOp} {σ : DaoState c} {p : Progress} {r : Bool} {db db' : Db c} {n : ℕ}

/-- From `p` on, `n` steps of the operation before the environment of `σ` end it. -/
def Ends (op : DaoOp) (n : ℕ) (p : Progress) (σ : DaoState c) (r : Bool) (db' : Db c) : Prop :=
  ∃ os, (fun x : DaoThread × Db c => x.1.next x.2)^[n] (⟨⟨op, σ.outcomes, σ.wallClock⟩, p⟩, σ.db) =
    (⟨⟨op, os, σ.wallClock⟩, .returned r⟩, db')

theorem Ends.of_returned (op : DaoOp) (n : ℕ) (σ : DaoState c) (r : Bool) :
    Ends op n (.returned r) σ r σ.db := by
  induction n generalizing σ with
  | zero => exact ⟨σ.outcomes, rfl⟩
  | succ n ih => exact ih σ.after

theorem Ends.step {p' : Progress} {db₁ : Db c}
    (hp : p.next op σ.wallClock σ.outcome σ.db = (p', db₁))
    (h : Ends op n p' { σ.after with db := db₁ } r db') : Ends op (n + 1) p σ r db' := by
  obtain ⟨os, hos⟩ := h
  refine ⟨os, ?_⟩
  have hnext : DaoThread.next ⟨⟨op, σ.outcomes, σ.wallClock⟩, p⟩ σ.db =
      (⟨⟨op, σ.after.outcomes, σ.wallClock⟩, p'⟩, db₁) := by
    simp only [DaoThread.next]
    rw [show σ.outcomes.headD (.answered []) = σ.outcome from rfl, hp]
    rfl
  rw [Function.iterate_succ_apply, hnext]
  exact hos

/-- A step that leaves the tables alone. -/
theorem Ends.read {p' : Progress} (hp : p.next op σ.wallClock σ.outcome σ.db = (p', σ.db))
    (h : Ends op n p' σ.after r db') : Ends op (n + 1) p σ r db' :=
  .step hp h

/-- The last step, if it leaves the tables alone. -/
theorem Ends.stop (hp : p.next op σ.wallClock σ.outcome σ.db = (.returned r, σ.db)) :
    Ends op (n + 1) p σ r σ.db :=
  .read hp (.of_returned op n σ.after r)

/-- The writing statement, and the judgement of its report. -/
theorem ends_send {w : Statement} {judge : ℕ → Sql c Bool}
    (hj : ∀ rows τ, DaoOp.result ((judge rows).run.run τ).1 = op.verdict rows ∧
      ((judge rows).run.run τ).2.db = τ.db ∧ ((judge rows).run.run τ).2.outcomes = τ.outcomes) :
    Ends op (n + 1) (.send w) σ (DaoOp.result ((executeUpdate w >>= judge).run.run σ).1)
      ((executeUpdate w >>= judge).run.run σ).2.db := by
  rw [run_bindSql]
  by_cases hpass : σ.outcome.completes = true
  · rw [run_executeUpdate hpass, sent]
    cases hexec : w.exec (dateTime σ.wallClock) σ.db with
    | error refusal => exact .stop (by simp [next, hpass, hexec, DaoOp.result])
    | ok x =>
        obtain ⟨rows, db⟩ := x
        have hjudge := hj rows { σ.after with db := db }
        rw [hjudge.1, hjudge.2.1]
        exact .step (by simp [next, hpass, hexec]) (.of_returned op n _ _)
  · obtain ⟨what, hraised⟩ := run_executeUpdate_raised (w := w) (by simpa using hpass)
    rw [hraised]
    exact .stop (by simp [next, hpass, DaoOp.result])

/-- A lookup that a body begins with. -/
theorem ends_lookup {α : Type} (rows : Db c → List α) (f : Option α → Sql c Bool) {g : α → Progress}
    (hp : p.next op σ.wallClock σ.outcome σ.db = (lookup σ.outcome (rows σ.db) g, σ.db))
    (hnone : ∀ τ : DaoState c, DaoOp.result ((f none).run.run τ).1 = false ∧
      ((f none).run.run τ).2.db = τ.db)
    (hsome : ∀ x, Ends op n (g x) σ.after (DaoOp.result ((f (some x)).run.run σ.after).1)
      ((f (some x)).run.run σ.after).2.db) :
    Ends op (n + 1) p σ (DaoOp.result ((executeQuery rows >>= fun xs => f xs.head?).run.run σ).1)
      ((executeQuery rows >>= fun xs => f xs.head?).run.run σ).2.db := by
  rw [run_bindSql]
  by_cases hpass : σ.outcome.completes = true
  · rw [run_executeQuery hpass]
    cases hhead : (arrange σ.outcome.picks (rows σ.db)).head? with
    | none =>
        simp only [lookup, hpass, hhead, if_true] at hp
        simp only [hhead, hnone]
        exact .stop hp
    | some x =>
        simp only [lookup, hpass, hhead, if_true] at hp
        simp only [hhead]
        exact .read hp (hsome x)
  · obtain ⟨what, hraised⟩ := run_executeQuery_raised rows (by simpa using hpass)
    rw [hraised]
    refine .stop (hp.trans ?_)
    simp [lookup, hpass, DaoOp.result]

/-- The connection and the `catch` clause around a body. -/
theorem ends_body {label : String} {body : Sql c Bool}
    (h : Ends op n (op.begin σ.wallClock) σ.after (DaoOp.result (body.run.run σ.after).1)
      (body.run.run σ.after).2.db) :
    Ends op (n + 1) .called σ ((withConnection false (reporting label false body)).run σ).1
      ((withConnection false (reporting label false body)).run σ).2.db := by
  by_cases hconn : σ.outcome.lends = true
  · have hrun : (withConnection false (reporting label false body)).run σ =
        (reporting label false body).run σ.after := run_withConnection hconn
    have hstep : next op σ.wallClock σ.outcome σ.db .called = (op.begin σ.wallClock, σ.db) := by
      simp [next, hconn]
    rw [hrun, run_reporting]
    refine .read hstep ?_
    generalize body.run.run σ.after = out at h ⊢
    obtain ⟨r, υ⟩ := out
    cases r with
    | ok r => exact h
    | error e => exact h
  · obtain ⟨hfst, hdb⟩ := run_withConnection_refused false (reporting label false body)
      (by simpa using hconn)
    rw [hfst, hdb]
    exact .stop (by simp [next, hconn])

/-- The lookup of the app's number on a connection of its own, and the writing statement. -/
theorem ends_getAppId {e : String} {w : ℕ → Statement} {judge : ℕ → Sql c Bool}
    (hw : ∀ appId, op.withAppId appId = .send (w appId))
    (hj : ∀ rows τ, DaoOp.result ((judge rows).run.run τ).1 = op.verdict rows ∧
      ((judge rows).run.run τ).2.db = τ.db ∧ ((judge rows).run.run τ).2.outcomes = τ.outcomes) :
    Ends op (n + 3) .getAppId σ
      (DaoOp.result ((DaoOp.sendInApp op.appCode e w judge).run.run σ).1)
      ((DaoOp.sendInApp op.appCode e w judge).run.run σ).2.db := by
  rw [DaoOp.run_sendInApp]
  by_cases hget : getThrough [.connection, .statement] σ.outcomes = true
  · rw [run_getAppId hget]
    rw [getThrough_connection, getThrough_statement, getThrough_nil, Bool.and_true,
      Bool.and_eq_true] at hget
    have hfirst : next op σ.wallClock σ.outcome σ.db .getAppId = (.selectAppId, σ.db) := by
      simp [next, hget.1]
    have hhead : (arrange σ.after.outcome.picks (σ.db.snapshot.selectAppId op.appCode)).head? =
        (σ.db.snapshot.selectAppId op.appCode).head? :=
      head?_eq_of_perm (arrange_perm _ _) (Db.selectAppId_unique _ _)
    refine .read hfirst ?_
    cases hrow : (σ.db.snapshot.selectAppId op.appCode).head? with
    | none =>
        have hstop : next op σ.wallClock σ.after.outcome σ.db .selectAppId =
            (.returned false, σ.db) := by
          simp [next, lookup, hget.2, hhead, hrow]
        exact .stop hstop
    | some appId =>
        have hsecond : next op σ.wallClock σ.after.outcome σ.db .selectAppId =
            (.send (w appId), σ.db) := by
          simp [next, lookup, hget.2, hhead, hrow, hw]
        exact .read hsecond (ends_send hj)
  · obtain ⟨τ, hrun, hdb⟩ := run_getAppId_stopped (a := op.appCode) (by simpa using hget)
    rw [hrun]
    change Ends op (n + 3) .getAppId σ false τ.db
    rw [hdb]
    by_cases hconn : σ.outcome.lends = true
    · have hraised : ¬ σ.after.outcome.completes = true := by
        rwa [getThrough_connection, getThrough_statement, getThrough_nil, hconn, Bool.and_true,
          Bool.true_and] at hget
      have hfirst : next op σ.wallClock σ.outcome σ.db .getAppId = (.selectAppId, σ.db) := by
        simp [next, hconn]
      exact .read hfirst (.stop (by simp [next, lookup, hraised]))
    · exact .stop (by simp [next, hconn])

end Progress

/-- **An operation ends within four steps**, and what it returns and leaves behind when
nothing runs in between is what its function returns and leaves behind. -/
theorem DaoOp.ends (op : DaoOp) (σ : DaoState c) :
    Progress.Ends op 4 .called σ (op.run.run σ).1 (op.run.run σ).2.db := by
  cases op with
  | createApp n a d =>
      rw [run_createApp]
      exact Progress.ends_body (Progress.ends_send (judged_true fun _ => rfl))
  | updateApp a n d st =>
      refine Progress.ends_body ?_
      by_cases hidle : (n.isNone && d.isNone && st.isNone) = true
      · simp only [begin, hidle, if_true]
        exact Progress.Ends.of_returned _ 3 _ _
      · simp only [begin, hidle]
        exact Progress.ends_send (judged_positive fun _ => rfl)
  | deleteApp a =>
      exact Progress.ends_body (Progress.ends_send (judged_positive fun _ => rfl))
  | createRole a n k d df =>
      exact Progress.ends_body
        (Progress.ends_getAppId (fun _ => rfl) (judged_true fun _ => rfl))
  | updateRole a k n d df =>
      exact Progress.ends_body
        (Progress.ends_getAppId (fun _ => rfl) (judged_true fun _ => rfl))
  | deleteRole a k =>
      exact Progress.ends_body
        (Progress.ends_getAppId (fun _ => rfl) (judged_deleted fun _ => rfl))
  | createPermission a n k d =>
      exact Progress.ends_body
        (Progress.ends_getAppId (fun _ => rfl) (judged_true fun _ => rfl))
  | updatePermission a k n d =>
      exact Progress.ends_body
        (Progress.ends_getAppId (fun _ => rfl) (judged_true fun _ => rfl))
  | deletePermission a k =>
      exact Progress.ends_body
        (Progress.ends_getAppId (fun _ => rfl) (judged_deleted fun _ => rfl))
  | assignRoleToUser a u k =>
      refine Progress.ends_body ?_
      generalize σ.after = τ
      refine Progress.ends_lookup (fun db => db.snapshot.selectRole a k) (assignFound u) rfl
        (fun _ => ⟨rfl, rfl⟩) fun role => ?_
      exact Progress.ends_send (judged_true fun _ => rfl)
  | removeRoleFromUser a u k =>
      exact Progress.ends_body (Progress.ends_send (judged_positive fun _ => rfl))
  | addPermissionToRole a k p =>
      refine Progress.ends_body ?_
      generalize σ.after = τ
      refine Progress.ends_lookup (fun db => db.snapshot.selectRole a k) (addToFound a p) rfl
        (fun _ => ⟨rfl, rfl⟩) fun role => ?_
      refine Progress.ends_lookup (fun db => db.snapshot.selectPermission a p) (addFound role) rfl
        (fun _ => ⟨rfl, rfl⟩) fun perm => ?_
      exact Progress.ends_send (judged_true fun _ => rfl)
  | removePermissionFromRole a k p =>
      exact Progress.ends_body (Progress.ends_send (judged_positive fun _ => rfl))

/-- A call that is made and then runs alone returns what `DaoState.returns` says, and
leaves the tables as `DaoState.call` does. -/
theorem solo_eq_call (p : Pool (Db c) DaoThread) (x : DaoCall) {σ : DaoState c}
    (hσ : σ.db = p.shared) : ∃ os,
      run Db.step p (.start x :: List.replicate 4 (.advance p.threads.length)) =
        ⟨(σ.call x).db, p.threads ++ [⟨{ x with outcomes := os }, .returned (σ.returns x)⟩]⟩ := by
  obtain ⟨os, hos⟩ := x.op.ends (σ.facing x.outcomes x.wallClock)
  refine ⟨os, ?_⟩
  rw [Db.step, Pool.run_solo, ← hσ]
  have hrun : (fun y : DaoThread × Db c => y.1.next y.2)^[4] (DaoThread.init x, σ.db) =
      (⟨{ x with outcomes := os }, .returned (σ.returns x)⟩, (σ.call x).db) := hos
  rw [hrun]

end SiqiAuth
