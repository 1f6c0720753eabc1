import SiqiAuth.Store.Interaction

/-!
# The last error

`last_error_` outlives the call that wrote it.  No function of the DAO reads it, so a call
does the same whatever stands there, and either writes its own text over it or leaves it.
A failure that leaves it is reported with the text of an earlier one.

## Main definitions

* `Says` — what a computation does whatever the last error was, and what it puts in its place.
* `Accounts` — the body of a `try` block says why when it returns false.
* `DaoOp.Silent` — an operation fails and leaves the last error as it was.
* `DaoOp.run_says` — an operation that fails says why, unless it is silent.
-/

namespace SiqiAuth
open Lib

variable {c : Collation} {α β : Type}

/-! ## What a computation says -/

/-- Started in `σ` with any last error, the computation returns `a` and ends in `τ`, with
`told` for the last error if there is one, and else the one it was started with. -/
def Says (x : Dao c α) (σ : DaoState c) (a : α) (told : Option String) (τ : DaoState c) : Prop :=
  ∀ e, x.run { σ with lastError := e } = (a, { τ with lastError := told.getD e })

/-- The computation does not look at the last error. -/
def Blind (x : Dao c α) : Prop := ∀ σ, ∃ a told τ, Says x σ a told τ

section Steps
variable {x : Dao c α} {σ τ υ : DaoState c} {a : α} {b : β} {told told' : Option String}

theorem says_pure (a : α) (σ : DaoState c) : Says (pure a) σ a none σ := fun _ => rfl

theorem says_executeUpdate {w : Statement} (h : σ.outcome.completes = true) :
    Says (executeUpdate w : Sql c ℕ).run σ (sent w σ).1 none (sent w σ).2 := by
  intro e
  have hsent : (executeUpdate w : Sql c ℕ).run.run { σ with lastError := e } =
      sent w { σ with lastError := e } := run_executeUpdate h
  rw [hsent, sent, sent]
  cases w.exec (dateTime σ.wallClock) σ.db <;> rfl

theorem says_executeUpdate_raised {w : Statement} (h : σ.outcome.completes = false) :
    ∃ what, Says (executeUpdate w : Sql c ℕ).run σ (.error what) none σ.after := by
  cases hout : σ.outcome with
  | raised picks fetched what =>
      refine ⟨what, fun e => ?_⟩
      obtain ⟨db, e', outcomes, wallClock⟩ := σ
      cases outcomes with
      | nil => cases hout
      | cons o os =>
          obtain rfl : o = .raised picks fetched what := hout
          rfl
  | _ => simp [hout, Outcome.completes] at h

theorem blind_executeUpdate (w : Statement) : Blind (executeUpdate w : Sql c ℕ).run := by
  intro σ
  by_cases hpass : σ.outcome.completes = true
  · exact ⟨_, _, _, says_executeUpdate hpass⟩
  · obtain ⟨what, hraised⟩ := says_executeUpdate_raised (w := w) (by simpa using hpass)
    exact ⟨_, _, _, hraised⟩

theorem blind_executeQuery (rows : Db c → List α) : Blind (executeQuery rows : Sql c _).run := by
  intro σ
  by_cases hpass : σ.outcome.completes = true
  · refine ⟨.ok (arrange σ.outcome.picks (rows σ.db)), none, σ.after, fun e => ?_⟩
    exact run_executeQuery hpass
  · cases hout : σ.outcome with
    | raised picks fetched what =>
        refine ⟨.error what, none, σ.after, fun e => ?_⟩
        obtain ⟨db, e', outcomes, wallClock⟩ := σ
        cases outcomes with
        | nil => cases hout
        | cons o os =>
            obtain rfl : o = .raised picks fetched what := hout
            rfl
    | _ => simp [hout, Outcome.completes] at hpass

theorem Blind.lift (hx : Blind x) : Blind (liftM x : Sql c α).run := by
  intro σ
  obtain ⟨a, told, τ, hx⟩ := hx σ
  refine ⟨.ok a, told, τ, fun e => ?_⟩
  exact congrArg (fun out : α × DaoState c => (Except.ok out.1, out.2)) (hx e)

variable {body : Sql c α}

theorem Says.bindSql {f : α → Sql c β} {r : Except String β} (hx : Says body.run σ (.ok a) told τ)
    (hf : Says (f a).run τ r told' υ) : Says (body >>= f).run σ r (told'.or told) υ := by
  intro e
  rw [run_bindSql, hx e]
  refine (hf _).trans ?_
  cases told' <;> rfl

theorem Says.bindSql_error {f : α → Sql c β} {what : String}
    (hx : Says body.run σ (.error what) told τ) :
    Says (body >>= f).run σ (.error what) told τ := by
  intro e
  rw [run_bindSql, hx e]

theorem Blind.bindSql {f : α → Sql c β} (hx : Blind body.run) (hf : ∀ a, Blind (f a).run) :
    Blind (body >>= f).run := by
  intro σ
  obtain ⟨r, told, τ, hx⟩ := hx σ
  cases r with
  | error what => exact ⟨_, _, _, hx.bindSql_error⟩
  | ok a =>
      obtain ⟨r, told', υ, hf⟩ := hf a τ
      exact ⟨_, _, _, hx.bindSql hf⟩

theorem says_catchSql {handler : String → Dao c α} (hx : Says body.run σ (.ok a) told τ) :
    Says (catchSql body handler) σ a told τ := by
  intro e
  rw [run_catchSql, hx e]

theorem says_catchSql_error {handler : String → Dao c α} {what : String}
    (hx : Says body.run σ (.error what) told τ) (hf : Says (handler what) τ a told' υ) :
    Says (catchSql body handler) σ a (told'.or told) υ := by
  intro e
  rw [run_catchSql, hx e]
  refine (hf _).trans ?_
  cases told' <;> rfl

/-- A connection is lent. -/
theorem says_withConnection {dflt : α} (h : σ.outcome.lends = true) (hx : Says x σ.after a told τ) :
    Says (withConnection dflt x) σ a told τ := by
  intro e
  have hrun : (withConnection dflt x).run { σ with lastError := e } =
      x.run { σ.after with lastError := e } := run_withConnection h
  rw [hrun, hx e]

/-- A connection is refused, which is reported if it could not be opened. -/
theorem says_withConnection_refused {dflt : α} {what : Option String}
    (h : σ.outcome = .refused what) :
    Says (withConnection dflt x) σ dflt (what.map ("创建连接失败: " ++ ·)) σ.after := by
  intro e
  obtain ⟨db, e', outcomes, wallClock⟩ := σ
  cases outcomes with
  | nil => cases h
  | cons o os =>
      obtain rfl : o = .refused what := h
      cases what <;> rfl

theorem blind_getAppId (a : String) : Blind (PermissionDAO.getAppId a : Dao c _) := by
  intro σ
  cases hout : σ.outcome with
  | refused what => exact ⟨_, _, _, says_withConnection_refused hout⟩
  | _ =>
      have hlends : σ.outcome.lends = true := by rw [hout]; rfl
      have hbody : Blind (do
          return (← executeQuery fun db => db.snapshot.selectAppId a).head? : Sql c _).run :=
        (blind_executeQuery _).bindSql fun _ σ => ⟨_, _, _, says_pure _ σ⟩
      obtain ⟨r, told, τ, hbody⟩ := hbody σ.after
      cases r with
      | ok found => exact ⟨_, _, _, says_withConnection hlends (says_catchSql hbody)⟩
      | error what =>
          have hnone : Says (return none : Dao c (Option ℕ)) τ none none τ := says_pure none τ
          exact ⟨_, _, _, says_withConnection hlends (says_catchSql_error hbody hnone)⟩

end Steps

/-! ## Bodies that account for a failure -/

/-- Whenever the body of a `try` block returns false it has put something for the last error. -/
def Accounts (body : Sql c Bool) : Prop :=
  ∀ σ, ∃ r told τ, Says body.run σ r told τ ∧ (r = .ok false → told.isSome = true)

theorem accounts_true : Accounts (return true : Sql c Bool) := fun σ =>
  ⟨.ok true, none, σ, says_pure _ σ, fun h => by cases h⟩

theorem accounts_refuse (e : String) : Accounts (refuse e : Sql c Bool) := fun σ =>
  ⟨.ok false, some e, { σ with lastError := e }, fun _ => rfl, fun _ => rfl⟩

theorem Accounts.bind {body : Sql c α} {f : α → Sql c Bool} (hx : Blind body.run)
    (hf : ∀ a, Accounts (f a)) : Accounts (body >>= f) := by
  intro σ
  obtain ⟨r, told, τ, hx⟩ := hx σ
  cases r with
  | error what => exact ⟨_, _, _, hx.bindSql_error, fun h => by cases h⟩
  | ok a =>
      obtain ⟨r, told', υ, hf, hsome⟩ := hf a τ
      refine ⟨_, _, _, hx.bindSql hf, fun h => ?_⟩
      simp [hsome h]

theorem says_reporting {label : String} {dflt : α} {body : Sql c α} {σ τ : DaoState c}
    {told : Option String} {what : String} (hx : Says body.run σ (.error what) told τ) :
    Says (reporting label dflt body) σ dflt (some (label ++ what)) τ := by
  intro e
  rw [run_reporting, hx e]
  rfl

/-! ## Operations -/

namespace DaoOp

/-- The statement whose row count an operation returns, and of which it says nothing when that
is zero. -/
def mute : DaoOp → Option Statement
  | updateApp a n d st =>
      if n.isNone && d.isNone && st.isNone then none else some (.updateApp a n d st)
  | deleteApp a => some (.deleteApp a)
  | removeRoleFromUser a u k => some (.deleteUserRole a u k)
  | removePermissionFromRole a k p => some (.deleteRolePermission a k p)
  | _ => none

/-- The operation fails and leaves the last error as it was: no connection becomes free in
time, or it gets through and finds no row to change. -/
def Silent (op : DaoOp) (σ : DaoState c) : Prop :=
  σ.outcome = .refused none ∨
    ∃ w ∈ op.mute, getThrough [.connection, .statement] σ.outcomes = true ∧
      w.Admitted σ.db ∧ ¬ w.Changes (dateTime σ.wallClock) σ.db

instance (op : DaoOp) (σ : DaoState c) : Decidable (op.Silent σ) :=
  inferInstanceAs (Decidable (_ ∨ ∃ w ∈ op.mute, _))

/-- Whatever the last error was, the operation does the same, and if it fails it says why,
or else is silent. -/
def FailsSaying (silent : Prop) (x : Dao c Bool) (σ : DaoState c) : Prop :=
  ∃ r told τ, Says x σ r told τ ∧ (r = false → (told = none ↔ silent))

variable {σ : DaoState c} {label : String} {body : Sql c Bool}

/-- A body that accounts for its failures leaves one that is not accounted for. -/
theorem failsSaying_of_accounts (h : Accounts body) : FailsSaying (σ.outcome = .refused none)
    (withConnection false (reporting label false body)) σ := by
  cases hout : σ.outcome with
  | refused what =>
      refine ⟨_, _, _, says_withConnection_refused hout, fun _ => ?_⟩
      cases what <;> simp
  | _ =>
      have hlends : σ.outcome.lends = true := by rw [hout]; rfl
      obtain ⟨r, told, τ, hbody, hsome⟩ := h σ.after
      cases r with
      | error what =>
          refine ⟨_, _, _, says_withConnection hlends (says_reporting hbody), fun _ => ?_⟩
          simp
      | ok r =>
          refine ⟨_, _, _, says_withConnection hlends (says_catchSql hbody), ?_⟩
          rintro rfl
          have htold := hsome rfl
          cases told <;> simp at htold ⊢

theorem exec_unchanged_iff {w : Statement} {now : DateTime} {db : Db c} (hins : w.inserts = false) :
    (∃ db', w.exec now db = .ok (0, db')) ↔ w.Admitted db ∧ ¬ w.Changes now db := by
  constructor
  · rintro ⟨db', hexec⟩
    have hfits : w.Admitted db := by
      by_contra hnot
      obtain ⟨e, he⟩ := Statement.exec_of_not_admitted now hnot
      rw [he] at hexec
      cases hexec
    refine ⟨hfits, fun hchanges => ?_⟩
    have hw : ∀ e, w ≠ .insertAuditLog e := by
      rintro e rfl
      cases hins
    obtain ⟨rows, db'', hwrite, hpos, -⟩ := Statement.write_of_changes hw hchanges
    rw [Statement.exec_of_admitted hfits, hwrite] at hexec
    cases hexec
    omega
  · rintro ⟨hfits, hsame⟩
    exact ⟨db, (Statement.exec_of_admitted hfits).trans (Statement.write_of_unchanged hins hsame)⟩

/-- An operation that sends one statement and returns whether it reports a row. -/
theorem failsSaying_of_mute {w : Statement} (hins : w.inserts = false) :
    FailsSaying (σ.outcome = .refused none ∨
        getThrough [.connection, .statement] σ.outcomes = true ∧ w.Admitted σ.db ∧
          ¬ w.Changes (dateTime σ.wallClock) σ.db)
      (withConnection false (reporting label false (do
        let rows ← executeUpdate w
        return decide (0 < rows)))) σ := by
  rw [getThrough_connection, getThrough_statement, getThrough_nil, Bool.and_true, Bool.and_eq_true]
  by_cases hlends : σ.outcome.lends = true
  · have hconn : σ.outcome ≠ .refused none := by
      intro hout
      rw [hout] at hlends
      cases hlends
    by_cases hpass : σ.after.outcome.completes = true
    · have hunchanged : (∃ db', w.exec (dateTime σ.wallClock) σ.db = .ok (0, db')) ↔
          w.Admitted σ.db ∧ ¬ w.Changes (dateTime σ.wallClock) σ.db := exec_unchanged_iff hins
      have hsent := says_executeUpdate (w := w) hpass
      simp only [hlends, hpass, hconn, true_and, false_or, and_self, ← hunchanged]
      cases hexec : w.exec (dateTime σ.wallClock) σ.db with
      | error refusal =>
          have hout : sent w σ.after = (.error refusal.what, σ.after.after) := by simp [sent, hexec]
          rw [hout] at hsent
          refine ⟨_, _, _, says_withConnection hlends (says_reporting hsent.bindSql_error),
            fun _ => ?_⟩
          simp
      | ok x =>
          obtain ⟨rows, db⟩ := x
          have hout : sent w σ.after = (.ok rows, { σ.after.after with db := db }) := by
            simp [sent, hexec]
          rw [hout] at hsent
          have hjudge : Says (return decide (0 < rows) : Sql c Bool).run
              { σ.after.after with db := db } (.ok (decide (0 < rows))) none
              { σ.after.after with db := db } := says_pure _ _
          refine ⟨_, _, _, says_withConnection hlends (says_catchSql (hsent.bindSql hjudge)),
            fun hfalse => ?_⟩
          obtain rfl : rows = 0 := by simpa using hfalse
          simp
    · obtain ⟨what, hraised⟩ := says_executeUpdate_raised (w := w) (by simpa using hpass)
      refine ⟨_, _, _, says_withConnection hlends (says_reporting hraised.bindSql_error),
        fun _ => ?_⟩
      simp [hconn, hpass]
  · cases hout : σ.outcome with
    | refused what =>
        refine ⟨_, _, _, says_withConnection_refused hout, fun _ => ?_⟩
        cases what <;> simp [Outcome.lends]
    | _ => simp [hout, Outcome.lends] at hlends

/-- The lookup of the app's number says why it fails. -/
theorem accounts_getAppId {a e : String} {w : ℕ → Statement} {judge : ℕ → Sql c Bool}
    (hjudge : ∀ rows, Accounts (judge rows)) : Accounts (sendInApp a e w judge) := by
  refine .bind (blind_getAppId a).lift fun found => ?_
  cases found with
  | none => exact accounts_refuse e
  | some appId => exact .bind (blind_executeUpdate _) hjudge

theorem accounts_deleted (e : String) (rows : ℕ) :
    Accounts (if rows = 0 then refuse e else return true : Sql c Bool) := by
  split
  · exact accounts_refuse e
  · exact accounts_true

/-- **A failing operation says why, unless it is silent**, and whether it does and what it
does otherwise does not depend on the last error. -/
theorem run_says (op : DaoOp) (σ : DaoState c) : FailsSaying (op.Silent σ) op.run σ := by
  have hnever : ∀ {op : DaoOp}, op.mute = none → (op.Silent σ ↔ σ.outcome = .refused none) := by
    intro op hmute
    simp [Silent, hmute]
  have hmuted : ∀ {op : DaoOp} {w : Statement}, op.mute = some w → (op.Silent σ ↔
      σ.outcome = .refused none ∨ getThrough [.connection, .statement] σ.outcomes = true ∧
        w.Admitted σ.db ∧ ¬ w.Changes (dateTime σ.wallClock) σ.db) := by
    intro op w hmute
    simp [Silent, hmute]
  cases op with
  | createApp n a d =>
      have hbody : Accounts (do
          let _ ← executeUpdate (.insertApp n a ("secret_" ++ a ++ "_" ++ toString σ.wallClock) d)
          return true : Sql c Bool) := .bind (blind_executeUpdate _) fun _ => accounts_true
      obtain ⟨r, told, τ, hrun, htold⟩ := failsSaying_of_accounts hbody
      rw [hnever rfl]
      exact ⟨r, told, τ, fun e => (run_createApp n a d _).trans (hrun e), htold⟩
  | updateApp a n d st =>
      by_cases hidle : (n.isNone && d.isNone && st.isNone) = true
      · rw [hnever (by simp [mute, hidle])]
        refine failsSaying_of_accounts ?_
        simp only [hidle, if_true]
        exact accounts_true
      · rw [hmuted (w := .updateApp a n d st) (by simp [mute, hidle])]
        have hrun : (updateApp a n d st).run (c := c) =
            withConnection false (reporting "更新应用失败: " false (do
              let rows ← executeUpdate (.updateApp a n d st)
              return decide (0 < rows))) :=
          congrArg (fun body => withConnection false (reporting _ false body)) (if_neg hidle)
        rw [hrun]
        exact failsSaying_of_mute rfl
  | deleteApp a =>
      rw [hmuted rfl]
      exact failsSaying_of_mute rfl
  | createRole a n k d df =>
      rw [hnever rfl]
      exact failsSaying_of_accounts (accounts_getAppId fun _ => accounts_true)
  | updateRole a k n d df =>
      rw [hnever rfl]
      exact failsSaying_of_accounts (accounts_getAppId fun _ => accounts_true)
  | deleteRole a k =>
      rw [hnever rfl]
      exact failsSaying_of_accounts (accounts_getAppId (accounts_deleted _))
  | createPermission a n k d =>
      rw [hnever rfl]
      exact failsSaying_of_accounts (accounts_getAppId fun _ => accounts_true)
  | updatePermission a k n d =>
      rw [hnever rfl]
      exact failsSaying_of_accounts (accounts_getAppId fun _ => accounts_true)
  | deletePermission a k =>
      rw [hnever rfl]
      exact failsSaying_of_accounts (accounts_getAppId (accounts_deleted _))
  | assignRoleToUser a u k =>
      rw [hnever rfl]
      refine failsSaying_of_accounts (.bind (blind_executeQuery _) fun roles => ?_)
      cases roles.head? with
      | none => exact accounts_refuse _
      | some role => exact .bind (blind_executeUpdate _) fun _ => accounts_true
  | removeRoleFromUser a u k =>
      rw [hmuted rfl]
      exact failsSaying_of_mute rfl
  | addPermissionToRole a k p =>
      rw [hnever rfl]
      refine failsSaying_of_accounts (.bind (blind_executeQuery _) fun roles => ?_)
      cases roles.head? with
      | none => exact accounts_refuse _
      | some role =>
          refine .bind (blind_executeQuery _) fun perms => ?_
          cases perms.head? with
          | none => exact accounts_refuse _
          | some perm => exact .bind (blind_executeUpdate _) fun _ => accounts_true
  | removePermissionFromRole a k p =>
      rw [hmuted rfl]
      exact failsSaying_of_mute rfl

end DaoOp
end SiqiAuth
