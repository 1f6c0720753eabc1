import SiqiAuth.Store.PermissionDAO

/-!
# Reading two databases side by side

Two executions of one reading function, over two databases but in the same
environment, take the same course as long as every query they come to has the same
rows on both sides.

## Main definitions

* `Lockstep db db' x Q` — `x` returns the same over `db` and over `db'`, leaves both
  alone, and what it returns satisfies `Q`.
* `Lockstep.bind`, `Lockstep.bindSql`, `Lockstep.catchSql` — its rules.
* `Lockstep.executeQuery`, `Lockstep.fetchRows` — the two kinds of query.
-/

namespace SiqiAuth
open Lib

variable {c : Collation}

/-- Over `db` and over `db'`, in the same environment, `x` takes the same course. -/
def Lockstep (db db' : Db c) {α : Type} (x : Dao c α) (Q : α → Prop) : Prop :=
  ∀ σ : DaoState c, ∃ y : α × DaoState c, Q y.1 ∧
    x.run { σ with db := db } = (y.1, { y.2 with db := db }) ∧
    x.run { σ with db := db' } = (y.1, { y.2 with db := db' })

/-- The same for the inside of a `try`. -/
def LockstepSql (db db' : Db c) {α : Type} (x : Sql c α) (Q : α → Prop) : Prop :=
  Lockstep db db' x.run fun r => ∀ a, r = .ok a → Q a

theorem executeQuery_run {α : Type} (rows : Db c → List α) (σ : DaoState c) :
    (executeQuery rows : Sql c (List α)).run.run σ =
      (match σ.outcomes.headD (.answered []) with
        | .raised _ _ what => .error what
        | o => .ok (arrange o.picks (rows σ.db)), { σ with outcomes := σ.outcomes.tail }) := by
  obtain ⟨db, e, outcomes, t⟩ := σ
  cases outcomes with
  | nil => rfl
  | cons o os => cases o <;> rfl

theorem fetchRows_run {α : Type} (rows : Db c → List α) (σ : DaoState c) :
    (fetchRows rows).run σ = (deliver (σ.outcomes.headD (.answered []))
      (.ok (arrange (σ.outcomes.headD (.answered [])).picks (rows σ.db))),
        { σ with outcomes := σ.outcomes.tail }) := rfl

namespace Lockstep
variable {db db' : Db c} {α β : Type} {x : Dao c α} {Q : α → Prop}

/-- What it says of the two results. -/
theorem run_eq (h : Lockstep db db' x Q) (σ : DaoState c) :
    (x.run { σ with db := db' }).1 = (x.run { σ with db := db }).1 := by
  obtain ⟨y, -, hdb, hdb'⟩ := h σ
  rw [hdb, hdb']

/-! ## Rules -/

theorem pure {a : α} (h : Q a) : Lockstep db db' (pure a) Q :=
  fun σ => ⟨(a, σ), h, rfl, rfl⟩

theorem bind {f : α → Dao c β} {R : β → Prop} (hx : Lockstep db db' x Q)
    (hf : ∀ a, Q a → Lockstep db db' (f a) R) : Lockstep db db' (x >>= f) R := by
  intro σ
  obtain ⟨y, hy, hdb, hdb'⟩ := hx σ
  obtain ⟨z, hz, hzdb, hzdb'⟩ := hf y.1 hy y.2
  refine ⟨z, hz, ?_, ?_⟩
  · rw [StateT.run_bind, hdb]
    exact hzdb
  · rw [StateT.run_bind, hdb']
    exact hzdb'

theorem pureSql {a : α} (h : Q a) : LockstepSql db db' (Pure.pure a) Q :=
  Lockstep.pure fun _ ha => by cases ha; exact h

/-- An exception ends the body on both sides. -/
theorem bindSql {body : Sql c α} {f : α → Sql c β} {R : β → Prop}
    (hbody : LockstepSql db db' body Q) (hf : ∀ a, Q a → LockstepSql db db' (f a) R) :
    LockstepSql db db' (body >>= f) R := by
  rw [LockstepSql, ExceptT.run_bind]
  refine hbody.bind fun r hr => ?_
  cases r with
  | ok a => exact hf a (hr a rfl)
  | error e => exact .pure fun _ h => by cases h

/-- Code from outside the `try` raises nothing. -/
theorem liftSql (hx : Lockstep db db' x Q) : LockstepSql db db' (liftM x) Q := by
  intro σ
  obtain ⟨y, hy, hdb, hdb'⟩ := hx σ
  refine ⟨(.ok y.1, y.2), fun a ha => by cases ha; exact hy, ?_, ?_⟩
  · exact congrArg (fun z : α × DaoState c => ((.ok z.1 : Except String α), z.2)) hdb
  · exact congrArg (fun z : α × DaoState c => ((.ok z.1 : Except String α), z.2)) hdb'

theorem catchSql {body : Sql c α} {handler : String → Dao c α} (hbody : LockstepSql db db' body Q)
    (hh : ∀ e, Lockstep db db' (handler e) Q) : Lockstep db db' (catchSql body handler) Q := by
  refine hbody.bind fun r hr => ?_
  cases r with
  | ok a => exact .pure (hr a rfl)
  | error e => exact hh e

/-! ## The environment -/

theorem nextOutcome : Lockstep db db' nextOutcome fun _ => True :=
  fun σ => ⟨(σ.outcomes.headD (.answered []), { σ with outcomes := σ.outcomes.tail }), trivial,
    rfl, rfl⟩

theorem setLastError (e : String) : Lockstep db db' (setLastError e) fun _ => True :=
  fun σ => ⟨((), { σ with lastError := e }), trivial, rfl, rfl⟩

theorem report (label : String) (raised : Option String) :
    Lockstep db db' (report label raised) fun _ => True := by
  cases raised with
  | none => exact .pure trivial
  | some what => exact setLastError _

theorem withConnection {dflt : α} (hd : Q dflt) (hx : Lockstep db db' x Q) :
    Lockstep db db' (withConnection dflt x) Q := by
  refine nextOutcome.bind fun o _ => ?_
  cases o with
  | refused what =>
      cases what with
      | none => exact .pure hd
      | some what => exact (setLastError _).bind fun _ _ => .pure hd
  | _ => exact hx

theorem reporting {label : String} {dflt : α} {body : Sql c α} (hd : Q dflt)
    (hbody : LockstepSql db db' body Q) : Lockstep db db' (reporting label dflt body) Q :=
  catchSql hbody fun _ => (setLastError _).bind fun _ _ => .pure hd

/-! ## Queries -/

theorem executeQuery {rows : Db c → List α} (h : rows db' = rows db) :
    LockstepSql db db' (executeQuery rows) fun xs => ∀ x ∈ xs, x ∈ rows db := by
  intro σ
  refine ⟨(SiqiAuth.executeQuery rows : Sql c (List α)).run.run { σ with db := db }, ?_, ?_, ?_⟩
  · intro xs hxs x hx
    rw [executeQuery_run] at hxs
    simp only at hxs
    split at hxs
    · cases hxs
    · cases hxs
      exact mem_arrange.mp hx
  · rw [executeQuery_run]
  · rw [executeQuery_run, executeQuery_run]
    simp only [h]

theorem fetchRows {rows : Db c → List α} (h : rows db' = rows db) :
    Lockstep db db' (fetchRows rows) fun _ => True := by
  intro σ
  refine ⟨(SiqiAuth.fetchRows rows).run { σ with db := db }, trivial, rfl, ?_⟩
  rw [fetchRows_run, fetchRows_run]
  simp only [h]

/-- A function that returns a column of its rows. -/
theorem column {label : String} {rows : Db c → List α} {f : α → β} (h : rows db' = rows db) :
    Lockstep db db' (do
      let (xs, raised) ← SiqiAuth.fetchRows rows
      SiqiAuth.report label raised
      return xs.map f) fun _ => True :=
  (fetchRows h).bind fun _ _ => (report _ _).bind fun _ _ => .pure trivial

theorem getAppId {a : String} (h : db'.snapshot.selectAppId a = db.snapshot.selectAppId a) :
    Lockstep db db' (PermissionDAO.getAppId a) fun r =>
      ∀ n, r = some n → n ∈ db.snapshot.selectAppId a := by
  have hnone : ∀ n, (none : Option ℕ) = some n → n ∈ db.snapshot.selectAppId a :=
    fun n hn => by cases hn
  refine .withConnection hnone (.catchSql (.bindSql (executeQuery h) fun xs hxs => ?_)
    fun _ => .pure hnone)
  exact .pureSql fun n hn => hxs n (List.mem_of_head? hn)

/-- A function that looks up its app first. -/
theorem column_of_app {a label : String} {rows : ℕ → Db c → List α} {f : α → β}
    (h : db'.snapshot.selectAppId a = db.snapshot.selectAppId a)
    (hrows : ∀ n ∈ db.snapshot.selectAppId a, rows n db' = rows n db) :
    Lockstep db db' (do
      let some appId ← PermissionDAO.getAppId a | return []
      let (xs, raised) ← SiqiAuth.fetchRows (rows appId)
      SiqiAuth.report label raised
      return xs.map f) fun _ => True := by
  refine (getAppId h).bind fun found hfound => ?_
  cases found with
  | none => exact .pure trivial
  | some n => exact column (hrows n (hfound n rfl))

end Lockstep
end SiqiAuth
