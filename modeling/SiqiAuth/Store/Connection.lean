import Mathlib
import SiqiAuth.Lib.Query
import SiqiAuth.Store.Statement

/-!
# Database access that can fail

`Dao` is the monad of the DAO's functions: they hold the tables, the DAO's
`last_error_`, and a list of what the environment will do at the coming
interactions.  Each acquisition of a connection and each statement takes one
`Outcome` off that list; when the list is used up everything succeeds.  `Sql` adds
the `SQLException`, so a function of type `Dao` is one that lets none escape.

## Main definitions

* `Outcome` — what the environment does at one interaction.
* `DaoState`, `Dao`, `Sql` — the state, and the code outside and inside a `try`.
* `withConnection`, `executeQuery`, `executeUpdate`, `fetchWith`, `catchSql`,
  `reporting` — the steps that the DAO's functions are written in.
* `DaoState.Healthy` — no interaction to come fails.
* `Quiet` — a stretch of execution that wrote nothing.
-/

namespace SiqiAuth
open Lib

/-- What the environment does when the DAO asks for a connection or sends a
statement. -/
inductive Outcome
  /-- A connection is lent, or the statement is answered with its rows in the order
  `picks`. -/
  | answered (picks : List ℕ)
  /-- `getConnection` returns `nullptr`: a connection could not be opened, for the
  reason given, or none became free in time. -/
  | refused (what : Option String)
  /-- The statement raises a `SQLException`, a reading one after `fetched` rows. -/
  | raised (picks : List ℕ) (fetched : ℕ) (what : String)
  deriving DecidableEq, Repr

namespace Outcome

/-- Whether nothing goes wrong. -/
def succeeds : Outcome → Bool
  | answered _ => true
  | _ => false

/-- The order in which rows are delivered. -/
def picks : Outcome → List ℕ
  | answered picks => picks
  | refused _ => []
  | raised picks _ _ => picks

end Outcome

/-- What the functions of one DAO work on. -/
structure DaoState (c : Collation) where
  db : Db c
  /-- `last_error_`. -/
  lastError : String
  /-- What the environment does at the interactions to come. -/
  outcomes : List Outcome
  /-- `system_clock`, in nanoseconds. -/
  wallClock : ℤ

/-- Code that lets no `SQLException` escape. -/
abbrev Dao (c : Collation) := StateM (DaoState c)

/-- Code inside a `try` block, with the text of a `SQLException` on its way out. -/
abbrev Sql (c : Collation) := ExceptT String (Dao c)

variable {c : Collation} {α β : Type}

/-- `CURRENT_TIMESTAMP`, at the resolution of a `DATETIME`. -/
def dateTime (wallClock : ℤ) : DateTime := wallClock / 10 ^ 9

/-- `last_error_ = e`. -/
def setLastError (e : String) : Dao c Unit := modify fun σ => { σ with lastError := e }

/-- `getLastError`. -/
def getLastError : Dao c String := do return (← get).lastError

/-- What the environment does at the next interaction. -/
def nextOutcome : Dao c Outcome := do
  let σ ← get
  set { σ with outcomes := σ.outcomes.tail }
  return σ.outcomes.headD (.answered [])

/-- `ConnectionGuard conn(this); if (!conn.isValid()) return dflt;` followed by `body`. -/
def withConnection (dflt : α) (body : Dao c α) : Dao c α := do
  match ← nextOutcome with
  | .refused (some what) =>
      setLastError ("创建连接失败: " ++ what)
      return dflt
  | .refused none => return dflt
  | _ => body

theorem withConnection_run (dflt : α) (body : Dao c α) (σ : DaoState c) :
    (withConnection dflt body).run σ = (match σ.outcomes.headD (.answered []) with
      | .refused (some what) => do
          setLastError ("创建连接失败: " ++ what)
          return dflt
      | .refused none => return dflt
      | _ => body : Dao c α).run { σ with outcomes := σ.outcomes.tail } := rfl

/-- `try { body } catch (const sql::SQLException& e) { handler }`. -/
def catchSql (body : Sql c α) (handler : String → Dao c α) : Dao c α := do
  match ← body.run with
  | .ok a => return a
  | .error e => handler e

/-- `try { body } catch (const sql::SQLException& e) { last_error_ = label + e.what();
return dflt; }`. -/
def reporting (label : String) (dflt : α) (body : Sql c α) : Dao c α :=
  catchSql body fun e => do
    setLastError (label ++ e)
    return dflt

/-- `last_error_ = e; return false;` inside a `try`. -/
def refuse (e : String) : Sql c Bool := do
  (setLastError e : Dao c Unit)
  return false

/-- `executeQuery` for a statement whose rows are all read, or raise together. -/
def executeQuery (rows : Db c → List α) : Sql c (List α) := do
  match ← (nextOutcome : Dao c Outcome) with
  | .raised _ _ what => throw what
  | o => return arrange o.picks (rows (← get).db)

/-- What the `while (res->next())` loop reads of an answer, and the exception that
ended it, if one did. -/
def deliver : Outcome → Except String (List β) → List β × Option String
  | .raised _ fetched what, .ok rows => (rows.take fetched, some what)
  | .raised _ _ what, .error _ => ([], some what)
  | _, .ok rows => (rows, none)
  | _, .error refusal => ([], some refusal)

/-- `executeQuery` and the loop over its rows.  `finish` groups, sorts and pages the
rows, and refuses a statement with a malformed `LIMIT`. -/
def fetchWith (rows : Db c → List α) (finish : List α → Except String (List β)) :
    Dao c (List β × Option String) := do
  let o ← nextOutcome
  return deliver o (finish (arrange o.picks (rows (← get).db)))

/-- The loop over the rows of a statement that leaves them as they are. -/
def fetchRows (rows : Db c → List α) : Dao c (List α × Option String) := fetchWith rows .ok

/-- `executeUpdate`.  A statement that raises has had no effect: the reply to one that was
committed is taken not to get lost. -/
def executeUpdate (w : Statement) : Sql c ℕ := do
  match ← (nextOutcome : Dao c Outcome) with
  | .raised _ _ what => throw what
  | _ =>
      let σ ← get
      match w.exec (dateTime σ.wallClock) σ.db with
      | .error refusal => throw refusal.what
      | .ok (rows, db) =>
          set { σ with db := db }
          return rows

/-- `catch (const sql::SQLException& e) { last_error_ = label + e.what(); }` around a
loop over rows. -/
def report (label : String) : Option String → Dao c Unit
  | some what => setLastError (label ++ what)
  | none => return ()

/-! ## Paging -/

/-- The value of an expression computed in `int32_t`, wrapping around. -/
def int32 (n : ℤ) : ℤ := Int.bmod n (2 ^ 32)

/-- `(page - 1) * page_size`. -/
def pageOffset (page pageSize : ℤ) : ℤ := int32 (int32 (page - 1) * pageSize)

/-- `LIMIT limit OFFSET offset`; a negative argument is a malformed statement. -/
def limitOffset (limit offset : ℤ) (xs : List α) : Except String (List α) :=
  if limit < 0 ∨ offset < 0 then .error "You have an error in your SQL syntax"
  else .ok (Lib.page limit offset xs)

/-! ## Execution without failures -/

/-- No interaction to come fails. -/
def DaoState.Healthy (σ : DaoState c) : Prop := ∀ o ∈ σ.outcomes, o.succeeds = true

instance (σ : DaoState c) : Decidable σ.Healthy := by
  unfold DaoState.Healthy
  infer_instance

/-- From `σ` to `τ` nothing was written, and health was kept. -/
structure Quiet (σ τ : DaoState c) : Prop where
  db_eq : τ.db = σ.db
  wallClock_eq : τ.wallClock = σ.wallClock
  healthy : σ.Healthy → τ.Healthy

theorem Quiet.refl (σ : DaoState c) : Quiet σ σ := ⟨rfl, rfl, id⟩

theorem Quiet.trans {σ τ υ : DaoState c} (h : Quiet σ τ) (k : Quiet τ υ) : Quiet σ υ :=
  ⟨k.db_eq.trans h.db_eq, k.wallClock_eq.trans h.wallClock_eq, fun hσ => k.healthy (h.healthy hσ)⟩

/-! ## What the steps do -/

section Specs
open Std.Do
set_option mvcgen.warning false

@[spec] theorem setLastError_spec (e : String) (σ₀ : DaoState c) :
    ⦃fun σ => ⌜σ = σ₀⌝⦄ (setLastError e : Dao c Unit) ⦃⇓ _ σ => ⌜Quiet σ₀ σ⌝⦄ := by
  mvcgen [setLastError]
  rename_i σ h t
  subst h
  exact ⟨rfl, rfl, fun hh => hh⟩

@[spec] theorem nextOutcome_spec (σ₀ : DaoState c) :
    ⦃fun σ => ⌜σ = σ₀⌝⦄ (nextOutcome : Dao c Outcome)
    ⦃⇓ o σ => ⌜Quiet σ₀ σ ∧ (σ₀.Healthy → o.succeeds = true)⌝⦄ := by
  mvcgen [nextOutcome]
  rename_i σ h
  subst h
  refine ⟨⟨rfl, rfl, ?_⟩, ?_⟩
  · intro h o ho
    exact h o (List.mem_of_mem_tail ho)
  · intro h
    cases hl : σ.outcomes with
    | nil => rfl
    | cons o os => exact h o (by simp [hl])

/-- A query that is read at once delivers its rows in some order, or failed. -/
@[spec] theorem executeQuery_spec (rows : Db c → List α) (σ₀ : DaoState c) :
    ⦃fun σ => ⌜σ = σ₀⌝⦄ (executeQuery rows : Sql c (List α))
    ⦃post⟨fun r σ => ⌜Quiet σ₀ σ ∧ r.Perm (rows σ₀.db)⌝,
      fun _ σ => ⌜Quiet σ₀ σ ∧ ¬ σ₀.Healthy⌝⟩⦄ := by
  mvcgen [executeQuery]
  case vc1 =>
    rename_i hσ _ _ _ _ _ _ h
    subst hσ
    exact ⟨h.1, fun hh => Bool.false_ne_true (h.2 hh)⟩
  case vc2 =>
    rename_i hσ _ _ _ _ _ h
    subst hσ
    rw [h.1.db_eq]
    exact ⟨h.1, arrange_perm _ _⟩

/-- A loop over rows delivers what its outcome lets through. -/
@[spec] theorem fetchWith_spec (rows : Db c → List α)
    (finish : List α → Except String (List β)) (σ₀ : DaoState c) :
    ⦃fun σ => ⌜σ = σ₀⌝⦄ (fetchWith rows finish : Dao c (List β × Option String))
    ⦃⇓ r σ => ⌜Quiet σ₀ σ ∧ ∃ o : Outcome, (σ₀.Healthy → o.succeeds = true) ∧
      r = deliver o (finish (arrange o.picks (rows σ₀.db)))⌝⦄ := by
  mvcgen [fetchWith]
  rename_i hσ _ _ h
  subst hσ
  rw [h.1.db_eq]
  exact ⟨h.1, _, h.2, rfl⟩

/-- A statement is executed, or it changed nothing: it failed, or was refused. -/
@[spec] theorem executeUpdate_spec (w : Statement) (σ₀ : DaoState c) :
    ⦃fun σ => ⌜σ = σ₀⌝⦄ (executeUpdate w : Sql c ℕ)
    ⦃post⟨fun n σ => ⌜w.exec (dateTime σ₀.wallClock) σ₀.db = .ok (n, σ.db) ∧
        σ.wallClock = σ₀.wallClock ∧ (σ₀.Healthy → σ.Healthy)⌝,
      fun _ σ => ⌜Quiet σ₀ σ ∧
        (¬ σ₀.Healthy ∨ ∃ e, w.exec (dateTime σ₀.wallClock) σ₀.db = .error e)⌝⟩⦄ := by
  mvcgen [executeUpdate]
  case vc1 =>
    rename_i hσ _ _ _ _ _ _ h
    subst hσ
    exact ⟨h.1, Or.inl fun hh => Bool.false_ne_true (h.2 hh)⟩
  case vc2 =>
    rename_i hσ _ _ _ _ _ h _ hexec
    subst hσ
    rw [h.1.db_eq, h.1.wallClock_eq] at hexec
    exact ⟨h.1, Or.inr ⟨_, hexec⟩⟩
  case vc3 =>
    rename_i hσ _ _ _ _ _ h _ _ hexec
    subst hσ
    rw [h.1.db_eq, h.1.wallClock_eq] at hexec
    exact ⟨hexec, h.1.wallClock_eq, h.1.healthy⟩

end Specs

end SiqiAuth
