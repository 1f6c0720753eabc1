import SiqiAuth.Store.Edits

/-!
# What is found to exist

`getAppId` and `permissionExists` answer alike when a row is missing and when they could not
ask.  What is looked up with them is reported to be missing in both cases, and an error of an
earlier call can be reported once more by one that no connection was lent to.

## Main definitions

* `Db.AppExists`, `Db.PermissionExists` — that a row is there.
* `appExists_eq_true_iff`, `permissionExists_eq_true_iff` — when it is found.
* `DaoOp.looksUpApp`, `reports_appMissing_iff` — when an operation reports that its app is
  missing.
-/

namespace SiqiAuth
open Lib

variable {c : Collation}

namespace Db
variable (db : Db c) (a p : String)

/-- There is an app with the code. -/
def AppExists : Prop := ∃ app ∈ db.sysApps, c.same app.appCode a = true

/-- There is one, and it has a permission with the key. -/
def PermissionExists : Prop := ∃ app ∈ db.sysApps, c.same app.appCode a = true ∧
  ∃ perm ∈ db.sysPermissions, perm.appId = app.id ∧ c.same perm.permKey p = true

instance : Decidable (db.AppExists a) := inferInstanceAs (Decidable (∃ app ∈ db.sysApps, _))

instance : Decidable (db.PermissionExists a p) :=
  inferInstanceAs (Decidable (∃ app ∈ db.sysApps, _))

variable {db a p}

theorem PermissionExists.appExists (h : db.PermissionExists a p) : db.AppExists a := by
  obtain ⟨app, happ, hcode, -⟩ := h
  exact ⟨app, happ, hcode⟩

theorem isSome_head?_selectAppId :
    (db.snapshot.selectAppId a).head?.isSome = true ↔ db.AppExists a := by
  rw [Option.isSome_iff_exists]
  constructor
  · rintro ⟨n, hn⟩
    obtain ⟨app, happ, hcode, -⟩ := (Snapshot.mem_selectAppId _).mp (List.mem_of_head? hn)
    exact ⟨app, happ, hcode⟩
  · rintro ⟨app, happ, hcode⟩
    exact ⟨app.id, db.head?_selectAppId happ hcode⟩

theorem permissionExists_iff : db.PermissionExists a p ↔
    ∃ n ∈ (db.snapshot.selectAppId a).head?, ∃ perm,
      perm ∈ db.snapshot.selectPermissionOf n p := by
  simp only [Snapshot.selectPermissionOf, List.mem_filter, Bool.and_eq_true, beq_iff_eq]
  constructor
  · rintro ⟨app, happ, hcode, perm, hperm, hid, hkey⟩
    exact ⟨app.id, db.head?_selectAppId happ hcode, perm, hperm, hid, hkey⟩
  · rintro ⟨n, hn, perm, hperm, hid, hkey⟩
    obtain ⟨app, happ, hcode, rfl⟩ := (Snapshot.mem_selectAppId _).mp (List.mem_of_head? hn)
    exact ⟨app, happ, hcode, perm, hperm, hid, hkey⟩

end Db

/-! ## Lookups under failures -/

section Lookups
variable {σ : DaoState c} {a p : String}

/-- An app is found if it is there and the lookup gets through. -/
theorem appExists_eq_true_iff : ((PermissionDAO.appExists a).run σ).1 = true ↔
    getThrough [.connection, .statement] σ.outcomes = true ∧ σ.db.AppExists a := by
  have hrun : ((PermissionDAO.appExists a).run σ).1 =
      ((PermissionDAO.getAppId a).run σ).1.isSome := rfl
  rw [hrun]
  by_cases hget : getThrough [.connection, .statement] σ.outcomes = true
  · rw [run_getAppId hget, Db.isSome_head?_selectAppId]
    simp [hget]
  · obtain ⟨τ, hstopped, -⟩ := run_getAppId_stopped (a := a) (by simpa using hget)
    rw [hstopped]
    simp [hget]

theorem appExists_state (hget : getThrough [.connection, .statement] σ.outcomes = true) :
    ((PermissionDAO.appExists a).run σ).2 = σ.after.after :=
  congrArg Prod.snd (run_getAppId (a := a) hget)

/-- Whether a query has rows, when it gets through; and else it has none. -/
theorem run_hasRows {α : Type} (rows : Db c → List α) (σ : DaoState c) :
    ((catchSql (do
        let xs ← executeQuery rows
        return !xs.isEmpty) fun _ => return false : Dao c Bool).run σ).1 = true ↔
      σ.outcome.completes = true ∧ ∃ x, x ∈ rows σ.db := by
  rw [run_catchSql, run_bindSql]
  by_cases hpass : σ.outcome.completes = true
  · rw [run_executeQuery hpass]
    change (!(arrange σ.outcome.picks (rows σ.db)).isEmpty) = true ↔ _
    simp only [hpass, Bool.not_eq_true', List.isEmpty_eq_false_iff_exists_mem, mem_arrange,
      true_and]
  · obtain ⟨what, hraised⟩ := run_executeQuery_raised rows (by simpa using hpass)
    rw [hraised]
    exact iff_of_false Bool.false_ne_true fun h => hpass h.1

/-- What `permissionExists` asks of the app that it has found. -/
def hasPermission (permKey : String) : Option ℕ → Sql c Bool
  | some appId => do
      let perms ← executeQuery fun db => db.snapshot.selectPermissionOf appId permKey
      return !perms.isEmpty
  | none => return false

/-- `permissionExists` on the connection that it is lent. -/
def permissionLookup (appCode permKey : String) : Dao c Bool :=
  catchSql (liftM (PermissionDAO.getAppId appCode : Dao c _) >>= hasPermission permKey)
    fun _ => return false

theorem permissionExists_eq (a p : String) :
    (PermissionDAO.permissionExists a p : Dao c Bool) =
      withConnection false (permissionLookup a p) := by
  refine congrArg (fun f => withConnection false (catchSql
    (liftM (PermissionDAO.getAppId a : Dao c _) >>= f) fun _ => return false))
    (funext fun found => ?_)
  cases found <;> rfl

theorem run_permissionLookup (a p : String) (σ : DaoState c) :
    (permissionLookup a p).run σ =
      (catchSql (hasPermission p ((PermissionDAO.getAppId a).run σ).1) fun _ => return false).run
        ((PermissionDAO.getAppId a).run σ).2 := by
  rw [permissionLookup, run_catchSql, run_liftBindSql, run_catchSql]

/-- A permission is found if it is there and two lookups get through, the one inside the
other. -/
theorem permissionExists_eq_true_iff : ((PermissionDAO.permissionExists a p).run σ).1 = true ↔
    getThrough [.connection, .connection, .statement, .statement] σ.outcomes = true ∧
      σ.db.PermissionExists a p := by
  rw [permissionExists_eq, getThrough_connection]
  by_cases hconn : σ.outcome.lends = true
  · have hlent : ((withConnection false (permissionLookup a p)).run σ).1 =
        ((permissionLookup a p).run σ.after).1 :=
      congrArg Prod.fst (run_withConnection hconn)
    rw [hlent, hconn, Bool.true_and, run_permissionLookup, ← σ.db_after]
    generalize σ.after = τ
    have hsplit : getThrough [.connection, .statement, .statement] τ.outcomes =
        (getThrough [.connection, .statement] τ.outcomes && τ.after.after.outcome.completes) := by
      simp only [getThrough_connection, getThrough_statement, getThrough_nil, Bool.and_true,
        Bool.and_assoc]
    rw [hsplit]
    by_cases hget : getThrough [.connection, .statement] τ.outcomes = true
    · rw [run_getAppId hget, hget, Bool.true_and, Db.permissionExists_iff]
      cases hhead : (τ.db.snapshot.selectAppId a).head? with
      | none => exact iff_of_false Bool.false_ne_true (by simp)
      | some appId =>
          simp only [Option.mem_def, Option.some.injEq, exists_eq_left']
          exact run_hasRows (fun db => db.snapshot.selectPermissionOf appId p) τ.after.after
    · obtain ⟨υ, hstopped, -⟩ := run_getAppId_stopped (a := a) (by simpa using hget)
      rw [hstopped]
      exact iff_of_false Bool.false_ne_true (by simp [hget])
  · have hrefused := run_withConnection_refused false (permissionLookup a p) (by simpa using hconn)
    rw [hrefused.1]
    simp [hconn]

end Lookups

/-! ## Operations that look up their app -/

/-- Texts that begin with different characters are different. -/
theorem append_ne_append {s t : String} (h : s.toList.head? ≠ t.toList.head?)
    (hs : s.toList ≠ []) (ht : t.toList ≠ []) (x y : String) : s ++ x ≠ t ++ y := by
  intro heq
  have hlist := congrArg (fun z : String => z.toList.head?) heq
  simp only [String.toList_append, List.head?_append_of_ne_nil _ hs,
    List.head?_append_of_ne_nil _ ht] at hlist
  exact h hlist

section Refused
variable {α : Type} {σ : DaoState c}

theorem run_withConnection_silent (dflt : α) (body : Dao c α) (h : σ.outcome = .refused none) :
    (withConnection dflt body).run σ = (dflt, σ.after) := by
  obtain ⟨db, e, outcomes, t⟩ := σ
  cases outcomes with
  | nil => simp [DaoState.outcome] at h
  | cons o os =>
      obtain rfl : o = .refused none := h
      rfl

theorem run_withConnection_told (dflt : α) (body : Dao c α) {what : String}
    (h : σ.outcome = .refused (some what)) : (withConnection dflt body).run σ =
      (dflt, { σ.after with lastError := "创建连接失败: " ++ what }) := by
  obtain ⟨db, e, outcomes, t⟩ := σ
  cases outcomes with
  | nil => simp [DaoState.outcome] at h
  | cons o os =>
      obtain rfl : o = .refused (some what) := h
      rfl

end Refused

namespace DaoOp

/-- The operations that begin with `getAppId`. -/
def looksUpApp : DaoOp → Bool
  | createRole .. | createPermission .. | deleteRole .. | deletePermission .. | updateRole ..
  | updatePermission .. => true
  | _ => false

variable {σ : DaoState c} {a e label : String} {w : ℕ → Statement} {judge : ℕ → Sql c Bool}

/-- What begins with `getAppId` ends with `false` and the message `e` if it finds no app, or
if it is lent no connection and the message was there before. -/
theorem reports_of_getAppId (hconn : ∀ what, "创建连接失败: " ++ what ≠ e)
    (hlabel : ∀ what, label ++ what ≠ e)
    (hjudge : ∀ rows τ, ((judge rows).run.run τ).1 = .ok false →
      ((judge rows).run.run τ).2.lastError ≠ e) :
    let out := (withConnection false (reporting label false (sendInApp a e w judge))).run σ
    out.1 = false ∧ out.2.lastError = e ↔ σ.outcome = .refused none ∧ σ.lastError = e ∨
      σ.outcome.lends = true ∧
        (getThrough [.connection, .statement] σ.after.outcomes = false ∨ ¬ σ.db.AppExists a) := by
  intro out
  cases hout : σ.outcome with
  | refused what =>
      cases what with
      | none =>
          have hrun : out = (false, σ.after) := run_withConnection_silent _ _ hout
          rw [hrun]
          simp [Outcome.lends, DaoState.after]
      | some what =>
          have hrun : out = (false, _) := run_withConnection_told _ _ hout
          rw [hrun]
          simp [Outcome.lends, hconn]
  | _ =>
      have hlends : σ.outcome.lends = true := by simp [hout, Outcome.lends]
      have hrun : out = (reporting label false (sendInApp a e w judge)).run σ.after :=
        run_withConnection hlends
      rw [hrun, run_reporting, run_sendInApp, ← σ.db_after]
      generalize σ.after = τ
      have hmissing : ∀ υ : DaoState c, (refuse e : Sql c Bool).run.run υ =
          (.ok false, { υ with lastError := e }) := fun _ => rfl
      by_cases hget : getThrough [.connection, .statement] τ.outcomes = true
      · rw [run_getAppId hget]
        cases hhead : (τ.db.snapshot.selectAppId a).head? with
        | none =>
            have hnone : ¬ τ.db.AppExists a := by simp [← Db.isSome_head?_selectAppId, hhead]
            simp [hmissing, Outcome.lends, hnone]
        | some appId =>
            have hsome : τ.db.AppExists a := by simp [← Db.isSome_head?_selectAppId, hhead]
            refine iff_of_false ?_ (by simp [hsome, hget])
            rw [run_bindSql]
            rcases hsent : (executeUpdate (w appId) : Sql c ℕ).run.run τ.after.after with ⟨x, υ⟩
            cases x with
            | error what =>
                rintro ⟨-, he⟩
                exact hlabel what he
            | ok rows =>
                have hne := hjudge rows υ
                rcases hjudged : (judge rows).run.run υ with ⟨y, ω⟩
                rw [hjudged] at hne
                cases y with
                | error what =>
                    simp only [hjudged]
                    rintro ⟨-, he⟩
                    exact hlabel what he
                | ok r =>
                    simp only [hjudged]
                    rintro ⟨rfl, he⟩
                    exact hne rfl he
      · obtain ⟨υ, hstopped, -⟩ := run_getAppId_stopped (a := a) (by simpa using hget)
        rw [hstopped]
        simp [hmissing, Outcome.lends, hget]

theorem ne_of_true (e : String) (τ : DaoState c)
    (h : ((pure true : Sql c Bool).run.run τ).1 = .ok false) :
    ((pure true : Sql c Bool).run.run τ).2.lastError ≠ e := by
  cases h

theorem ne_of_deleted {e m : String} (hm : m ≠ e) (rows : ℕ) (τ : DaoState c)
    (h : ((if rows = 0 then refuse m else return true : Sql c Bool).run.run τ).1 = .ok false) :
    ((if rows = 0 then refuse m else return true : Sql c Bool).run.run τ).2.lastError ≠ e := by
  by_cases hrows : rows = 0
  · rw [if_pos hrows]
    exact hm
  · rw [if_neg hrows] at h
    cases h

/-- **When one of the six operations reports that its app is missing**: when it finds no app,
and when it is lent no connection after a call that reported the same. -/
theorem reports_appMissing_iff {op : DaoOp} (hop : op.looksUpApp = true) (σ : DaoState c) :
    (op.run.run σ).1 = false ∧ (op.run.run σ).2.lastError = "应用不存在: " ++ op.appCode ↔
      σ.outcome = .refused none ∧ σ.lastError = "应用不存在: " ++ op.appCode ∨
      σ.outcome.lends = true ∧ (getThrough [.connection, .statement] σ.after.outcomes = false ∨
        ¬ σ.db.AppExists op.appCode) := by
  have hne : ∀ label : String, label.toList.head? ≠ some '应' → label.toList ≠ [] →
      ∀ what, label ++ what ≠ "应用不存在: " ++ op.appCode := by
    intro label hlabel hnil what
    exact append_ne_append (by simpa using hlabel) hnil (by decide) _ _
  have hconn := hne "创建连接失败: " (by decide) (by decide)
  cases op with
  | createRole a n k d df =>
      exact reports_of_getAppId hconn (hne "创建角色失败: " (by decide) (by decide))
        fun _ => ne_of_true _
  | createPermission a n k d =>
      exact reports_of_getAppId hconn (hne "创建权限失败: " (by decide) (by decide))
        fun _ => ne_of_true _
  | updateRole a k n d df =>
      exact reports_of_getAppId hconn (hne "更新角色失败: " (by decide) (by decide))
        fun _ => ne_of_true _
  | updatePermission a k n d =>
      exact reports_of_getAppId hconn (hne "更新权限失败: " (by decide) (by decide))
        fun _ => ne_of_true _
  | deleteRole a k =>
      refine reports_of_getAppId hconn (hne "删除角色失败: " (by decide) (by decide))
        (ne_of_deleted ?_)
      simpa [appCode] using hne "角色不存在或已删除" (by decide) (by decide) ""
  | deletePermission a k =>
      refine reports_of_getAppId hconn (hne "删除权限失败: " (by decide) (by decide))
        (ne_of_deleted ?_)
      simpa [appCode] using hne "权限不存在或已删除" (by decide) (by decide) ""
  | _ => simp [looksUpApp] at hop

end DaoOp
end SiqiAuth
