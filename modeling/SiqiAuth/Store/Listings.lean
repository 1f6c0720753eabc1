import SiqiAuth.Lib.Grouping
import SiqiAuth.Lib.Paging
import SiqiAuth.Lib.Separated
import SiqiAuth.Store.Interaction

/-!
# What the listing functions return

The functions that list page by page count their rows with one statement and fetch a page with
another, each of which the server answers in an order of its own.  When nothing fails they
return the rows of that page and the count.

## Main definitions

* `DaoState.picks` — the order in which a statement to come is answered.
* `sqlOffset`, `OffsetFits` — the position at which a page is fetched, and that it is the right one.
* `Lists` — what a listing function returns.
* `listApps_lists`, `getRoleUsers_lists`, `listUserRoles_lists`, `listAuditLogs_lists` — the
  four functions.
-/

namespace SiqiAuth
open Lib

variable {c : Collation} {α β γ δ : Type}

/-- The order in which the `i`-th interaction to come is answered. -/
def DaoState.picks (σ : DaoState c) (i : ℕ) : List ℕ := (σ.outcomes.getD i (.answered [])).picks

theorem DaoState.picks_zero (σ : DaoState c) : σ.picks 0 = σ.outcome.picks := by
  obtain ⟨db, e, outcomes, wallClock⟩ := σ
  cases outcomes <;> rfl

theorem DaoState.picks_succ (σ : DaoState c) (i : ℕ) : σ.picks (i + 1) = σ.after.picks i := by
  obtain ⟨db, e, outcomes, wallClock⟩ := σ
  cases outcomes <;> rfl

/-- The position that an `OFFSET` stands for; a negative one is refused. -/
def sqlOffset (offset : ℤ) : Option ℕ := if offset < 0 then none else some offset.toNat

theorem fst_deliver_limitOffset {o : Outcome} (ho : o.succeeds = true) {limit : ℤ}
    (hlimit : 0 < limit) (offset : ℤ) (xs : List α) :
    (deliver o (limitOffset limit offset xs)).1 = pageAt limit.toNat xs (sqlOffset offset) := by
  by_cases hoffset : offset < 0
  · rw [limitOffset, if_pos (Or.inr hoffset), sqlOffset, if_pos hoffset]
    cases o with
    | raised => cases ho
    | _ => rfl
  · have hboth : ¬ (limit < 0 ∨ offset < 0) := by omega
    rw [limitOffset, if_neg hboth, sqlOffset, if_neg hoffset, PermissionDAO.deliver_of_succeeds ho]
    rfl

theorem int32_of_lt {n : ℤ} (hpos : 0 ≤ n) (hn : n < 2 ^ 31) : int32 n = n := by
  rw [int32, Int.bmod_def]
  omega

theorem int32_lt (n : ℤ) : int32 n < 2 ^ 31 := by
  rw [int32, Int.bmod_def]
  omega

theorem pageOffset_eq (page size : ℤ) : pageOffset page size = int32 ((page - 1) * size) := by
  rw [pageOffset, int32, int32, Int.bmod_mul_bmod]
  rfl

/-- As long as the product fits, a page is fetched from where it should be. -/
theorem sqlOffset_pageOffset {size : ℤ} (hsize : 0 < size) {p : ℕ} (hp : p * size < 2 ^ 31) :
    sqlOffset (pageOffset (p + 1) size) = some (p * size.toNat) := by
  have hpos : 0 ≤ p * size := mul_nonneg (by omega) (by omega)
  rw [pageOffset_eq, add_sub_cancel_right, int32_of_lt hpos hp, sqlOffset, if_neg (by omega),
    Int.toNat_mul (by omega) (by omega), Int.toNat_natCast]

/-- A page of `n` rows that should start at `start` is fetched from there: the position fits in 32
bits, or there are no rows from there on, and none where it wraps around to. -/
def OffsetFits (n : ℕ) (start : ℤ) : Prop :=
  start < 2 ^ 31 ∨ n ≤ start ∧ (2 ^ 31 ≤ start % 2 ^ 32 ∨ n ≤ start % 2 ^ 32)

instance (n : ℕ) (start : ℤ) : Decidable (OffsetFits n start) :=
  inferInstanceAs (Decidable (_ ∨ _ ∧ _))

theorem fetches_iff_offsetFits {n : ℕ} {start : ℤ} (hstart : 0 ≤ start) :
    Fetches n start.toNat (sqlOffset (int32 start)) ↔ OffsetFits n start := by
  have hemod := Int.emod_nonneg start (b := 2 ^ 32) (by decide)
  have hlt := Int.emod_lt_of_pos start (b := 2 ^ 32) (by decide)
  have hwrap : int32 start = if start % 2 ^ 32 < 2 ^ 31 then start % 2 ^ 32 else
      start % 2 ^ 32 - 2 ^ 32 := by
    rw [int32, Int.bmod_def]
    rfl
  by_cases hfits : start < 2 ^ 31
  · rw [int32_of_lt hstart hfits, sqlOffset, if_neg (by omega)]
    exact iff_of_true (Or.inl rfl) (Or.inl hfits)
  · rw [Fetches, OffsetFits, hwrap, sqlOffset]
    by_cases hneg : start % 2 ^ 32 < 2 ^ 31
    · rw [if_pos hneg, if_neg (by omega)]
      simp only [Option.some.injEq, Option.mem_def, forall_eq']
      omega
    · rw [if_neg hneg, if_pos (by omega)]
      simp only [reduceCtorEq, Option.mem_def, false_or, false_imp_iff, implies_true, and_true]
      omega

/-- No page is fetched from further on. -/
theorem lt_of_mem_sqlOffset {page size : ℤ} {w : ℕ} (h : w ∈ sqlOffset (pageOffset page size)) :
    w < 2 ^ 31 := by
  have hlt := int32_lt (int32 (page - 1) * size)
  rw [pageOffset, sqlOffset] at h
  split at h
  · cases h
  · obtain rfl := Option.mem_some.mp h
    omega

theorem DaoState.Healthy.outcome {σ : DaoState c} (hσ : σ.Healthy) : σ.outcome.succeeds = true :=
  succeeds_headD hσ

theorem DaoState.Healthy.after {σ : DaoState c} (hσ : σ.Healthy) : σ.after.Healthy :=
  fun o ho => hσ o (List.mem_of_mem_tail ho)

theorem run_fetchWith (rows : Db c → List α) (finish : List α → Except String (List β))
    (σ : DaoState c) : (fetchWith rows finish : Dao c _).run σ =
      (deliver σ.outcome (finish (arrange σ.outcome.picks (rows σ.db))), σ.after) := rfl

theorem fst_run_report (label : String) (raised : Option String) (a : α) (σ : DaoState c) :
    ((do
      report label raised
      return a : Dao c α).run σ).1 = a := by
  cases raised <;> rfl

/-! ## Listing functions -/

/-- When nothing fails, `list` returns the page that is asked for of `rows`, sorted by `key`, and
the total.  The rows come in the order in which interaction `i` is answered. -/
def Lists (list : ℤ → ℤ → Dao c (List β × ℕ)) (rows : Db c → List ℕ → List α) (key : α → ℤ)
    (entry : α → β) (total : Db c → ℕ) (i : ℕ) : Prop :=
  ∀ page size (σ : DaoState c), 0 < size → σ.Healthy → ((list page size).run σ).1 =
    ((pageAt size.toNat (orderByDesc key (rows σ.db (σ.picks i)))
      (sqlOffset (pageOffset page size))).map entry, total σ.db)

section Combinators
variable {list : ℤ → ℤ → Dao c (List β × ℕ)} {rows : Db c → List ℕ → List α} {key : α → ℤ}
  {entry : α → β} {total : Db c → ℕ} {i : ℕ}

theorem Lists.withConnection (h : Lists list rows key entry total i) :
    Lists (fun page size => withConnection ([], 0) (list page size)) rows key entry total
      (i + 1) := by
  intro page size σ hsize hσ
  have hrun : (SiqiAuth.withConnection ([], 0) (list page size)).run σ =
      (list page size).run σ.after :=
    run_withConnection (Outcome.lends_of_succeeds hσ.outcome)
  simp only [hrun, h page size σ.after hsize hσ.after, DaoState.picks_succ, DaoState.db_after]

/-- The body of a listing function: a statement that counts, and then one that fetches. -/
theorem lists_of_countAndFetch (label : String) {counted : Db c → List γ} {select : Db c → List δ}
    (group : List δ → List α) {count : List γ → ℕ}
    {f : ℤ → ℤ → Except String (List γ) → Dao c (List β × ℕ)}
    (hf : ∀ page size xs, f page size (.ok xs) = do
      let x ← fetchWith select fun rows =>
        limitOffset size (pageOffset page size) (orderByDesc key (group rows))
      report label x.2
      return (x.1.map entry, count xs))
    (hcount : ∀ xs ys : List γ, xs.Perm ys → count xs = count ys) :
    Lists (fun page size => (executeQuery counted : Sql c _).run >>= f page size)
      (fun db picks => group (arrange picks (select db))) key entry (fun db => count (counted db))
      1 := by
  intro page size σ hsize hσ
  have hcounted : (executeQuery counted : Sql c _).run.run σ =
      (.ok (arrange σ.outcome.picks (counted σ.db)), σ.after) :=
    run_executeQuery (Outcome.completes_of_succeeds hσ.outcome)
  rw [StateT.run_bind, hcounted]
  change ((f page size (.ok _)).run σ.after).1 = _
  rw [hf, StateT.run_bind, run_fetchWith]
  refine (fst_run_report _ _ _ _).trans ?_
  rw [fst_deliver_limitOffset hσ.after.outcome hsize, DaoState.picks_succ, DaoState.picks_zero,
    hcount _ _ (arrange_perm _ _)]
  rfl

/-- A listing function that looks up its app first, and returns nothing when it finds none. -/
theorem lists_of_getAppId {a : String} {f : ℤ → ℤ → Option ℕ → Dao c (List β × ℕ)}
    {rows : ℕ → Db c → List ℕ → List α} {total : ℕ → Db c → ℕ}
    (hnone : ∀ page size, f page size none = return ([], 0))
    (h : ∀ n, Lists (fun page size => f page size (some n)) (rows n) key entry (total n) i) :
    Lists (fun page size => PermissionDAO.getAppId a >>= f page size)
      (fun db picks => (db.snapshot.selectAppId a).head?.elim [] fun n => rows n db picks)
      key entry (fun db => (db.snapshot.selectAppId a).head?.elim 0 fun n => total n db)
      (i + 2) := by
  intro page size σ hsize hσ
  have hfound : (PermissionDAO.getAppId a).run σ =
      ((σ.db.snapshot.selectAppId a).head?, σ.after.after) :=
    run_getAppId (getThrough_of_succeeds hσ _)
  rw [StateT.run_bind, hfound]
  change ((f page size _).run σ.after.after).1 = _
  cases hhead : (σ.db.snapshot.selectAppId a).head? with
  | none =>
      have hnil : ∀ offset, pageAt size.toNat (orderByDesc key []) offset = [] := by
        intro offset
        cases offset <;> simp [pageAt, orderByDesc]
      simp only [hnone, hhead, Option.elim_none, hnil]
      rfl
  | some n =>
      have hlist := h n page size σ.after.after hsize hσ.after.after
      simp only [DaoState.db_after] at hlist
      simp only [hhead, Option.elim_some, DaoState.picks_succ]
      exact hlist

end Combinators

/-! ## The four functions -/

/-- Whether two rows are of one user, as the column compares users. -/
def sameUser (c : Collation) (x y : Snapshot.UserRoleJoin) : Bool :=
  c.same x.ur.appUserId y.ur.appUserId

namespace PermissionDAO

theorem listApps_lists (n : Option String) (st : Option ℤ) :
    Lists (c := c) (fun page size => listApps page size n st)
      (fun db picks => arrange picks (db.snapshot.selectApps n st)) (fun a => (a.id : ℤ)) id
      (fun db => (db.snapshot.selectApps n st).length) 2 := by
  refine (lists_of_countAndFetch "获取应用列表失败: " (fun xs => xs) (fun page size xs => ?_)
    fun _ _ h => h.length_eq).withConnection
  simp only [List.map_id]

theorem getRoleUsers_lists (a k : String) : Lists (c := c)
    (fun page size => getRoleUsers a k page size)
    (fun db picks => (db.snapshot.selectAppId a).head?.elim [] fun n =>
      arrange picks (db.snapshot.selectRoleUsers n k))
    (fun x => x.1.createdAt) (fun x => (x.1.appUserId, x.1.createdAt))
    (fun db => (db.snapshot.selectAppId a).head?.elim 0 fun n =>
      (db.snapshot.selectRoleUsers n k).length) 4 :=
  (lists_of_getAppId (fun _ _ => rfl) fun _ => lists_of_countAndFetch "查询角色用户失败: "
    (fun xs => xs) (fun _ _ _ => rfl) fun _ _ h => h.length_eq).withConnection

/-- The entry that `listUserRoles` makes of a group. -/
def userRoleData : Snapshot.UserRoleJoin × List Snapshot.UserRoleJoin → UserRoleData
  | (x, group) =>
      { userId := x.ur.appUserId
        roleKeys := splitKeys (groupConcat (distinct c.same (group.map fun y => y.role.roleKey)))
        permKeys := splitKeys (groupConcat (distinct c.same
          (group.filterMap fun y => y.perm.map SysPermission.permKey)))
        createdAt := firstCreated x group }

/-- The number of users that `listUserRoles` counts. -/
def countUsers (c : Collation) (users : List SysUserRole) : ℕ :=
  (distinct c.same (users.map SysUserRole.appUserId)).length

theorem countUsers_perm {xs ys : List SysUserRole} (h : xs.Perm ys) :
    countUsers c xs = countUsers c ys := by
  have hperm := map_distinct_perm c.same_iff_value (h.map SysUserRole.appUserId)
  simpa [countUsers] using hperm.length_eq

theorem listUserRoles_lists (a : String) (u : Option String) : Lists (c := c)
    (fun page size => listUserRoles a page size u)
    (fun db picks => (db.snapshot.selectAppId a).head?.elim [] fun n =>
      groups (sameUser c)
        (arrange picks (db.snapshot.selectUserRoleData n (u.filter (· ≠ "")))))
    (fun g => firstCreated g.1 g.2) (userRoleData (c := c))
    (fun db => (db.snapshot.selectAppId a).head?.elim 0 fun n =>
      countUsers c (db.snapshot.selectUsers n (u.filter (· ≠ "")))) 4 :=
  (lists_of_getAppId (fun _ _ => rfl) fun _ => lists_of_countAndFetch "查询用户角色列表失败: "
    (groups (sameUser c))
    (fun _ _ _ => rfl)
    fun _ _ => countUsers_perm).withConnection

theorem listAuditLogs_lists (a action operatorId targetId : Option String)
    (startTime endTime : Option ℤ) : Lists (c := c)
    (fun page size => listAuditLogs page size a action operatorId targetId startTime endTime)
    (fun db picks => arrange picks (db.selectAuditLogs
      ⟨a.filter (· ≠ ""), action.filter (· ≠ ""), operatorId.filter (· ≠ ""),
        targetId.filter (· ≠ ""), startTime, endTime⟩))
    (fun l => l.createdAt) id
    (fun db => (db.selectAuditLogs
      ⟨a.filter (· ≠ ""), action.filter (· ≠ ""), operatorId.filter (· ≠ ""),
        targetId.filter (· ≠ ""), startTime, endTime⟩).length) 2 := by
  refine (lists_of_countAndFetch "查询审计日志失败: " (fun xs => xs) (fun page size xs => ?_)
    fun _ _ h => h.length_eq).withConnection
  simp only [List.map_id]

end PermissionDAO
end SiqiAuth
