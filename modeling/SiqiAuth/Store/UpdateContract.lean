import SiqiAuth.Store.Existence

/-!
# What the updating operations promise

An update should report success exactly if the row it is about exists, set what it is given
and nothing else, and do the same when it is repeated.  `updateApp` judges by the number of
rows changed, `updateRole` and `updatePermission` by nothing at all, and `updateApp` without a
value returns before it looks: none of the three keeps this for all arguments.

## Main definitions

* `Rewritten` — row by row, what is named is rewritten and the rest stays.
* `DaoOp.Sets` — an update sets what it is given and nothing else.
* `DaoOp.Contract` — what is to be expected of an update.
* `update_contract_iff` — when the three operations keep it.
-/

namespace SiqiAuth
open Lib

variable {c : Collation}

/-- Row by row, what is named is rewritten as `set` says, and what is not stays. -/
def Rewritten {α : Type} (named : α → Prop) (set : α → α → Prop) (rows rows' : List α) : Prop :=
  List.Forall₂ (fun x x' => (named x → set x x') ∧ (¬ named x → x' = x)) rows rows'

theorem rewritten_map {α : Type} {named : α → Prop} {set : α → α → Prop} {rows : List α}
    {f : α → α} (h : ∀ x ∈ rows, (named x → set x (f x)) ∧ (¬ named x → f x = x)) :
    Rewritten named set rows (rows.map f) :=
  List.forall₂_map_right_iff.mpr (List.forall₂_same.mpr h)

/-- The tables hold the same, but for the columns `updated_at`. -/
structure Db.SameButUpdated (db db' : Db c) : Prop where
  apps : List.Forall₂ (fun x x' => x' = { x with updatedAt := x'.updatedAt }) db.sysApps.rows
    db'.sysApps.rows
  roles : List.Forall₂ (fun x x' => x' = { x with updatedAt := x'.updatedAt }) db.sysRoles.rows
    db'.sysRoles.rows
  permissions : List.Forall₂ (fun x x' => x' = { x with updatedAt := x'.updatedAt })
    db.sysPermissions.rows db'.sysPermissions.rows
  rest : db' = { db with
    sysApps := db'.sysApps, sysRoles := db'.sysRoles, sysPermissions := db'.sysPermissions }

theorem Db.SameButUpdated.refl (db : Db c) : db.SameButUpdated db where
  apps := List.forall₂_same.mpr fun _ _ => rfl
  roles := List.forall₂_same.mpr fun _ _ => rfl
  permissions := List.forall₂_same.mpr fun _ _ => rfl
  rest := rfl

namespace DaoOp

/-! ## The contract -/

/-- The row that an update is about exists. -/
def Addressed (db : Db c) : DaoOp → Prop
  | updateApp a .. => db.AppExists a
  | updateRole a k .. => ∃ app role, db.NamesRole a k app role
  | updatePermission a k .. => db.PermissionExists a k
  | _ => False

/-- The values of an update fit their columns. -/
def FitsColumns : DaoOp → Prop
  | updateApp _ n d st => (∀ x ∈ n, x.length ≤ 50) ∧ (∀ x ∈ d, x.length ≤ 255) ∧
      ∀ x ∈ st, -128 ≤ x ∧ x ≤ 127
  | updateRole _ _ n d _ => (∀ x ∈ n, x.length ≤ 32) ∧ ∀ x ∈ d, x.length ≤ 255
  | updatePermission _ _ n d => (∀ x ∈ n, x.length ≤ 64) ∧ ∀ x ∈ d, x.length ≤ 255
  | _ => True

/-- The row that the update is about holds what it was given, and all else, but for
`updated_at`, what it held before. -/
def Sets (db db' : Db c) : DaoOp → Prop
  | updateApp a n d st => db' = { db with sysApps := db'.sysApps } ∧
      Rewritten (fun x => c.same x.appCode a = true) (fun x x' => x' = { x with
        appName := n.getD x.appName
        description := d.getD x.description
        status := st.getD x.status
        updatedAt := x'.updatedAt }) db.sysApps.rows db'.sysApps.rows
  | updateRole a k n d df => db' = { db with sysRoles := db'.sysRoles } ∧
      Rewritten (fun x => ∃ app, db.NamesRole a k app x) (fun x x' => x' = { x with
        roleName := n.getD x.roleName
        description := d.getD x.description
        isDefault := df.getD x.isDefault
        updatedAt := x'.updatedAt }) db.sysRoles.rows db'.sysRoles.rows
  | updatePermission a k n d => db' = { db with sysPermissions := db'.sysPermissions } ∧
      Rewritten (fun x => ∃ app ∈ db.sysApps, c.same app.appCode a = true ∧
        db.NamesPermission app k x) (fun x x' => x' = { x with
          permName := n.getD x.permName
          description := d.getD x.description
          updatedAt := x'.updatedAt }) db.sysPermissions.rows db'.sysPermissions.rows
  | _ => False

/-- What is to be expected of an update: it returns true exactly if its row exists, and then
has set what it was given and nothing else; and called again, it returns true and leaves the
tables as they are. -/
structure Contract (op : DaoOp) (σ : DaoState c) : Prop where
  returns : (op.run.run σ).1 = true ↔ op.Addressed σ.db
  sets : (op.run.run σ).1 = true → op.Sets σ.db (op.run.run σ).2.db
  again : (op.run.run σ).1 = true → ∀ υ : DaoState c, υ.db = (op.run.run σ).2.db → υ.Healthy →
    (op.run.run υ).1 = true ∧ υ.db.SameButUpdated (op.run.run υ).2.db

/-- An undisturbed operation does what its plan says. -/
theorem run_of_healthy {σ : DaoState c} (hσ : σ.Healthy) (op : DaoOp) :
    ((op.run.run σ).1, (op.run.run σ).2.db) = op.apply σ.wallClock σ.db :=
  ((op.run_exact σ).through (getThrough_of_succeeds hσ _)).1

/-! ## Updating an app -/

section App
variable {σ : DaoState c} {a : String} {n d : Option String} {st : Option ℤ}

theorem overflow_updateApp (h : (updateApp a n d st).FitsColumns) :
    (Statement.updateApp a n d st).overflow = none := by
  obtain ⟨hn, hd, hst⟩ := h
  have hvalues : tooLong (Statement.updateApp a n d st).values = none := by
    cases n <;> cases d <;> simp_all [Statement.values, tooLong, varchar_of_le]
  cases st with
  | none => exact hvalues
  | some st =>
      have hrange := hst st rfl
      have hin : ¬ (st < -128 ∨ 127 < st) := by omega
      simp only [Statement.overflow, if_neg hin, hvalues, Option.or_none]

theorem apply_updateApp (t : ℤ) (db : Db c) (h : (updateApp a n d st).FitsColumns)
    (hidle : (updateApp a n d st).idle = false) : (updateApp a n d st).apply t db =
      (decide (0 < (db.sysApps.rows.filter fun x => c.same x.appCode a &&
        decide (x.set (dateTime t) n d st ≠ x)).length), db.setApp (dateTime t) a n d st) := by
  have hexec : (Statement.updateApp a n d st).exec (dateTime t) db =
      (Statement.updateApp a n d st).write (dateTime t) db :=
    Statement.exec_of_admitted (Or.inl (overflow_updateApp h))
  simp only [apply, hidle, Bool.false_eq_true, if_false, plan, hexec]
  rfl

/-- What an update of an app writes. -/
theorem set_eq (h : (updateApp a n d st).FitsColumns) (now : DateTime) (x : SysApp) :
    x.set now n d st = { x with
      appName := n.getD x.appName
      description := d.getD x.description
      status := st.getD x.status
      updatedAt := (x.set now n d st).updatedAt } := by
  by_cases hsame : { x with
      appName := n.getD x.appName
      description := d.getD x.description
      status := st.getD x.status } = x
  · simp only [SysApp.set, map_varchar_of_le h.1, map_varchar_of_le h.2.1, if_pos hsame]
    exact hsame.symm
  · simp only [SysApp.set, map_varchar_of_le h.1, map_varchar_of_le h.2.1, if_neg hsame]

/-- Setting the same values twice changes nothing the second time. -/
theorem set_set (h : (updateApp a n d st).FitsColumns) (now now' : DateTime) (x : SysApp) :
    (x.set now n d st).set now' n d st = x.set now n d st := by
  have hvalues : x.set now n d st = { x with
      appName := n.getD x.appName
      description := d.getD x.description
      status := st.getD x.status
      updatedAt := (x.set now n d st).updatedAt } := set_eq h now x
  generalize x.set now n d st = y at hvalues ⊢
  have hsame : { y with
      appName := n.getD y.appName
      description := d.getD y.description
      status := st.getD y.status } = y := by
    rw [hvalues]
    cases n <;> cases d <;> cases st <;> rfl
  simp only [SysApp.set, map_varchar_of_le h.1, map_varchar_of_le h.2.1, if_pos hsame]

/-- What `updateApp` writes is as the contract asks; only what it returns is not. -/
theorem sets_updateApp (h : (updateApp a n d st).FitsColumns) (now : DateTime) (db : Db c) :
    (updateApp a n d st).Sets db (db.setApp now a n d st) := by
  refine ⟨rfl, rewritten_map fun x _ => ⟨fun hnamed => ?_, fun hnamed => if_neg hnamed⟩⟩
  rw [if_pos hnamed]
  exact set_eq h now x

/-- **An update of an app keeps the contract exactly if there is no app and something to set,
or an app and nothing to set.** -/
theorem contract_updateApp_iff (hσ : σ.Healthy) (hfits : (updateApp a n d st).FitsColumns) :
    (updateApp a n d st).Contract σ ↔
      (σ.db.AppExists a ↔ n = none ∧ d = none ∧ st = none) := by
  have hidle : (updateApp a n d st).idle = true ↔ n = none ∧ d = none ∧ st = none := by
    simp [idle, and_assoc]
  by_cases hnothing : n = none ∧ d = none ∧ st = none
  · have hrun : ∀ υ : DaoState c, υ.Healthy → ((updateApp a n d st).run.run υ).1 = true ∧
        ((updateApp a n d st).run.run υ).2.db = υ.db := by
      intro υ hυ
      have happly := run_of_healthy hυ (updateApp a n d st)
      simp only [apply, hidle.mpr hnothing, if_true, Prod.mk.injEq] at happly
      exact happly
    rw [iff_true_right hnothing]
    constructor
    · intro hcontract
      exact hcontract.returns.mp (hrun σ hσ).1
    · intro hexists
      refine ⟨iff_of_true (hrun σ hσ).1 hexists, fun _ => ?_, fun _ υ _ hυ => ?_⟩
      · rw [(hrun σ hσ).2]
        refine ⟨rfl, List.forall₂_same.mpr fun x _ => ⟨fun _ => ?_, fun _ => rfl⟩⟩
        simp [hnothing]
      · rw [(hrun υ hυ).2]
        exact ⟨(hrun υ hυ).1, .refl _⟩
  · have hbusy : (updateApp a n d st).idle = false := by
      simp [← hidle] at hnothing ⊢
      exact hnothing
    have hrun : ∀ υ : DaoState c, υ.Healthy → (((updateApp a n d st).run.run υ).1 = true ↔
        ∃ x ∈ υ.db.sysApps, c.same x.appCode a = true ∧ x.set (dateTime υ.wallClock) n d st ≠ x) ∧
        ((updateApp a n d st).run.run υ).2.db = υ.db.setApp (dateTime υ.wallClock) a n d st := by
      intro υ hυ
      have happly := run_of_healthy hυ (updateApp a n d st)
      rw [apply_updateApp _ _ hfits hbusy, Prod.mk.injEq] at happly
      refine ⟨?_, happly.2⟩
      rw [happly.1, decide_eq_true_iff, List.length_pos_iff_exists_mem]
      simp
    rw [iff_false_right hnothing]
    constructor
    · intro hcontract hexists
      -- The first call has changed the row, so the second one finds nothing to change.
      have hdone := hcontract.returns.mpr hexists
      obtain ⟨hagain, -⟩ := hcontract.again hdone ⟨((updateApp a n d st).run.run σ).2.db, "", [], 0⟩
        rfl fun o ho => by cases ho
      obtain ⟨x, hx, hcode, hne⟩ := (hrun _ fun o ho => by cases ho).1.mp hagain
      rw [(hrun σ hσ).2] at hx
      obtain ⟨y, -, rfl⟩ := Db.mem_setApp.mp hx
      by_cases hnamed : c.same y.appCode a = true
      · rw [if_pos hnamed, set_set hfits] at hne
        exact hne rfl
      · rw [if_neg hnamed] at hcode
        exact hnamed hcode
    · intro hmissing
      have hfalse : ¬ ((updateApp a n d st).run.run σ).1 = true := by
        rw [(hrun σ hσ).1]
        rintro ⟨x, hx, hcode, -⟩
        exact hmissing ⟨x, hx, hcode⟩
      exact ⟨iff_of_false hfalse hmissing, fun h => absurd h hfalse, fun h => absurd h hfalse⟩

end App

/-! ## Updating what belongs to an app -/

section Owned
variable {σ : DaoState c} {a k : String} {n d : Option String} {df : Option Bool}

/-- An update that finds its app, sends a statement and does not look at the row count keeps
the contract exactly if the app does not exist or the row does. -/
theorem contract_of_lookup {op : DaoOp} {f : ℤ → ℕ → Db c → Db c} (hσ : σ.Healthy)
    (happly : ∀ t (db : Db c), op.apply t db = match (db.snapshot.selectAppId a).head? with
      | none => (false, db)
      | some appId => (true, f t appId db))
    (happs : ∀ t appId db, (f t appId db).sysApps = db.sysApps)
    (hsets : ∀ t (db : Db c), ∀ app ∈ db.sysApps, c.same app.appCode a = true →
      op.Sets db (f t app.id db))
    (hagain : ∀ t t' appId db,
      (f t appId db).SameButUpdated (f t' appId (f t appId db)))
    (hexists : op.Addressed σ.db → σ.db.AppExists a) :
    op.Contract σ ↔ (σ.db.AppExists a → op.Addressed σ.db) := by
  have hrun : ∀ υ : DaoState c, υ.Healthy → ((op.run.run υ).1, (op.run.run υ).2.db) =
      match (υ.db.snapshot.selectAppId a).head? with
        | none => (false, υ.db)
        | some appId => (true, f υ.wallClock appId υ.db) :=
    fun υ hυ => (run_of_healthy hυ op).trans (happly _ _)
  have hσrun := hrun σ hσ
  by_cases happ : σ.db.AppExists a
  · obtain ⟨app, hmem, hcode⟩ := happ
    rw [σ.db.head?_selectAppId hmem hcode, Prod.mk.injEq] at hσrun
    obtain ⟨htrue, hdb⟩ := hσrun
    constructor
    · intro hcontract _
      exact hcontract.returns.mp htrue
    · intro haddressed
      refine ⟨iff_of_true htrue (haddressed ⟨app, hmem, hcode⟩), fun _ => ?_, fun _ υ hυ hυ' => ?_⟩
      · rw [hdb]
        exact hsets _ _ app hmem hcode
      · have hmem' : app ∈ υ.db.sysApps := by rw [hυ, hdb, happs]; exact hmem
        have hυrun := hrun υ hυ'
        rw [υ.db.head?_selectAppId hmem' hcode, Prod.mk.injEq] at hυrun
        refine ⟨hυrun.1, ?_⟩
        rw [hυrun.2, hυ, hdb]
        exact hagain _ _ _ _
  · have hnone : (σ.db.snapshot.selectAppId a).head? = none := by
      rw [← Option.not_isSome_iff_eq_none, Db.isSome_head?_selectAppId]
      exact happ
    rw [hnone, Prod.mk.injEq] at hσrun
    have hfalse : ¬ (op.run.run σ).1 = true := by simp [hσrun.1]
    refine iff_of_true ⟨iff_of_false hfalse fun h => happ (hexists h), fun h => absurd h hfalse,
      fun h => absurd h hfalse⟩ fun h => absurd h happ

theorem overflow_updateRole (h : (updateRole a k n d df).FitsColumns) (appId : ℕ) :
    (Statement.updateRole appId k n d df).overflow = none := by
  obtain ⟨hn, hd⟩ := h
  cases n <;> cases d <;> simp_all [Statement.overflow, Statement.values, tooLong, varchar_of_le]

theorem overflow_updatePermission (h : (updatePermission a k n d).FitsColumns) (appId : ℕ) :
    (Statement.updatePermission appId k n d).overflow = none := by
  obtain ⟨hn, hd⟩ := h
  cases n <;> cases d <;> simp_all [Statement.overflow, Statement.values, tooLong, varchar_of_le]

theorem contract_updateRole_iff (hσ : σ.Healthy) (hfits : (updateRole a k n d df).FitsColumns) :
    (updateRole a k n d df).Contract σ ↔
      (σ.db.AppExists a → ∃ app role, σ.db.NamesRole a k app role) := by
  refine contract_of_lookup (f := fun t appId db => db.setRole (dateTime t) appId k n d df) hσ
    (fun t db => ?_) (fun _ _ _ => rfl) (fun t db app happ hcode => ?_) (fun t t' appId db => ?_) ?_
  · cases hhead : (db.snapshot.selectAppId a).head? with
    | none => simp [apply, idle, plan, hhead]
    | some appId =>
        have hexec : (Statement.updateRole appId k n d df).exec (dateTime t) db =
            (Statement.updateRole appId k n d df).write (dateTime t) db :=
          Statement.exec_of_admitted (Or.inl (overflow_updateRole hfits appId))
        simp only [apply, idle, plan, hhead, Option.map_some, Bool.false_eq_true, if_false, hexec]
        rfl
  · refine ⟨rfl, rewritten_map fun x hx => ⟨?_, fun hnamed => if_neg fun h => hnamed ?_⟩⟩
    · rintro ⟨app', hrole⟩
      obtain rfl := db.app_unique happ hrole.app_mem hcode hrole.code
      simp [hrole.appId, hrole.key, SysRole.set, map_varchar_of_le hfits.1,
        map_varchar_of_le hfits.2]
    · simp only [Bool.and_eq_true, beq_iff_eq] at h
      exact ⟨app, happ, hcode, hx, h.1, h.2⟩
  · refine { Db.SameButUpdated.refl _ with roles := ?_, rest := rfl }
    refine List.forall₂_map_right_iff.mpr (List.forall₂_same.mpr fun x hx => ?_)
    obtain ⟨y, -, rfl⟩ := Db.mem_setRole.mp hx
    by_cases hnamed : (y.appId == appId && c.same y.roleKey k) = true
    · simp only [hnamed, if_true]
      cases n <;> cases d <;> cases df <;> simp_all [SysRole.set]
    · simp only [hnamed, Bool.false_eq_true, if_false]
  · rintro ⟨app, role, hrole⟩
    exact ⟨app, hrole.app_mem, hrole.code⟩

theorem contract_updatePermission_iff (hσ : σ.Healthy)
    (hfits : (updatePermission a k n d).FitsColumns) :
    (updatePermission a k n d).Contract σ ↔
      (σ.db.AppExists a → σ.db.PermissionExists a k) := by
  refine contract_of_lookup (f := fun t appId db => db.setPermission (dateTime t) appId k n d) hσ
    (fun t db => ?_) (fun _ _ _ => rfl) (fun t db app happ hcode => ?_) (fun t t' appId db => ?_)
    Db.PermissionExists.appExists
  · cases hhead : (db.snapshot.selectAppId a).head? with
    | none => simp [apply, idle, plan, hhead]
    | some appId =>
        have hexec : (Statement.updatePermission appId k n d).exec (dateTime t) db =
            (Statement.updatePermission appId k n d).write (dateTime t) db :=
          Statement.exec_of_admitted (Or.inl (overflow_updatePermission hfits appId))
        simp only [apply, idle, plan, hhead, Option.map_some, Bool.false_eq_true, if_false, hexec]
        rfl
  · refine ⟨rfl, rewritten_map fun x hx => ⟨?_, fun hnamed => if_neg fun h => hnamed ?_⟩⟩
    · rintro ⟨app', happ', hcode', hperm⟩
      obtain rfl := db.app_unique happ happ' hcode hcode'
      simp [hperm.appId, hperm.key, SysPermission.set, map_varchar_of_le hfits.1,
        map_varchar_of_le hfits.2]
    · simp only [Bool.and_eq_true, beq_iff_eq] at h
      exact ⟨app, happ, hcode, hx, h.1, h.2⟩
  · refine { Db.SameButUpdated.refl _ with permissions := ?_, rest := rfl }
    refine List.forall₂_map_right_iff.mpr (List.forall₂_same.mpr fun x hx => ?_)
    obtain ⟨y, -, rfl⟩ := Db.mem_setPermission.mp hx
    by_cases hnamed : (y.appId == appId && c.same y.permKey k) = true
    · simp only [hnamed, if_true]
      cases n <;> cases d <;> simp_all [SysPermission.set]
    · simp only [hnamed, Bool.false_eq_true, if_false]

end Owned
end DaoOp

/-- **When the updating operations keep their contract**, in any state and when nothing fails:
`updateApp` exactly if there is no such app and something to set, or one and nothing to set;
`updateRole` and `updatePermission` exactly if there is no such app, or the app has the row. -/
theorem update_contract_iff {σ : DaoState c} (hσ : σ.Healthy) :
    (∀ a n d st, (DaoOp.updateApp a n d st).FitsColumns →
      ((DaoOp.updateApp a n d st).Contract σ ↔
        (σ.db.AppExists a ↔ n = none ∧ d = none ∧ st = none))) ∧
    (∀ a k n d df, (DaoOp.updateRole a k n d df).FitsColumns →
      ((DaoOp.updateRole a k n d df).Contract σ ↔
        (σ.db.AppExists a → ∃ app role, σ.db.NamesRole a k app role))) ∧
    ∀ a k n d, (DaoOp.updatePermission a k n d).FitsColumns →
      ((DaoOp.updatePermission a k n d).Contract σ ↔
        (σ.db.AppExists a → σ.db.PermissionExists a k)) :=
  ⟨fun _ _ _ _ => DaoOp.contract_updateApp_iff hσ,
    fun _ _ _ _ _ => DaoOp.contract_updateRole_iff hσ,
    fun _ _ _ _ => DaoOp.contract_updatePermission_iff hσ⟩

/-- The description of a permission is updated as it should be. -/
theorem update_contract_iff_permission :
    (DaoOp.updatePermission "qq_bot" "member:kick" none (some "")).Contract
      (.start 0 : DaoState .binary) := by
  have hcontract : ∀ σ : DaoState .binary, σ.Healthy →
      σ.db.PermissionExists "qq_bot" "member:kick" →
      (DaoOp.updatePermission "qq_bot" "member:kick" none (some "")).Contract σ := by
    intro σ hσ hexists
    obtain ⟨-, -, hpermission⟩ := update_contract_iff hσ
    exact (hpermission _ _ _ _ (by simp [DaoOp.FitsColumns])).mpr fun _ => hexists
  refine hcontract (.start 0) (fun o ho => by cases ho) ?_
  rw [DaoState.start_eq_seeded]
  decide +kernel

/-- An app that exists is given the status it has: `updateApp` returns false.  And a role that
does not exist is reported updated. -/
theorem update_contract_broken :
    let σ : DaoState .binary := .start 0
    σ.db.AppExists "qq_bot" ∧
      ((PermissionDAO.updateApp "qq_bot" none none (some 1)).run σ).1 = false ∧
      σ.db.snapshot.selectRole "qq_bot" "nobody" = [] ∧
      ((PermissionDAO.updateRole "qq_bot" "nobody" (some "x") none none).run σ).1 = true := by
  rw [DaoState.start_eq_seeded]
  decide +kernel

end SiqiAuth
