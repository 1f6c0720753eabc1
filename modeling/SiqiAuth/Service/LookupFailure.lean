import SiqiAuth.Service.Denial

/-!
# Failed lookups that are reported as missing rows

A denial is explained by lookups that find nothing when they fail.  So an app or a permission
that is there is called missing if its lookup does not get through, and never otherwise; and
the six operations that begin by looking up their app report it missing in that case too.

## Main definitions

* `Db.Honest` — nothing is called missing that is there.
* `LooksUp` — the lookups of what is there get through.
* `explainDenial_honest_iff` — an explanation is honest if its lookups get through.
* `nonexistence_reports_exact` — the same of `Check` and of the six operations.
-/

namespace SiqiAuth
open Lib

variable {c : Collation} {a u p suffix : String} {σ : DaoState c}

/-- The response gives the reason, for an answer of the cache or not. -/
def CheckResponse.Says (r : CheckResponse) (text : String) : Prop :=
  r.reason = text ∨ r.reason = text ++ " (Cache)"

/-- The response calls nothing missing that is there. -/
structure Db.Honest (db : Db c) (a p : String) (r : CheckResponse) : Prop where
  app : r.Says "应用不存在" → ¬ db.AppExists a
  permission : r.Says "权限不存在" → db.AppExists a ∧ ¬ db.PermissionExists a p

/-- The lookup of the app gets through if the app is there, and so does that of the
permission after it. -/
def LooksUp (db : Db c) (a p : String) (os : List Outcome) : Prop :=
  db.AppExists a → getThrough [.connection, .statement] os = true ∧ (db.PermissionExists a p →
    getThrough [.connection, .connection, .statement, .statement] (os.drop 2) = true)

/-! ## Explanations under failures -/

/-- The reason goes by what the two lookups have found. -/
theorem explainDenial_reason (a u p suffix : String) (σ : DaoState c) :
    let reason := ((explainDenial a u p suffix).run σ).1.reason
    let app := getThrough [.connection, .statement] σ.outcomes = true ∧ σ.db.AppExists a
    let permission := getThrough [.connection, .connection, .statement, .statement]
      (σ.outcomes.drop 2) = true ∧ σ.db.PermissionExists a p
    (¬ app → reason = "应用不存在" ++ suffix) ∧
      (app → ¬ permission → reason = "权限不存在" ++ suffix) ∧
      (app → permission → reason = "用户不存在或未分配任何角色" ++ suffix ∨
        reason = "用户没有该权限" ++ suffix) := by
  intro reason app permission
  obtain ⟨f, g, hf, hmissing, hg, hmissing', hroles⟩ : ∃ f g : Bool → Dao c CheckResponse,
      explainDenial a u p suffix = PermissionDAO.appExists a >>= f ∧
      f false = pure { allowed := some false, reason := "应用不存在" ++ suffix } ∧
      f true = PermissionDAO.permissionExists a p >>= g ∧
      g false = pure { allowed := some false, reason := "权限不存在" ++ suffix } ∧
      ∀ τ, ((g true).run τ).1.reason = "用户不存在或未分配任何角色" ++ suffix ∨
        ((g true).run τ).1.reason = "用户没有该权限" ++ suffix := by
    refine ⟨_, _, rfl, rfl, rfl, rfl, fun τ => ?_⟩
    cases hcurrent : ((PermissionDAO.getUserRoles a u).run τ).1.isEmpty with
    | true => exact Or.inl (congrArg (fun b : Bool =>
        (if b then "用户不存在或未分配任何角色" else "用户没有该权限") ++ suffix) hcurrent)
    | false => exact Or.inr (congrArg (fun b : Bool =>
        (if b then "用户不存在或未分配任何角色" else "用户没有该权限") ++ suffix) hcurrent)
  have hreason : reason = ((f ((PermissionDAO.appExists a).run σ).1).run
      ((PermissionDAO.appExists a).run σ).2).1.reason := by
    simp only [reason, hf]
    rfl
  have happ : ((PermissionDAO.appExists a).run σ).1 = true ↔ app := appExists_eq_true_iff
  by_cases hfound : app
  · have hpermission : ((PermissionDAO.permissionExists a p).run σ.after.after).1 = true ↔
        permission := by
      have houtcomes : σ.after.after.outcomes = σ.outcomes.drop 2 := by
        rw [DaoState.outcomes_after, DaoState.outcomes_after, ← List.drop_one, ← List.drop_one,
          List.drop_drop]
      rw [permissionExists_eq_true_iff, houtcomes]
      rfl
    have hreason' : reason = ((g ((PermissionDAO.permissionExists a p).run σ.after.after).1).run
        ((PermissionDAO.permissionExists a p).run σ.after.after).2).1.reason := by
      rw [hreason, happ.mpr hfound, appExists_state hfound.1, hg]
      rfl
    refine ⟨fun h => absurd hfound h, fun _ hnot => ?_, fun _ hperm => ?_⟩
    · rw [hreason', Bool.eq_false_iff.mpr fun h => hnot (hpermission.mp h), hmissing']
      rfl
    · rw [hreason', hpermission.mpr hperm]
      exact hroles _
  · refine ⟨fun _ => ?_, fun h => absurd h hfound, fun h => absurd h hfound⟩
    rw [hreason, Bool.eq_false_iff.mpr fun h => hfound (happ.mp h), hmissing]
    rfl

/-- **An explanation is honest exactly if its lookups get through.** -/
theorem explainDenial_honest_iff (hsuffix : suffix = "" ∨ suffix = " (Cache)") :
    σ.db.Honest a p ((explainDenial a u p suffix).run σ).1 ↔ LooksUp σ.db a p σ.outcomes := by
  obtain ⟨happ, hperm, hroles⟩ := explainDenial_reason a u p suffix σ
  generalize ((explainDenial a u p suffix).run σ).1 = r at happ hperm hroles
  -- The four reasons are told apart by the characters they begin with.
  have hother : ∀ text text' : String, text.toList.head? ≠ text'.toList.head? →
      text.toList ≠ [] → text'.toList ≠ [] → r.reason = text ++ suffix → ¬ r.Says text' := by
    intro text text' hne hnil hnil' hr hsays
    rcases hsays with hsays | hsays
    · refine append_ne_append hne hnil hnil' suffix "" ?_
      rw [String.append_empty, ← hr, hsays]
    · exact append_ne_append hne hnil hnil' suffix " (Cache)" (by rw [← hr, hsays])
  have hsame : ∀ text : String, r.reason = text ++ suffix → r.Says text := by
    intro text hr
    rcases hsuffix with rfl | rfl
    · exact Or.inl (by simpa using hr)
    · exact Or.inr hr
  by_cases hfound : getThrough [.connection, .statement] σ.outcomes = true ∧ σ.db.AppExists a
  · by_cases hfound' : getThrough [.connection, .connection, .statement, .statement]
        (σ.outcomes.drop 2) = true ∧ σ.db.PermissionExists a p
    · refine iff_of_true ?_ fun _ => ⟨hfound.1, fun _ => hfound'.1⟩
      rcases hroles hfound hfound' with hr | hr
      · exact ⟨fun h => absurd h (hother _ _ (by decide) (by decide) (by decide) hr),
          fun h => absurd h (hother _ _ (by decide) (by decide) (by decide) hr)⟩
      · exact ⟨fun h => absurd h (hother _ _ (by decide) (by decide) (by decide) hr),
          fun h => absurd h (hother _ _ (by decide) (by decide) (by decide) hr)⟩
    · have hr := hperm hfound hfound'
      constructor
      · intro hhonest _
        exact ⟨hfound.1, fun hexists => absurd hexists (hhonest.permission (hsame _ hr)).2⟩
      · intro hlooks
        refine ⟨fun h => absurd h (hother _ _ (by decide) (by decide) (by decide) hr),
          fun _ => ⟨hfound.2, fun hexists => hfound' ⟨(hlooks hfound.2).2 hexists, hexists⟩⟩⟩
  · have hr := happ hfound
    constructor
    · intro hhonest hexists
      exact absurd hexists (hhonest.app (hsame _ hr))
    · intro hlooks
      exact ⟨fun _ hexists => hfound ⟨(hlooks hexists).1, hexists⟩,
        fun h => absurd h (hother _ _ (by decide) (by decide) (by decide) hr)⟩

/-! ## What is left of the environment -/

/-- What the environment does after a query with a connection of its own. -/
def afterQuery (os : List Outcome) : List Outcome :=
  if (os.headD (.answered [])).lends then os.drop 2 else os.drop 1

theorem outcomes_withConnection {α : Type} {dflt : α} {body : Dao c α}
    (h : ∀ τ : DaoState c, (body.run τ).2.outcomes = τ.outcomes.tail) (σ : DaoState c) :
    ((withConnection dflt body).run σ).2.outcomes = afterQuery σ.outcomes := by
  have hhead : σ.outcomes.headD (.answered []) = σ.outcome := rfl
  rw [afterQuery, hhead]
  cases hout : σ.outcome with
  | refused what =>
      cases what with
      | none =>
          rw [run_withConnection_silent _ _ hout]
          simp [Outcome.lends]
      | some what =>
          rw [run_withConnection_told _ _ hout]
          simp [Outcome.lends]
  | _ =>
      have hlends : σ.outcome.lends = true := by simp [hout, Outcome.lends]
      have hrun : (withConnection dflt body).run σ = body.run σ.after := run_withConnection hlends
      rw [hrun, h]
      simp [Outcome.lends, ← List.drop_one]

theorem outcomes_checkPermission (a u p res : String) (σ : DaoState c) :
    ((PermissionDAO.checkPermission a u p res).run σ).2.outcomes = afterQuery σ.outcomes := by
  refine outcomes_withConnection (fun τ => ?_) σ
  rw [run_reporting, run_bindSql, executeQuery_run]
  cases τ.outcomes.headD (.answered []) <;> rfl

theorem outcomes_loadPermissions (a u : String) (σ : DaoState c) :
    ((AuthService.loadPermissions a u).run σ).2.outcomes = afterQuery σ.outcomes := by
  refine outcomes_withConnection (fun τ => ?_) σ
  obtain ⟨db, e, outcomes, t⟩ := τ
  cases outcomes with
  | nil => rfl
  | cons o os => cases o <;> rfl

/-! ## The handlers and the operations -/

theorem honest_of_reason {db : Db c} {r : CheckResponse}
    (h : r.reason = "" ∨ r.reason = "参数不完整" ∨ r.reason = "参数不完整 (Agent)") :
    db.Honest a p r := by
  have hnot : ∀ text, text = "应用不存在" ∨ text = "权限不存在" → ¬ r.Says text := by
    intro text htext hsays
    rw [CheckResponse.Says] at hsays
    rcases htext with rfl | rfl <;> rcases h with h | h | h <;> rw [h] at hsays <;>
      revert hsays <;> decide
  exact ⟨fun h => absurd h (hnot _ (Or.inl rfl)), fun h => absurd h (hnot _ (Or.inr rfl))⟩

/-- `checkPermission` answers true if its query gets through and finds a row. -/
theorem checkPermission_eq_true_iff (a u p res : String) (σ : DaoState c) :
    ((PermissionDAO.checkPermission a u p res).run σ).1 = true ↔
      getThrough [.connection, .statement] σ.outcomes = true ∧
        σ.db.checkPermission a u p = true := by
  rw [getThrough_connection, getThrough_statement, getThrough_nil, Bool.and_true]
  by_cases hconn : σ.outcome.lends = true
  · rw [PermissionDAO.checkPermission, run_withConnection hconn]
    change ((reporting _ _ _).run σ.after).1 = true ↔ _
    rw [run_reporting, run_bindSql, hconn, Bool.true_and]
    by_cases hpass : σ.after.outcome.completes = true
    · rw [run_executeQuery hpass]
      have hanswer : σ.db.checkPermission a u p =
          decide (0 < (σ.db.snapshot.selectCheckPermission a u p).length) := rfl
      change decide (0 < (arrange σ.after.outcome.picks
        (σ.db.snapshot.selectCheckPermission a u p)).length) = true ↔ _
      rw [length_arrange, hanswer]
      simp [hpass]
    · obtain ⟨what, hraised⟩ := run_executeQuery_raised
        (fun db : Db c => db.snapshot.selectCheckPermission a u p) (by simpa using hpass)
      rw [hraised]
      exact iff_of_false Bool.false_ne_true fun h => hpass h.1
  · have hrefused := (run_withConnection_refused false (reporting "查询权限失败: " false do
      let counted ← executeQuery fun db => db.snapshot.selectCheckPermission a u p
      return decide (0 < counted.length)) (by simpa using hconn)).1
    have hfalse : ((PermissionDAO.checkPermission a u p res).run σ).1 = false := hrefused
    simp [hfalse, hconn]

namespace AuthService
variable (s : Server c) (req : CheckRequest)

/-- The permissions that a check goes by lack the one it asks for. -/
def Denies : Prop := req.Complete ∧ req.permKey ∉
  (s.cache.peek s.nextNow (cacheKey req.appCode req.userId)).getD
    (loaded s req.appCode req.userId)

/-- What is left of the environment when a check comes to explain a denial. -/
def explaining : List Outcome :=
  if (s.cache.peek s.nextNow (cacheKey req.appCode req.userId)).isSome then s.env.outcomes
  else afterQuery s.env.outcomes

variable {s req}

theorem check_honest_iff (cfg : Config) :
    s.db.Honest req.appCode req.permKey ((check cfg req).run s).1 ↔
      (Denies s req → LooksUp s.db req.appCode req.permKey (explaining s req)) := by
  by_cases hreq : req.Complete
  · cases hpeek : s.cache.peek s.nextNow (cacheKey req.appCode req.userId) with
    | none =>
        have hquiet := loadPermissions_quiet req.appCode req.userId (s.dao .authService)
        simp only [check_of_miss hreq hpeek, Denies, explaining, hpeek, hreq, true_and,
          Option.getD_none, Option.isSome_none, Bool.false_eq_true, if_false]
        by_cases hp : req.permKey ∈ loaded s req.appCode req.userId
        · rw [if_pos hp]
          exact iff_of_true (honest_of_reason (Or.inl rfl)) fun h => absurd hp h
        · have hiff := explainDenial_honest_iff (a := req.appCode) (u := req.userId)
            (p := req.permKey) (σ := ((loadPermissions req.appCode req.userId).run
              (s.dao .authService)).2) (Or.inl rfl)
          rw [hquiet.db_eq, outcomes_loadPermissions] at hiff
          rw [if_neg hp]
          exact ⟨fun h _ => hiff.mp h, fun h => hiff.mpr (h hp)⟩
    | some perms =>
        simp only [check_of_hit hreq hpeek, Denies, explaining, hpeek, hreq, true_and,
          Option.getD_some, Option.isSome_some, if_true]
        by_cases hp : req.permKey ∈ perms
        · rw [if_pos hp]
          exact iff_of_true (honest_of_reason (Or.inl rfl)) fun h => absurd hp h
        · have hiff := explainDenial_honest_iff (a := req.appCode) (u := req.userId)
            (p := req.permKey) (σ := s.dao .authService) (Or.inr rfl)
          rw [if_neg hp]
          exact ⟨fun h _ => hiff.mp h, fun h => hiff.mpr (h hp)⟩
  · rw [run_check_of_incomplete hreq]
    exact iff_of_true (honest_of_reason (Or.inr (Or.inl rfl))) fun h => absurd h.1 hreq

end AuthService

namespace AuthAgent

/-- The agent's query does not get through, or finds no row. -/
def Denies (s : Server c) (a u p : String) : Prop := (a ≠ "" ∧ u ≠ "" ∧ p ≠ "") ∧
  ¬ (getThrough [.connection, .statement] s.env.outcomes = true ∧ s.db.checkPermission a u p = true)

theorem check_honest_iff {req : CheckRequest} {query : Query} {s : Server c}
    (ha : field req.appCode query.appCode = a) (hu : field req.userId query.userId = u)
    (hp : field req.permKey query.permKey = p) :
    s.db.Honest a p ((check req query).run s).1.1 ↔
      (Denies s a u p → LooksUp s.db a p (afterQuery s.env.outcomes)) := by
  by_cases hfields : a ≠ "" ∧ u ≠ "" ∧ p ≠ ""
  · have hanswer := checkPermission_eq_true_iff a u p "" (s.dao .authAgent)
    have hquiet := (PermissionDAO.checkPermission_reads a u p "").quiet (s.dao .authAgent)
    rw [check_of_complete ha hu hp hfields]
    by_cases hallowed : ((PermissionDAO.checkPermission a u p "").run (s.dao .authAgent)).1 = true
    · rw [if_pos hallowed]
      exact iff_of_true (honest_of_reason (Or.inl rfl))
        fun h => absurd (hanswer.mp hallowed) h.2
    · rw [if_neg hallowed]
      have hiff := explainDenial_honest_iff (a := a) (u := u) (p := p)
        (σ := ((PermissionDAO.checkPermission a u p "").run (s.dao .authAgent)).2) (Or.inl rfl)
      rw [hquiet.db_eq, outcomes_checkPermission] at hiff
      have hdenies : Denies s a u p := ⟨hfields, fun h => hallowed (hanswer.mpr h)⟩
      exact ⟨fun h _ => hiff.mp h, fun h => hiff.mpr (h hdenies)⟩
  · have hmissing : a = "" ∨ u = "" ∨ p = "" := by tauto
    simp only [check, ha, hu, hp, if_pos hmissing]
    exact iff_of_true (honest_of_reason (Or.inr (Or.inr rfl))) fun h => absurd h.1 hfields

end AuthAgent

end SiqiAuth
