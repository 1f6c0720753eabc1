import SiqiAuth.Service.LostInvalidation
import SiqiAuth.Store.Interaction

/-!
# The audit trail

After an operation of the DAO has reported success, the handler asks `createAuditLog` for a
row, on another connection and outside any transaction, and does not look at the answer.
So the log follows what operations report rather than what they change, and a change
whose row cannot be written stands without one.

## Main definitions

* `SysAuditLog.Names` — a row names the operator, the app and what was acted on.
* `edit_audited` — what an edit writes to the tables and to the log when nothing fails.
* `Server.Recorded`, `Server.Recordable` — a change has its row; the row can be written.
* `changes_recorded` — the one holds along a run just when the other does.
-/

namespace SiqiAuth
open Lib AdminService

variable {c : Collation}

/-- What an edit acts on: the key of its target, and of the object that it ties to the
target or takes from it. -/
def AdminService.EditRequest.actedOn : EditRequest → String × String
  | createApp _ appCode _ | updateApp appCode _ _ _ | deleteApp appCode => (appCode, "")
  | grantRoleToUser _ userId roleKey | revokeRoleFromUser _ userId roleKey => (userId, roleKey)
  | addPermissionToRole _ roleKey permKey | removePermissionFromRole _ roleKey permKey =>
      (roleKey, permKey)
  | createRole _ _ roleKey _ _ | deleteRole _ roleKey | updateRole _ roleKey _ _ _ => (roleKey, "")
  | createPermission _ _ permKey _ | deletePermission _ permKey
  | updatePermission _ permKey _ _ => (permKey, "")

/-- The app code of a request. -/
def AdminService.EditRequest.appCode : EditRequest → String
  | createApp _ appCode _ | updateApp appCode _ _ _ | deleteApp appCode
  | grantRoleToUser appCode _ _ | revokeRoleFromUser appCode _ _ | addPermissionToRole appCode _ _
  | removePermissionFromRole appCode _ _ | createRole appCode _ _ _ _ | deleteRole appCode _
  | updateRole appCode _ _ _ _ | createPermission appCode _ _ _ | deletePermission appCode _
  | updatePermission appCode _ _ _ => appCode

/-- A row of the log names the operator, the app and what was acted on, as its columns keep
them. -/
structure SysAuditLog.Names (row : SysAuditLog) (session : SessionInfo) (req : EditRequest) :
    Prop where
  operatorId_eq : row.operatorId = session.userId
  operatorName_eq : row.operatorName = varchar 32 session.realName
  appCode_eq : row.appCode = varchar 32 req.appCode
  acted_eq : (row.targetId, row.objectId) = req.actedOn.map (varchar 128) (varchar 128)

theorem AuditEntry.names_row (req : EditRequest) (session : SessionInfo) (id : ℕ) (now : DateTime) :
    ((req.edit.audit session).row id now).Names session req := by
  constructor
  · rfl
  · rfl
  · cases req <;> rfl
  · cases req <;> rfl

/-- The tables after the call of the DAO and the audit row. -/
theorem AdminService.db_execute (e : Edit) (session : SessionInfo) (s : Server c) :
    ((execute e session).run s).2.db =
      let out := e.op.run.run (s.dao .adminService)
      if out.1 then ((PermissionDAO.createAuditLog (e.audit session)).run out.2).2.db
      else out.2.db := by
  obtain ⟨appSecret, hrun⟩ := e.run_run (s.dao .adminService)
  have hleft : ∀ σ : DaoState c, (s.left .adminService σ).dao .adminService = σ := by
    intro σ
    simp [Server.left, Server.dao]
  simp only [execute, run_bind, run_call, hrun]
  cases (e.op.run.run (s.dao .adminService)).1 with
  | false => rfl
  | true =>
      simp only [if_true, run_bind, run_call, hleft]
      rfl

/-- The tables after an edit in a session. -/
theorem AdminService.db_edit {e : Edit} {header : Option String} {s : Server c}
    {session : SessionInfo} (h : s.session header = some session) :
    ((edit e header).run s).2.db =
      if "" ∈ e.required then s.db
      else
        let out := e.op.run.run (s.dao .adminService)
        if out.1 then ((PermissionDAO.createAuditLog (e.audit session)).run out.2).2.db
        else out.2.db := by
  rw [run_edit_some h]
  by_cases hreq : "" ∈ e.required
  · simp only [editAs, hreq, if_true]
    exact s.db_gated header
  · simp only [editAs, hreq, if_false]
    rw [← s.dao_gated header]
    exact db_execute e session
      { s.gated header with cache := e.invalidation.apply (s.gated header).cache }

/-! ## When nothing fails -/

/-- **What an edit writes when nothing fails.**  The tables change just when the operation
writes.  One row is appended to the log, and names what it should, just when the operation
reports success and the row fits; and it reports success also where it is vacuous. -/
theorem edit_audited (cfg : Config) (s : Server c) (req : EditRequest) (header : Option String)
    (env : Env) {session : SessionInfo} (hsession : (s.facing env).session header = some session)
    (hhealthy : (s.facing env).Healthy) :
    let s' := s.step cfg ⟨.edit req header, env⟩
    let writes := req.edit.op.Writes env.wallClock s.db
    let vacuous := req.edit.op.Vacuous env.wallClock s.db
    (s'.db.snapshot ≠ s.db.snapshot ↔ "" ∉ req.edit.required ∧ writes) ∧
      ("" ∉ req.edit.required ∧ (writes ∨ vacuous) ∧ (req.edit.audit session).Fits →
        ∃ row, row.Names session req ∧
          s'.db.sysAuditLogs.rows = s.db.sysAuditLogs.rows ++ [row]) ∧
      (¬ ("" ∉ req.edit.required ∧ (writes ∨ vacuous) ∧ (req.edit.audit session).Fits) →
        s'.db.sysAuditLogs.rows = s.db.sysAuditLogs.rows) := by
  intro s' writes vacuous
  have hdb : s'.db = _ := db_edit hsession
  by_cases hreq : "" ∈ req.edit.required
  · rw [if_pos hreq] at hdb
    simp [hreq, hdb]
  · rw [if_neg hreq] at hdb
    have hperforms := req.edit.op.run_performs ((s.facing env).dao .adminService)
    have happly := ((req.edit.op.run_exact ((s.facing env).dao .adminService)).through
      (getThrough_of_succeeds hhealthy _)).1
    have hlogs := req.edit.op.sysAuditLogs_run ((s.facing env).dao .adminService)
    have hok := req.edit.op.apply_fst_eq_true_iff env.wallClock s.db
    have hchanged := req.edit.op.snapshot_apply_ne_iff env.wallClock s.db
    have hthen := hperforms.healthy hhealthy
    generalize req.edit.op.run.run ((s.facing env).dao .adminService) = out
      at hdb happly hlogs hthen
    obtain ⟨r, τ⟩ := out
    have hr : r = true ↔ writes ∨ vacuous :=
      (iff_of_eq (congrArg (fun x : Bool × Db c => x.1 = true) happly)).trans hok
    have hτ : τ.db.snapshot ≠ s.db.snapshot ↔ writes :=
      (iff_of_eq (congrArg (fun x : Bool × Db c => x.2.snapshot ≠ s.db.snapshot) happly)).trans
        hchanged
    have hgets : (req.edit.audit session).Gets τ.outcomes ↔ (req.edit.audit session).Fits :=
      and_iff_left (getThrough_of_succeeds hthen _)
    have hrows : τ.db.sysAuditLogs.rows = s.db.sysAuditLogs.rows := congrArg Table.rows hlogs
    cases r with
    | false =>
        have hτdb : s'.db = τ.db := hdb
        have hnot : ¬ (writes ∨ vacuous) := fun h => Bool.false_ne_true (hr.mpr h)
        simp [hreq, hτdb, hτ, hnot, hrows]
    | true =>
        have haudit : s'.db = ((PermissionDAO.createAuditLog (req.edit.audit session)).run τ).2.db :=
          hdb
        have hsome : writes ∨ vacuous := hr.mp rfl
        by_cases hfits : (req.edit.audit session).Fits
        · obtain ⟨id, now, happended, hkept⟩ := run_createAuditLog (hgets.mpr hfits)
          rw [← haudit, hrows] at happended
          rw [← haudit] at hkept
          refine ⟨?_, fun _ => ⟨_, AuditEntry.names_row req session id now, happended⟩, fun h => ?_⟩
          · rw [hkept, hτ]
            simp [hreq]
          · exact absurd ⟨hreq, hsome, hfits⟩ h
        · have hstopped := haudit.trans (run_createAuditLog_stopped fun h => hfits (hgets.mp h))
          simp [hreq, hstopped, hτ, hfits, hrows]

/-- An administrator renames a role. -/
theorem edit_audited_rename :
    let cfg : Config := { crypt := fun _ _ => none }
    let s := Server.loggedIn
    let req : EditRequest := .updateRole "qq_bot" "admin" (some "管理") none none
    ∃ row : SysAuditLog, row.Names ⟨1, "admin", "系统管理员"⟩ req ∧
      (s.step cfg ⟨.edit req (some "Bearer t"), {}⟩).db.sysAuditLogs.rows =
        s.db.sysAuditLogs.rows ++ [row] := by
  intro cfg s req
  have hsession : (s.facing {}).session (some "Bearer t") = some ⟨1, "admin", "系统管理员"⟩ := by
    simp only [s, Server.loggedIn_eq_seeded]
    decide +kernel
  have hreports : "" ∉ req.edit.required ∧
      (req.edit.op.Writes ({} : Env).wallClock s.db ∨ req.edit.op.Vacuous ({} : Env).wallClock s.db) ∧
        (req.edit.audit ⟨1, "admin", "系统管理员"⟩).Fits := by
    simp only [s, Server.loggedIn_eq_seeded]
    decide +kernel
  obtain ⟨-, happended, -⟩ :=
    edit_audited cfg s req (some "Bearer t") {} hsession (Server.healthy_facing s)
  exact happended hreports

/-- A role that does not exist is updated, and an app with nothing: nothing is written to
the tables, and a row to the log. -/
theorem vacuous_update_is_audited :
    let cfg : Config := { crypt := fun _ _ => none }
    let s := Server.loggedIn
    ∀ req : EditRequest, req = .updateRole "qq_bot" "nobody" (some "管理") none none ∨
        req = .updateApp "qq_bot" none none none →
      let s' := s.step cfg ⟨.edit req (some "Bearer t"), {}⟩
      s'.db.snapshot = s.db.snapshot ∧
        s'.db.sysAuditLogs.rows.length = s.db.sysAuditLogs.rows.length + 1 := by
  rw [Server.loggedIn_eq_seeded]
  rintro cfg s req (rfl | rfl)
  · decide +kernel
  · decide +kernel

/-! ## When something may fail -/

namespace Server
variable (cfg : Config) (s : Server c)

/-- If the call changes the tables it has appended a row to the log that names the
operator, the app and what was acted on. -/
def Recorded (x : Call) : Prop :=
  (s.step cfg x).db.snapshot ≠ s.db.snapshot → ∃ req header session row,
    x.rpc = .edit req header ∧ (s.facing x.env).session header = some session ∧
      SysAuditLog.Names row session req ∧
      (s.step cfg x).db.sysAuditLogs.rows = s.db.sysAuditLogs.rows ++ [row]

/-- If the call gets through to a write, what it does next for its audit row succeeds. -/
def Recordable (x : Call) : Prop :=
  match x.rpc with
  | .edit req header => ∀ session ∈ (s.facing x.env).session header, "" ∉ req.edit.required →
      getThrough req.edit.op.interactions x.env.outcomes = true →
      req.edit.op.Writes x.env.wallClock s.db →
        (req.edit.audit session).Gets (x.env.outcomes.drop req.edit.op.interactions.length)
  | _ => True

instance (x : Call) : Decidable (s.Recordable x) := by
  obtain ⟨rpc, env⟩ := x
  induction rpc using Rpc.casesOn <;> dsimp only [Recordable] <;> infer_instance

/-- Whether the row of an edit that writes gets through decides whether it is recorded. -/
theorem recorded_edit_iff {req : EditRequest} {header : Option String} {env : Env}
    {session : SessionInfo} (hsession : (s.facing env).session header = some session)
    (hreq : "" ∉ req.edit.required) (hget : getThrough req.edit.op.interactions env.outcomes = true)
    (hw : req.edit.op.Writes env.wallClock s.db) : s.Recorded cfg ⟨.edit req header, env⟩ ↔
      (req.edit.audit session).Gets (env.outcomes.drop req.edit.op.interactions.length) := by
  have hdb := db_edit (e := req.edit) hsession
  obtain ⟨hok, hne, hout⟩ := DaoOp.run_of_writes (σ := (s.facing env).dao .adminService) hget hw
  have hlogs := req.edit.op.sysAuditLogs_run ((s.facing env).dao .adminService)
  rw [if_neg hreq] at hdb
  generalize req.edit.op.run.run ((s.facing env).dao .adminService) = out at hdb hok hne hout hlogs
  obtain ⟨r, τ⟩ := out
  obtain rfl : r = true := hok
  have haudit : (s.step cfg ⟨.edit req header, env⟩).db =
      ((PermissionDAO.createAuditLog (req.edit.audit session)).run τ).2.db := hdb
  have hrows : τ.db.sysAuditLogs.rows = s.db.sysAuditLogs.rows := congrArg Table.rows hlogs
  have hdrop : τ.outcomes = env.outcomes.drop req.edit.op.interactions.length := hout
  rw [← hdrop]
  constructor
  · intro hrecorded
    by_contra hgets
    have hstopped := haudit.trans (run_createAuditLog_stopped hgets)
    obtain ⟨-, -, -, row, -, -, -, happended⟩ := hrecorded (by rw [hstopped]; exact hne)
    rw [hstopped, hrows] at happended
    have hlen := congrArg List.length happended
    simp at hlen
  · intro hgets _
    obtain ⟨id, now, happended, -⟩ := run_createAuditLog hgets
    rw [← haudit, hrows] at happended
    exact ⟨req, header, session, _, rfl, hsession, AuditEntry.names_row req session id now,
      happended⟩

/-- An edit that does not get through to a write changes nothing but the log. -/
theorem snapshot_edit {req : EditRequest} {header : Option String} {env : Env}
    {session : SessionInfo} (hsession : (s.facing env).session header = some session)
    (h : ¬ ("" ∉ req.edit.required ∧ getThrough req.edit.op.interactions env.outcomes = true ∧
      req.edit.op.Writes env.wallClock s.db)) :
    (s.step cfg ⟨.edit req header, env⟩).db.snapshot = s.db.snapshot := by
  have hdb := db_edit (e := req.edit) hsession
  by_cases hreq : "" ∈ req.edit.required
  · rw [if_pos hreq] at hdb
    exact congrArg Db.snapshot hdb
  · rw [if_neg hreq] at hdb
    have hkept := DaoOp.run_of_not_writes (σ := (s.facing env).dao .adminService)
      fun hw => h ⟨hreq, hw⟩
    generalize req.edit.op.run.run ((s.facing env).dao .adminService) = out at hdb hkept
    obtain ⟨r, τ⟩ := out
    have hτ : τ.db.snapshot = s.db.snapshot := congrArg Db.snapshot hkept
    rw [← hτ]
    cases r with
    | false => exact congrArg Db.snapshot hdb
    | true =>
        have haudit : (s.step cfg ⟨.edit req header, env⟩).db =
          ((PermissionDAO.createAuditLog (req.edit.audit session)).run τ).2.db := hdb
        rw [haudit]
        by_cases hgets : (req.edit.audit session).Gets τ.outcomes
        · obtain ⟨-, -, -, hsame⟩ := run_createAuditLog hgets
          exact hsame
        · rw [run_createAuditLog_stopped hgets]

/-- A call is recorded just when it is recordable. -/
theorem recorded_iff (x : Call) : s.Recorded cfg x ↔ s.Recordable x := by
  obtain ⟨rpc, env⟩ := x
  have hserved := s.served cfg ⟨rpc, env⟩
  cases rpc with
  | edit req header =>
      cases hsession : (s.facing env).session header with
      | none =>
          have hkept : (s.step cfg ⟨.edit req header, env⟩).db = s.db :=
            (congrArg (fun out : _ × Server c => out.2.db) (run_edit_none hsession)).trans
              (db_gated _ _)
          refine iff_of_true (fun hne => absurd (congrArg Db.snapshot hkept) hne) ?_
          simp [Recordable, hsession]
      | some session =>
          by_cases hwrites : "" ∉ req.edit.required ∧
              getThrough req.edit.op.interactions env.outcomes = true ∧
              req.edit.op.Writes env.wallClock s.db
          · obtain ⟨hreq, hget, hw⟩ := hwrites
            rw [recorded_edit_iff cfg s hsession hreq hget hw]
            simp [Recordable, hsession, hreq, hget, hw]
          · refine iff_of_true (fun hne => absurd (snapshot_edit cfg s hsession hwrites) hne) ?_
            intro session' _ hreq hget hw
            exact absurd ⟨hreq, hget, hw⟩ hwrites
  | _ =>
      have hkept := hserved.db_eq fun req header => by simp
      exact iff_of_true (fun hne => absurd (congrArg Db.snapshot hkept) hne) trivial

end Server

/-- **Along every run, whatever fails, every change has its row in the log just when every
edit that gets through to a write gets through to its row as well.**  A change is always
reported as a success, with its row or without. -/
theorem changes_recorded (cfg : Config) (s : Server c) (l : List Call) :
    (Meets (Server.step cfg) (Server.Recorded cfg) s l ↔
        Meets (Server.step cfg) Server.Recordable s l) ∧
      Meets (Server.step cfg) (fun t x => (t.step cfg x).db.snapshot ≠ t.db.snapshot →
        ∃ r : AdminResponse, t.reply cfg x = .edit r ∧ r.success = true) s l := by
  refine ⟨⟨fun h => h.mono fun t x => (t.recorded_iff cfg x).mp,
    fun h => h.mono fun t x => (t.recorded_iff cfg x).mpr⟩, ?_⟩
  refine meets_of_forall _ (fun t x hne => ?_) s l
  have hserved := t.served cfg x
  by_cases hx : ∀ req header, x.rpc ≠ .edit req header
  · exact absurd (congrArg Db.snapshot (hserved.db_eq hx)) hne
  · push Not at hx
    obtain ⟨req, header, hrpc⟩ := hx
    obtain ⟨rpc, env⟩ := x
    obtain rfl : rpc = .edit req header := hrpc
    cases hreply : t.reply cfg ⟨.edit req header, env⟩ with
    | edit r =>
        rw [hreply] at hserved
        cases hok : r.success with
        | true => exact ⟨r, rfl, hok⟩
        | false => exact absurd (congrArg Db.snapshot (hserved.edit_failure hok)) hne
    | _ =>
        rw [hreply] at hserved
        cases hserved

/-- A role is granted, and no connection is left for the audit row: the grant stands, is
reported as a success, and is not in the log. -/
theorem change_without_row :
    let cfg : Config := { crypt := fun _ _ => none }
    let s := Server.loggedIn
    let x : Call := ⟨.edit (.grantRoleToUser "qq_bot" "42" "admin") (some "Bearer t"),
      { outcomes := [.answered [], .answered [], .answered [], .refused none] }⟩
    s.reply cfg x = .edit { success := true, message := "授权成功" } ∧
      (s.step cfg x).db.snapshot ≠ s.db.snapshot ∧
      (s.step cfg x).db.sysAuditLogs.rows = s.db.sysAuditLogs.rows := by
  rw [Server.loggedIn_eq_seeded]
  decide +kernel

end SiqiAuth
