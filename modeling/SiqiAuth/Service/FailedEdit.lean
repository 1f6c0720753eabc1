import SiqiAuth.Service.LostInvalidation
import SiqiAuth.Store.LastError

/-!
# A failed edit

An editing handler that answers `success = false` has left the tables as they were.  What it
says of the failure is taken from `last_error_`, which belongs to the service and not to the
request: a failure on which the DAO writes nothing there is explained by the failure of an
earlier request, of whichever operator.

## Main definitions

* `failed_edit_keeps_tables` — a failure leaves the tables.
* `AdminService.Edit.Silent` — an edit fails and its reason is not written.
* `message_own_iff` — when the message of a failure is its own.
-/

namespace SiqiAuth
open Lib AdminService

variable {c : Collation}

/-! ## The tables -/

/-- **An edit that answers with a failure has left the tables as they were**, whatever state it
began in, whoever called and whatever failed on the way. -/
theorem failed_edit_keeps_tables (cfg : Config) (s : Server c) (req : EditRequest)
    (header : Option String) (env : Env) {r : AdminResponse}
    (h : s.reply cfg ⟨.edit req header, env⟩ = .edit r) (hr : r.success = false) :
    (s.step cfg ⟨.edit req header, env⟩).db = s.db := by
  have hserved := s.served cfg ⟨.edit req header, env⟩
  rw [h] at hserved
  exact hserved.edit_failure hr

/-- An app that does not exist is deleted. -/
theorem failed_edit_keeps_tables_deleteApp :
    let cfg : Config := { crypt := fun _ _ => none }
    let s := Server.loggedIn
    (s.step cfg ⟨.edit (.deleteApp "nobody") (some "Bearer t"), {}⟩).db = s.db := by
  intro cfg s
  refine failed_edit_keeps_tables cfg s _ _ _ (r := ⟨false, 1001, "删除应用失败: ", none⟩) ?_ rfl
  simp only [s, Server.loggedIn_eq_seeded]
  decide +kernel

/-! ## The message -/

/-- The edit gets as far as its operation, which is silent. -/
def AdminService.Edit.Silent (e : Edit) (header : Option String) (s : Server c) : Prop :=
  (s.session header).isSome = true ∧ "" ∉ e.required ∧ e.op.Silent (s.dao .adminService)

instance (e : Edit) (header : Option String) (s : Server c) : Decidable (e.Silent header s) :=
  inferInstanceAs (Decidable (_ ∧ _ ∧ _))

/-- What an edit says in two states that differ, as far as it looks, in the last error. -/
theorem AdminService.Edited.message_eq_iff {e : Edit} {header : Option String}
    {s t s' t' : Server c} {r r' : AdminResponse} (hsession : t.session header = s.session header)
    (hdao : t.dao .adminService =
      { s.dao .adminService with lastError := t.lastError .adminService })
    (h : Edited e header s r s') (h' : Edited e header t r' t') (hr : r.success = false) :
    r'.success = false ∧ (r'.message = r.message ↔
      (e.Silent header s → t.lastError .adminService = s.lastError .adminService)) := by
  cases h with
  | rejected hnone =>
      have hspeaks : ¬ e.Silent header s := by simp [Edit.Silent, hnone]
      cases h' with
      | rejected => simp [hspeaks, unauthorized]
      | _ hsome => simp [hsession, hnone] at hsome
  | incomplete hsome hreq =>
      have hspeaks : ¬ e.Silent header s := by simp [Edit.Silent, hreq]
      cases h' with
      | rejected hnone => simp [hsession, hsome] at hnone
      | incomplete => simp [hspeaks]
      | failed _ hreq' | done _ hreq' => exact absurd hreq hreq'
  | failed hsome hreq hfails =>
      obtain ⟨b, told, τ, hsays, htold⟩ := e.op.run_says (s.dao .adminService)
      have hrun : e.op.run.run (s.dao .adminService) =
        (b, { τ with lastError := told.getD (s.lastError .adminService) }) := hsays _
      have hrun' : e.op.run.run (t.dao .adminService) =
          (b, { τ with lastError := told.getD (t.lastError .adminService) }) := by
        rw [hdao]
        exact hsays _
      rw [hrun, Prod.mk.injEq] at hfails
      obtain ⟨rfl, rfl⟩ := hfails
      have hsilent : e.Silent header s ↔ told = none := by
        simp [Edit.Silent, hsome, hreq, htold rfl]
      cases h' with
      | rejected hnone => simp [hsession, hsome] at hnone
      | incomplete _ hreq' => exact absurd hreq' hreq
      | failed _ _ hfails' =>
          rw [hrun', Prod.mk.injEq] at hfails'
          obtain ⟨-, rfl⟩ := hfails'
          rw [hsilent]
          refine ⟨rfl, ?_⟩
          cases told <;> simp
      | done _ _ hdone =>
          rw [hrun'] at hdone
          cases hdone
  | done => cases hr

/-- A failed edit in a session leaves the tables and the sessions. -/
theorem Server.kept_of_failed (cfg : Config) {s : Server c} {req : EditRequest}
    {header : Option String} {env : Env} {r : AdminResponse}
    (hsession : ((s.facing env).session header).isSome = true)
    (h : s.reply cfg ⟨.edit req header, env⟩ = .edit r) (hr : r.success = false) :
    (s.step cfg ⟨.edit req header, env⟩).db = s.db ∧
      (s.step cfg ⟨.edit req header, env⟩).sessions = s.sessions := by
  have hserved := s.served cfg ⟨.edit req header, env⟩
  rw [h] at hserved
  have hgated : ((s.facing env).gated header).sessions = s.sessions := by
    simp only [session] at hsession
    simp only [gated]
    cases htoken : header.bind bearerToken with
    | none => rfl
    | some token =>
        rw [htoken, Option.bind_some] at hsession
        obtain ⟨session, hsession⟩ := Option.isSome_iff_exists.mp hsession
        obtain ⟨e, he, hlive, -⟩ := LocalCache.peek_eq_some.mp
          (Option.filter_eq_some_iff.mp hsession).1
        simp only [LocalCache.get, he, if_neg (not_lt.mpr hlive)]
        rfl
  refine ⟨hserved.edit_failure hr, ?_⟩
  generalize s.step cfg ⟨.edit req header, env⟩ = s' at hserved
  cases hserved with
  | edit hedited =>
      cases hedited with
      | rejected => exact hgated
      | incomplete _ _ _ _ hsessions => exact hsessions.trans hgated
      | failed _ _ _ _ _ hsessions => exact hsessions.trans hgated
      | done => cases hr

end SiqiAuth
