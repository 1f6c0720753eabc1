import SiqiAuth.Service.AuditTrail
import SiqiAuth.Service.Healing

/-!
# The audit trail of interleaved edits

An edit writes to the tables in one step and to the audit log in another, and other handlers run
between the two.  The log stays a record of who did what all the same: its new rows belong to
distinct edits that have returned success, and each names the session that the edit was validated
by.  What is missing from it is at most what handlers are still about to write, and rows that
could not be written.

## Main definitions

* `Validated` — a thread has validated the token of a session for its edit.
* `Handler.Records`, `Services.Records` — an audit row that is about to be written gets through.
* `Handler.Reports` — a handler is about to report success, or has done so.
* `edits_accounted` — the audit log after a run.
-/

namespace SiqiAuth
open Lib AuthService AdminService

variable {c : Collation}

namespace Handler

/-- The edit that a handler executes, and the session it was validated by. -/
def executes : Handler → Option (EditRequest × SessionInfo)
  | invalidate req session | write req session | report req session _ _ => some (req, session)
  | _ => none

/-- The handler has returned success. -/
def Succeeded : Handler → Prop
  | returned _ r => r.success = true
  | _ => False

/-- The handler is about to report success of the edit, or has done so. -/
def Reports (req : EditRequest) : Handler → Prop
  | report req' _ ok _ => req' = req ∧ ok = true
  | returned req' r => req' = req ∧ r.success = true
  | _ => False

/-- If the handler is about to write an audit row, the row gets through. -/
def Records (os : List Outcome) : Handler → Prop
  | report req session ok _ => ok = true → (req.edit.audit session).Gets os
  | _ => True

instance decidableRecords (os : List Outcome) (h : Handler) : Decidable (h.Records os) := by
  induction h using Handler.casesOn <;> dsimp only [Records] <;> infer_instance

variable {cfg : Config} {h h' : Handler} {s s' : Server c}

/-- A handler executes an edit after its session check, with the session found there. -/
theorem Stepped.executes_eq (hstep : Stepped cfg s h h' s') {req : EditRequest}
    {session : SessionInfo} (hh : h'.executes = some (req, session)) :
    h.executes = some (req, session) ∨
      ∃ header, h = authenticate req header ∧ s.session header = some session := by
  cases hstep with
  | @accepted _ header _ hsession =>
      cases hh
      exact Or.inr ⟨header, rfl, hsession⟩
  | invalidate hh' =>
      obtain rfl | ⟨r, rfl⟩ := hh'
      · exact Or.inl hh
      · cases hh
  | write | done => exact Or.inl hh
  | _ => cases hh

/-- Only a handler that reports success writes to the audit log, and only it comes to have returned
success. -/
theorem sysAuditLogs_next_of_ne (hrun : (h.next cfg).run s = (h', s'))
    (hne : ∀ req session appSecret, h ≠ report req session true appSecret) :
    s'.db.sysAuditLogs = s.db.sysAuditLogs ∧ (h'.Succeeded → h.Succeeded) := by
  have hstep := next_spec hrun
  cases hstep with
  | incomplete => exact ⟨rfl, False.elim⟩
  | hit _ _ hdb | miss _ _ hdb | put hdb => exact ⟨by rw [hdb], False.elim⟩
  | read hkept | judge _ hkept => exact ⟨by rw [hkept.db_eq], False.elim⟩
  | rejected => exact ⟨by rw [Server.db_gated], fun h => by cases h⟩
  | accepted => exact ⟨by rw [Server.db_gated], False.elim⟩
  | @invalidate req session _ hh' =>
      refine ⟨rfl, fun hsucceeded => ?_⟩
      simp only [next, run_bind] at hrun
      split at hrun
      · cases hrun
        cases hsucceeded
      · cases hrun
        exact hsucceeded
  | write heffect => exact ⟨heffect.sysAuditLogs_eq, False.elim⟩
  | @report req session ok appSecret =>
      cases ok with
      | true => exact absurd rfl (hne req session appSecret)
      | false =>
          cases hrun
          exact ⟨rfl, fun h => by cases h⟩
  | done => exact ⟨rfl, id⟩

/-- **A step of a handler appends to the audit log only when it returns success**, a row that names
the session and the edit; and if its row gets through, it does append one then. -/
theorem sysAuditLogs_next (hrun : (h.next cfg).run s = (h', s')) :
    (s'.db.sysAuditLogs.rows = s.db.sysAuditLogs.rows ∧
        (h.Records s.env.outcomes → h'.Succeeded → h.Succeeded)) ∨
      ∃ req session appSecret r row, h = report req session true appSecret ∧
        h' = returned req r ∧ r.success = true ∧ SysAuditLog.Names row session req ∧
          s'.db.sysAuditLogs.rows = s.db.sysAuditLogs.rows ++ [row] := by
  by_cases hreport : ∃ req session appSecret, h = report req session true appSecret
  · obtain ⟨req, session, appSecret, rfl⟩ := hreport
    cases hrun
    by_cases hgets : (req.edit.audit session).Gets s.env.outcomes
    · obtain ⟨id, now, happended, -⟩ := run_createAuditLog (σ := s.dao .adminService) hgets
      exact Or.inr ⟨req, session, appSecret, _, _, rfl, rfl, rfl,
        AuditEntry.names_row req session id now, happended⟩
    · have hstopped := run_createAuditLog_stopped (σ := s.dao .adminService) hgets
      exact Or.inl ⟨congrArg (fun db => db.sysAuditLogs.rows) hstopped,
        fun hrecords => absurd (hrecords rfl) hgets⟩
  · obtain ⟨hlogs, hsucceeded⟩ := sysAuditLogs_next_of_ne hrun
      fun req session appSecret h => hreport ⟨req, session, appSecret, h⟩
    exact Or.inl ⟨congrArg Table.rows hlogs, fun _ => hsucceeded⟩

/-- A handler that changes the tables executes its edit, and is to report success of it. -/
theorem reports_of_snapshot_ne (hrun : (h.next cfg).run s = (h', s'))
    (hne : s'.db.snapshot ≠ s.db.snapshot) :
    ∃ req session, h = write req session ∧ h'.Reports req := by
  have hstep := next_spec hrun
  cases hstep with
  | incomplete | invalidate | done => exact absurd rfl hne
  | hit _ _ hdb | miss _ _ hdb | put hdb => exact absurd (congrArg Db.snapshot hdb) hne
  | read hkept | judge _ hkept => exact absurd (congrArg Db.snapshot hkept.db_eq) hne
  | rejected | accepted => exact absurd (congrArg Db.snapshot (s.db_gated _)) hne
  | report _ hdb =>
      obtain ⟨t, hdb⟩ := hdb
      exact absurd (congrArg Db.snapshot hdb) hne
  | @write req session ok =>
      refine ⟨req, session, rfl, rfl, ?_⟩
      cases ok with
      | true => rfl
      | false =>
          obtain ⟨appSecret, hop⟩ := req.edit.run_run (s.dao .adminService)
          simp only [next, run_bind, run_call, hop] at hrun
          cases hout : req.edit.op.run.run (s.dao .adminService) with
          | mk r σ =>
              rw [hout] at hrun
              cases hrun
              exact absurd (congrArg Db.snapshot (DaoOp.run_of_false hout)) hne

/-- A handler that is to report success does so. -/
theorem Stepped.reports (hstep : Stepped cfg s h h' s') {req : EditRequest} (hh : h.Reports req) :
    h'.Reports req := by
  cases hstep with
  | report hr => exact ⟨hh.1, hr.trans hh.2⟩
  | done => exact hh
  | _ => exact hh.elim

end Handler

/-! ## Runs -/

variable (cfg : Config) (s : Server c)

/-- In one of its steps the thread `i` has validated a token of the session, for its edit. -/
def Validated (l : List (Move (Request × Env))) (i : ℕ) (req : EditRequest)
    (session : SessionInfo) : Prop :=
  ∃ l₁ header env, l₁ ++ [.advance i] <+: l ∧
    (run (Services.step cfg) ⟨s, []⟩ l₁).threads[i]? = some ⟨.authenticate req header, env⟩ ∧
      ((run (Services.step cfg) ⟨s, []⟩ l₁).shared.facing env).session header = some session

/-- The thread has returned success of an edit, and the row names it and the session that the
thread has validated for it. -/
def Thread.Vouches (l : List (Move (Request × Env))) (i : ℕ) (t : Thread) (row : SysAuditLog) :
    Prop :=
  ∃ req r session, t.handler = .returned req r ∧ r.success = true ∧
    Validated cfg s l i req session ∧ SysAuditLog.Names row session req

/-- An audit row that is about to be written gets through. -/
def Services.Records (p : Services c) : Move (Request × Env) → Prop
  | .start _ => True
  | .advance i => ∀ t ∈ p.threads[i]?, t.handler.Records t.env.outcomes

instance decidableServicesRecords (p : Services c) : DecidablePred p.Records
  | .start _ => inferInstanceAs (Decidable True)
  | .advance i =>
      inferInstanceAs (Decidable (∀ t ∈ p.threads[i]?, t.handler.Records t.env.outcomes))

variable {cfg s} {l : List (Move (Request × Env))} {i : ℕ}

theorem Validated.append {req : EditRequest} {session : SessionInfo}
    (h : Validated cfg s l i req session) (m : List (Move (Request × Env))) :
    Validated cfg s (l ++ m) i req session := by
  obtain ⟨l₁, header, env, hl₁, h⟩ := h
  exact ⟨l₁, header, env, hl₁.trans (List.prefix_append l m), h⟩

theorem Thread.Vouches.append {t : Thread} {row : SysAuditLog} (h : t.Vouches cfg s l i row)
    (m : List (Move (Request × Env))) : t.Vouches cfg s (l ++ m) i row := by
  obtain ⟨req, r, session, hreturned, hr, hvalidated, hnames⟩ := h
  exact ⟨req, r, session, hreturned, hr, hvalidated.append m, hnames⟩

/-- A thread executes an edit only in a session that it has validated for it. -/
theorem validated_of_executes (l : List (Move (Request × Env))) :
    ∀ i t, (run (Services.step cfg) ⟨s, []⟩ l).threads[i]? = some t → ∀ req session,
      t.handler.executes = some (req, session) → Validated cfg s l i req session := by
  refine Pool.run_each (T := fun l i (t : Thread) => ∀ req session,
      t.handler.executes = some (req, session) → Validated cfg s l i req session)
    (fun l x i t hT req session h => (hT req session h).append [x]) (fun l q req session h => ?_)
    (fun l i t ht hT req session hexecutes => ?_) (by simp) l
  · obtain ⟨q, env⟩ := q
    cases q <;> cases h
  · have hstep := Services.next_stepped cfg (run (Services.step cfg) ⟨s, []⟩ l).shared t
    obtain hbefore | ⟨header, hh, hsession⟩ := hstep.executes_eq hexecutes
    · exact (hT req session hbefore).append _
    · obtain ⟨h, env⟩ := t
      obtain rfl : h = .authenticate req header := hh
      exact ⟨l, header, env, List.prefix_refl _, ht, hsession⟩

/-- What a step of a thread writes to the audit log. -/
theorem Services.next_vouches {t : Thread} {p : Services c}
    (hp : p = run (Services.step cfg) ⟨s, []⟩ l) (ht : p.threads[i]? = some t) :
    ((t.next cfg p.shared).2.db.sysAuditLogs.rows = p.shared.db.sysAuditLogs.rows ∧
        (∀ row, t.Vouches cfg s l i row →
          (t.next cfg p.shared).1.Vouches cfg s (l ++ [.advance i]) i row) ∧
        (p.Records (.advance i) → (t.next cfg p.shared).1.handler.Succeeded →
          t.handler.Succeeded)) ∨
      ∃ row, (t.next cfg p.shared).2.db.sysAuditLogs.rows = p.shared.db.sysAuditLogs.rows ++ [row] ∧
        (t.next cfg p.shared).1.Vouches cfg s (l ++ [.advance i]) i row ∧
          ∀ row', ¬ t.Vouches cfg s l i row' := by
  have hnext : (t.handler.next cfg).run (p.shared.facing t.env) =
      ((t.next cfg p.shared).1.handler, (t.next cfg p.shared).2) := rfl
  obtain ⟨hsame, hrecords⟩ | ⟨req, session, appSecret, r, row, hh, hh', hr, hnames, happended⟩ :=
    Handler.sysAuditLogs_next hnext
  · refine Or.inl ⟨hsame, fun row hvouches => ?_, fun hp => hrecords (hp t ht)⟩
    obtain ⟨req, r, session, hreturned, hr, hvalidated, hnames⟩ := hvouches
    refine ⟨req, r, session, ?_, hr, hvalidated.append _, hnames⟩
    rw [hreturned] at hnext
    exact (congrArg Prod.fst hnext).symm
  · have hvalidated : Validated cfg s l i req session := by
      refine validated_of_executes l i t (hp ▸ ht) req session ?_
      rw [hh]
      rfl
    refine Or.inr ⟨row, happended, ⟨req, r, session, hh', hr, hvalidated.append _, hnames⟩, ?_⟩
    rintro row' ⟨req', r', session', hreturned, -⟩
    rw [hh] at hreturned
    cases hreturned

/-- A move that changes the tables is of a thread that executes its edit, and is to report success
of it. -/
theorem Services.reports_of_snapshot_ne {p : Services c} {x : Move (Request × Env)}
    (hne : (Services.step cfg p x).shared.db.snapshot ≠ p.shared.db.snapshot) :
    ∃ i req session env, x = .advance i ∧ p.threads[i]? = some ⟨.write req session, env⟩ ∧
      ∃ t, (Services.step cfg p x).threads[i]? = some t ∧ t.handler.Reports req := by
  obtain hsame | ⟨i, t, rfl, hi, hshared⟩ := Pool.step_shared Thread.init (Thread.next cfg) p x
  · exact absurd (congrArg (fun s => s.db.snapshot) hsame) hne
  · have hnext : (t.handler.next cfg).run (p.shared.facing t.env) =
        ((t.next cfg p.shared).1.handler, (t.next cfg p.shared).2) := rfl
    obtain ⟨req, session, hwrite, hreports⟩ := Handler.reports_of_snapshot_ne hnext
      fun hsame => hne ((congrArg (fun s => s.db.snapshot) hshared).trans hsame)
    obtain ⟨h, env⟩ := t
    obtain rfl : h = .write req session := hwrite
    obtain ⟨-, hadvanced⟩ | ⟨h, -⟩ :=
      Pool.getElem?_step Thread.init (Thread.next cfg) hi (.advance i)
    · exact ⟨i, req, session, env, rfl, hi, _, hadvanced, hreports⟩
    · exact absurd rfl h

/-- **The audit log, however the handlers are interleaved, and whatever fails.**  After the rows
that were there it holds rows of distinct threads that have returned success, each with the edit
of its thread and the session that the thread has validated for it; as long as every audit row
that is about to be written gets through, no such thread is missing; and a thread that has changed
the tables has returned success of its edit, or is about to. -/
theorem edits_accounted (cfg : Config) (s : Server c) (l : List (Move (Request × Env))) :
    let p := run (Services.step cfg) ⟨s, []⟩ l
    (∃ written : List (SysAuditLog × ℕ),
      p.shared.db.sysAuditLogs.rows = s.db.sysAuditLogs.rows ++ written.map Prod.fst ∧
        (written.map Prod.snd).Nodup ∧
        (∀ w ∈ written, ∃ t, p.threads[w.2]? = some t ∧ t.Vouches cfg s l w.2 w.1) ∧
        (Meets (Services.step cfg) Services.Records ⟨s, []⟩ l →
          ∀ i t, p.threads[i]? = some t → t.handler.Succeeded → i ∈ written.map Prod.snd)) ∧
      ∀ l₁ x, l₁ ++ [x] <+: l →
        (run (Services.step cfg) ⟨s, []⟩ (l₁ ++ [x])).shared.db.snapshot ≠
          (run (Services.step cfg) ⟨s, []⟩ l₁).shared.db.snapshot →
        ∃ i req session env, x = .advance i ∧
          (run (Services.step cfg) ⟨s, []⟩ l₁).threads[i]? = some ⟨.write req session, env⟩ ∧
            ∃ t, p.threads[i]? = some t ∧ t.handler.Reports req := by
  intro p
  constructor
  · have hlog := Pool.run_log Thread.init (Thread.next cfg)
      (fun s : Server c => s.db.sysAuditLogs.rows) (p := (⟨s, []⟩ : Services c))
      (V := fun l i t row => Thread.Vouches cfg s l i t row)
      (D := fun l t => Meets (Services.step cfg) Services.Records ⟨s, []⟩ l ∧ t.handler.Succeeded)
      (fun l x i t row h => h.append [x])
      (fun l x t h => ⟨((meets_append _ _ _ _ _).mp h.1).1, h.2⟩) (fun l q h => ?_)
      (fun l i t s' ht hs' => ?_) rfl l
    · obtain ⟨written, hwritten⟩ := hlog
      exact ⟨written, hwritten.log_eq, hwritten.nodup, hwritten.vouches,
        fun hl i t ht hsucceeded => hwritten.owes i t ht ⟨hl, hsucceeded⟩⟩
    · obtain ⟨q, env⟩ := q
      cases q <;> exact h.2.elim
    · subst hs'
      obtain ⟨hsame, hvouches, hsucceeded⟩ | hrow := Services.next_vouches rfl ht
      · refine Or.inl ⟨hsame, hvouches, fun h => ?_⟩
        obtain ⟨hl, hrecords⟩ := (meets_append _ _ _ _ _).mp h.1
        exact ⟨hl, hsucceeded hrecords.1 h.2⟩
      · exact Or.inr hrow
  · rintro l₁ x ⟨l₂, rfl⟩ hne
    rw [run_append] at hne
    obtain ⟨i, req, session, env, rfl, hi, hreports⟩ := Services.reports_of_snapshot_ne hne
    refine ⟨i, req, session, env, rfl, hi, ?_⟩
    have hstays := Pool.run_stays Thread.init (Thread.next cfg)
      (T := fun t : Thread => t.handler.Reports req)
      (fun t s h => (Services.next_stepped cfg s t).reports h) l₂ hreports
    simpa [p, Services.step] using hstays

/-- A grant and an update of a role, of which the later one is answered first. -/
theorem edits_accounted_two :
    let cfg : Config := { crypt := fun _ _ => none }
    let s := Server.loggedIn
    let l : List (Move (Request × Env)) :=
      [.start (.edit (.grantRoleToUser "qq_bot" "42" "admin") (some "Bearer t"), {}),
        .start (.edit (.updateRole "qq_bot" "admin" (some "管理") none none) (some "Bearer t"), {}),
        .advance 0, .advance 1, .advance 0, .advance 0, .advance 1, .advance 1, .advance 1,
        .advance 0]
    ∃ written : List (SysAuditLog × ℕ),
      (run (Services.step cfg) ⟨s, []⟩ l).shared.db.sysAuditLogs.rows =
        s.db.sysAuditLogs.rows ++ written.map Prod.fst ∧
      0 ∈ written.map Prod.snd ∧ 1 ∈ written.map Prod.snd := by
  intro cfg s l
  have hrecords : Meets (Services.step cfg) Services.Records ⟨s, []⟩ l := by
    simp only [s, Server.loggedIn_eq_seeded]
    decide +kernel
  have hgrant : (run (Services.step cfg) ⟨s, []⟩ l).threads[0]? = some
      ⟨.returned (.grantRoleToUser "qq_bot" "42" "admin")
        { success := true, message := "授权成功" }, {}⟩ := by
    simp only [s, Server.loggedIn_eq_seeded]
    decide +kernel
  have hupdate : (run (Services.step cfg) ⟨s, []⟩ l).threads[1]? = some
      ⟨.returned (.updateRole "qq_bot" "admin" (some "管理") none none)
        { success := true, message := "更新角色成功" }, {}⟩ := by
    simp only [s, Server.loggedIn_eq_seeded]
    decide +kernel
  obtain ⟨⟨written, hrows, -, -, hall⟩, -⟩ := edits_accounted cfg s l
  exact ⟨written, hrows, hall hrecords 0 _ hgrant rfl, hall hrecords 1 _ hupdate rfl⟩

end SiqiAuth
