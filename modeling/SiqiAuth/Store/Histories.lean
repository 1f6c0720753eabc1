import SiqiAuth.Store.Decision
import SiqiAuth.Store.InitRows
import SiqiAuth.Store.Serial

/-!
# Histories of calls

Calls that are made one after the other leave a history: which operation was called, and what
it has returned.  What the tables stand for after a run is what comes of the edits of the calls
that have returned true, so whatever is asked of the view is answered by the history alone.

## Main definitions

* `DaoState.replies` — the history of a run.
* `DaoState.run_refines` — the view after a run.
* `checkPermission_of_history` — the decisions after a run.
* `DaoState.run_alone` — what an app sees of a run is what it sees of its own calls.
* `DaoState.reopened_between` — nothing is created or deleted twice, unless it is reopened
  in between.
-/

namespace SiqiAuth
open Lib

variable {c : Collation}

namespace DaoState
variable {σ τ : DaoState c}

/-- What a call returns, and whether anything can have failed. -/
def reply (σ : DaoState c) (x : DaoCall) : DaoReply :=
  ⟨x.op, x.wallClock, σ.returns x, !x.outcomes.all Outcome.succeeds⟩

/-- The history of a run. -/
def replies (σ : DaoState c) (l : List DaoCall) : List DaoReply :=
  outputs DaoState.call (fun τ x => some (τ.reply x)) σ l

@[simp] theorem replies_nil (σ : DaoState c) : σ.replies [] = [] := rfl

@[simp] theorem replies_cons (σ : DaoState c) (x : DaoCall) (l : List DaoCall) :
    σ.replies (x :: l) = σ.reply x :: (σ.call x).replies l := rfl

/-! ## One call -/

theorem healthy_facing {x : DaoCall} (h : (σ.reply x).failed = false) :
    (σ.facing x.outcomes x.wallClock).Healthy := by
  simpa [reply, Healthy, facing] using h

/-- **A call does to the view what its edit does if it returns true**, and then the edit is
accepted; and if nothing fails, it returns true whenever that is so. -/
theorem call_refines (hdb : σ.db.Founded) (x : DaoCall) :
    (σ.returns x = true → σ.db.view.Accepts (σ.reply x)) ∧
      ((σ.reply x).failed = false → σ.db.view.Accepts (σ.reply x) → σ.returns x = true) ∧
        (σ.call x).db.view = σ.db.view.reply (σ.reply x) := by
  obtain ⟨hview, haccepts⟩ := DaoOp.apply_refines hdb x.wallClock x.op
  obtain happly | ⟨hsick, hfalse, hsame⟩ := (DaoOp.run_performs x.op
    (σ.facing x.outcomes x.wallClock)).effect
  · have hfst : σ.returns x = (x.op.apply x.wallClock σ.db).1 := congrArg Prod.fst happly
    have hsnd : (σ.call x).db = (x.op.apply x.wallClock σ.db).2 := congrArg Prod.snd happly
    rw [← hfst] at haccepts
    refine ⟨haccepts.mp, fun _ => haccepts.mpr, ?_⟩
    rw [hsnd, hview, View.reply]
    cases hr : σ.returns x with
    | true => simp [reply, hr, View.perform]
    | false =>
        rw [hr] at haccepts
        rw [Rbac.perform_of_refused fun hacc => Bool.false_ne_true (haccepts.mpr hacc)]
        simp [reply, hr]
  · have hr : σ.returns x = false := hfalse
    have hview : (σ.call x).db = σ.db := hsame
    refine ⟨fun h => ?_, fun h => absurd (healthy_facing h) hsick, ?_⟩
    · rw [hr] at h
      cases h
    · rw [hview, View.reply]
      simp [reply, hr]

theorem call_reachable (h : σ.db.Reachable) (x : DaoCall) : (σ.call x).db.Reachable :=
  Db.Reachable.run (σ := σ.facing x.outcomes x.wallClock) h x.op

/-! ## Every run -/

/-- Every call is the edit that it is. -/
theorem call_simulates : Simulates (DaoState.call (c := c)) (fun τ x => some (τ.reply x))
    (fun τ => τ.db.view) View.reply (fun v y => (y.result = true → v.Accepts y) ∧
      (y.failed = false → v.Accepts y → y.result = true)) (fun τ => τ.db.Reachable)
    fun _ _ => True where
  inv _ x h _ := call_reachable h x
  silent _ _ _ _ h := by cases h
  seen τ x y h _ hy := by
    obtain rfl := Option.some_inj.mp hy
    obtain ⟨hsound, hcomplete, hview⟩ := call_refines h.founded x
    exact ⟨⟨hsound, hcomplete⟩, hview⟩

theorem view_run (hσ : σ.db.Reachable) (l : List DaoCall) :
    (run DaoState.call σ l).db.view = run View.reply σ.db.view (σ.replies l) :=
  (call_simulates.simulated hσ l).2

/-- **The DAO refines its abstraction.**  After any run of calls from tables that have been
reached, whatever fails, the view is what comes of the edits of the calls that have returned
true, each accepted in its turn; and a call in which nothing fails returns true whenever its
edit is accepted. -/
theorem run_refines (hσ : σ.db.Reachable) (l : List DaoCall) :
    Meets View.reply (fun v y => (y.result = true → v.Accepts y) ∧
        (y.failed = false → v.Accepts y → y.result = true)) σ.db.view (σ.replies l) ∧
      (run DaoState.call σ l).db.view = run View.reply σ.db.view (σ.replies l) :=
  call_simulates.simulated hσ l

theorem start_reachable (installed : ℤ) : (DaoState.start installed : DaoState c).db.Reachable :=
  .initial (DaoState.db_start installed)

/-- A grant, a deletion that gets no connection, and another one. -/
theorem run_refines_refused_deletion :
    let σ : DaoState .binary := DaoState.start 0
    let l : List DaoCall := [⟨.assignRoleToUser "qq_bot" "42" "admin", [], 7⟩,
      ⟨.deleteRole "qq_bot" "member", [.refused none], 8⟩, ⟨.deleteRole "qq_bot" "member", [], 9⟩]
    Meets View.reply (fun v y => (y.result = true → v.Accepts y) ∧
        (y.failed = false → v.Accepts y → y.result = true)) σ.db.view (σ.replies l) ∧
      (run DaoState.call σ l).db.view = run View.reply σ.db.view (σ.replies l) :=
  run_refines (start_reachable 0) _

end DaoState

/-! ## Decisions -/

/-- Who holds what, as seen through the view. -/
theorem Db.granted_iff {db : Db c} {a u p : String} : db.Granted a u p ↔
    (db.view (c.value a)).Grants (fun i => i.status = 1) (c.value u) (c.value p) := by
  constructor
  · rintro ⟨app, happ, hcode, hst, role, hrole, hid, ⟨ur, hur, huid, hurole, hu⟩, perm, hperm, hpid,
      hkey, rp, hrp, hrrole, hrperm⟩
    have happ' : AppOf db.sysApps (c.value a) app := .of_same happ hcode
    have hrole' : db.RoleOf (c.value a) (c.value role.roleKey) role := ⟨hrole, rfl, app, happ', hid⟩
    exact ⟨⟨app.info, ⟨app, happ', rfl⟩, hst⟩, c.value role.roleKey, ur.info,
      ⟨ur, ⟨hur, (c.same_iff_value _ _).mp hu, role, hrole', huid.trans hid.symm, hurole⟩, rfl⟩,
      rp, hrp, role, hrole', hrrole, perm,
      ⟨hperm, (c.same_iff_value _ _).mp hkey, app, happ', hpid⟩, hrperm⟩
  · rintro ⟨⟨i, ⟨app, happ, rfl⟩, hst⟩, r, m, ⟨ur, ⟨hur, hu, role, hrole, huid, hurole⟩, -⟩, rp, hrp,
      role', hrole', hrrole, perm, hperm, hrperm⟩
    obtain rfl := Db.RoleOf.unique hrole hrole'
    obtain ⟨hmem, -, app', happ', hid⟩ := hrole
    obtain rfl := happ.unique happ'
    obtain ⟨hpmem, hkey, app', happ', hpid⟩ := hperm
    obtain rfl := happ.unique happ'
    exact ⟨app, happ.1, happ.same, hst, role, hmem, hid,
      ⟨ur, hur, huid.trans hid, hurole, (c.same_iff_value _ _).mpr hu⟩, perm, hpmem, hpid,
      (c.same_iff_value _ _).mpr hkey, rp, hrp, hrrole, hrperm⟩

/-- **The decisions after a run are known from its history**: if the calls spare grants,
`checkPermission` answers by what the edits of the calls that have returned true add up to. -/
theorem checkPermission_of_history {installed : ℤ} {σ : DaoState c}
    (hσ : σ.db = Db.initial installed) (l : List DaoCall)
    (hl : Meets DaoState.call DaoState.SparesGrants σ l) {τ : DaoState c}
    (hτ : τ.db = (run DaoState.call σ l).db) (hhealthy : τ.Healthy) (a u p res : String) :
    ((PermissionDAO.checkPermission a u p res).run τ).1 = true ↔
      (run View.reply σ.db.view (σ.replies l) (c.value a)).Grants (fun i => i.status = 1)
        (c.value u) (c.value p) := by
  obtain ⟨o, ho, hk⟩ := DaoState.rolesKept_run hσ hl
  rw [hk.decides ho τ hτ hhealthy, Db.granted_iff, DaoState.view_run (.initial hσ)]

/-- A user who is granted a role, and asks. -/
theorem checkPermission_of_history_grant :
    let σ : DaoState .binary := DaoState.start 0
    let l : List DaoCall := [⟨.assignRoleToUser "qq_bot" "42" "admin", [], 7⟩]
    ((PermissionDAO.checkPermission "qq_bot" "42" "member:kick" "").run (run DaoState.call σ l)).1 =
        true ↔
      (run View.reply σ.db.view (σ.replies l) (Collation.binary.value "qq_bot")).Grants
        (fun i => i.status = 1) (Collation.binary.value "42") (Collation.binary.value "member:kick") :=
  checkPermission_of_history (DaoState.db_start 0) _
    (by rw [DaoState.start_eq_seeded]; decide +kernel) rfl
    (by rw [DaoState.start_eq_seeded]; decide +kernel) _ _ _ _

/-! ## One app's share of a run -/

namespace View
variable {v v' : View c} {y : DaoReply} {k : c.Value}

/-- What an operation for another app does cannot be seen. -/
theorem reply_of_ne (h : c.value y.op.storedCode ≠ k) : v.reply y k = v k := by
  simp only [reply, perform]
  split
  · exact Rbac.perform_of_ne (Ne.symm h)
  · rfl

/-- What an operation does to an app depends on the app alone. -/
theorem reply_congr (h : v k = v' k) (hk : c.value y.op.storedCode = k) :
    v.reply y k = v'.reply y k := by
  subst hk
  simp only [reply, perform]
  split
  · rw [Rbac.perform_self, Rbac.perform_self, h]
  · exact h

end View

namespace DaoState
variable {σ τ : DaoState c}

/-- Calls in which nothing fails return the same where the app looks the same. -/
theorem returns_congr (hσ : σ.db.Founded) (hτ : τ.db.Founded) {x : DaoCall}
    (hx : (σ.reply x).failed = false)
    (h : σ.db.view (c.value x.op.storedCode) = τ.db.view (c.value x.op.storedCode)) :
    σ.returns x = τ.returns x := by
  obtain ⟨hsound, hcomplete, -⟩ := call_refines hσ x
  obtain ⟨hsound', hcomplete', -⟩ := call_refines hτ x
  have haccepts : σ.db.view.Accepts (σ.reply x) ↔ τ.db.view.Accepts (τ.reply x) := by
    simp only [View.Accepts, reply, h]
  rw [Bool.eq_iff_iff]
  exact ⟨fun hr => hcomplete' hx (haccepts.mp (hsound hr)),
    fun hr => hcomplete hx (haccepts.mpr (hsound' hr))⟩

/-- **An app sees of a run what it sees of its own calls.**  When nothing fails, leaving out of
a run every call for another app changes neither what the calls for this one return nor what
the tables stand for here in the end. -/
theorem run_alone (hσ : σ.db.Reachable) (a : String) {l : List DaoCall}
    (hl : ∀ x ∈ l, x.outcomes.all Outcome.succeeds = true) :
    σ.replies (l.filter fun x => c.same x.op.storedCode a) =
        (σ.replies l).filter (fun y => c.same y.op.storedCode a) ∧
      (run DaoState.call σ (l.filter fun x => c.same x.op.storedCode a)).db.view (c.value a) =
        (run DaoState.call σ l).db.view (c.value a) := by
  -- The two runs go on from different tables in which the app looks the same.
  suffices hgen : ∀ τ : DaoState c, τ.db.Reachable → τ.db.view (c.value a) = σ.db.view (c.value a) →
      τ.replies (l.filter fun x => c.same x.op.storedCode a) =
          (σ.replies l).filter (fun y => c.same y.op.storedCode a) ∧
        (run DaoState.call τ (l.filter fun x => c.same x.op.storedCode a)).db.view (c.value a) =
          (run DaoState.call σ l).db.view (c.value a) from hgen σ hσ rfl
  induction l generalizing σ with
  | nil => exact fun τ _ h => ⟨rfl, h⟩
  | cons x l ih =>
      intro τ hτ hview
      have hx : (τ.reply x).failed = false := by simp [reply, hl x List.mem_cons_self]
      have hl := fun y hy => hl y (List.mem_cons_of_mem x hy)
      have hcall := (call_refines hσ.founded x).2.2
      by_cases hcode : c.same x.op.storedCode a = true
      · have hk : c.value x.op.storedCode = c.value a := (c.same_iff_value _ _).mp hcode
        have hreply : τ.reply x = σ.reply x := by
          simp only [reply, returns_congr hτ.founded hσ.founded hx (by rw [hk, hview])]
        have hnext : (τ.call x).db.view (c.value a) = (σ.call x).db.view (c.value a) := by
          rw [(call_refines hτ.founded x).2.2, hcall, hreply]
          exact View.reply_congr hview hk
        obtain ⟨hreplies, hviews⟩ :=
          ih (call_reachable hσ x) hl (τ.call x) (call_reachable hτ x) hnext
        have hcode' : c.same (σ.reply x).op.storedCode a = true := hcode
        simp only [List.filter_cons, hcode, hcode', if_true, replies_cons, run_cons, hreply, hreplies,
          hviews, and_self]
      · have hk : c.value x.op.storedCode ≠ c.value a :=
          fun h => hcode ((c.same_iff_value _ _).mpr h)
        have hnext : τ.db.view (c.value a) = (σ.call x).db.view (c.value a) := by
          rw [hcall, hview]
          exact (View.reply_of_ne hk).symm
        have hcode' : ¬ c.same (σ.reply x).op.storedCode a = true := hcode
        simp only [List.filter_cons, hcode, hcode', replies_cons, run_cons]
        exact ih (call_reachable hσ x) hl τ hτ hnext

/-- A role of one app is created while another app is deleted. -/
theorem run_alone_qq_bot :
    let σ : DaoState .binary := DaoState.start 0
    let l : List DaoCall := [⟨.createRole "qq_bot" "Ops" "ops" "" false, [], 7⟩,
      ⟨.deleteApp "admin_panel", [], 8⟩, ⟨.assignRoleToUser "qq_bot" "42" "ops", [], 9⟩]
    let l' := l.filter fun x => Collation.binary.same x.op.storedCode "qq_bot"
    σ.replies l' = (σ.replies l).filter (fun y => Collation.binary.same y.op.storedCode "qq_bot") ∧
      (run DaoState.call σ l').db.view (Collation.binary.value "qq_bot") =
        (run DaoState.call σ l).db.view (Collation.binary.value "qq_bot") :=
  run_alone (start_reachable 0) "qq_bot" (by decide)

/-! ## Nothing is done twice -/

/-- What is refused stays refused along a history that does not reopen it. -/
theorem not_accepts_run {e : ViewEdit c} {k : c.Value} (hkind : e.Repeats e) (ys : List DaoReply)
    {v : View c} (h : ¬ (v k).Accepts e)
    (hopen : ∀ y ∈ ys, y.result = true → c.value y.op.storedCode = k →
      ¬ (y.op.edit y.wallClock : ViewEdit c).Reopens e) : ¬ (run View.reply v ys k).Accepts e := by
  induction ys generalizing v with
  | nil => exact h
  | cons y ys ih =>
      refine ih ?_ fun z hz => hopen z (List.mem_cons_of_mem y hz)
      by_cases hk : c.value y.op.storedCode = k
      · subst hk
        rw [View.reply]
        split
        case isTrue hr =>
          rw [View.perform, Rbac.perform_self]
          exact Rbac.not_accepts_after_of_not_reopens hkind h
            (hopen y List.mem_cons_self hr rfl)
        case isFalse => exact h
      · rw [View.reply_of_ne hk]
        exact h

/-- **Nothing is created or deleted twice, unless it is reopened in between.**  When a call has
created, deleted, granted, revoked, bound or unbound something, and after any run another call
does the same once more, then a call in between has undone it, or has made again what it
needs; whatever fails. -/
theorem reopened_between (hσ : σ.db.Reachable) {x y : DaoCall} {l : List DaoCall}
    (hcode : c.same x.op.storedCode y.op.storedCode = true)
    (hrepeats : (y.op.edit y.wallClock : ViewEdit c).Repeats (x.op.edit x.wallClock))
    (hx : σ.returns x = true) (hy : (run DaoState.call (σ.call x) l).returns y = true) :
    ∃ z ∈ (σ.call x).replies l, z.result = true ∧ c.same z.op.storedCode y.op.storedCode = true ∧
      (z.op.edit z.wallClock : ViewEdit c).Reopens (y.op.edit y.wallClock) := by
  by_contra hnone
  have hcall := call_reachable hσ x
  have hend : (run DaoState.call (σ.call x) l).db.Reachable :=
    run_induction (P := fun τ : DaoState c => τ.db.Reachable)
      (fun _ x h => call_reachable h x) l hcall
  have hk : c.value x.op.storedCode = c.value y.op.storedCode := (c.same_iff_value _ _).mp hcode
  -- Right after the first call the second would be refused.
  have hrefused :
      ¬ ((σ.call x).db.view (c.value y.op.storedCode)).Accepts (y.op.edit y.wallClock) := by
    have hr : (σ.reply x).result = true := hx
    rw [(call_refines hσ.founded x).2.2, View.reply, if_pos hr, View.perform, ← hk]
    simp only [reply, Rbac.perform_self]
    exact Rbac.not_accepts_after hrepeats
  refine not_accepts_run hrepeats.self ((σ.call x).replies l) hrefused
    (fun z hz hr hzk hreopens => ?_) ?_
  · exact hnone ⟨z, hz, hr, (c.same_iff_value _ _).mpr hzk, hreopens⟩
  · have hacc := (call_refines hend.founded y).1 hy
    rw [view_run hcall l] at hacc
    exact hacc

/-- A role that is created, deleted, and created again. -/
theorem reopened_between_two_creations :
    let σ : DaoState .binary := DaoState.start 0
    let x : DaoCall := ⟨.createRole "qq_bot" "Ops" "ops" "" false, [], 7⟩
    let l : List DaoCall := [⟨.deleteRole "qq_bot" "ops", [], 8⟩]
    let y : DaoCall := ⟨.createRole "qq_bot" "Operators" "ops" "" true, [], 9⟩
    ∃ z ∈ (σ.call x).replies l, z.result = true ∧
      Collation.binary.same z.op.storedCode y.op.storedCode = true ∧
        (z.op.edit z.wallClock : ViewEdit .binary).Reopens (y.op.edit y.wallClock) := by
  refine reopened_between (start_reachable 0) (by decide) ?_ ?_ ?_
  · rw [DaoOp.edit, DaoOp.edit, DaoOp.fitting_of_fits (by decide), DaoOp.fitting_of_fits (by decide)]
    rfl
  · rw [DaoState.start_eq_seeded]
    decide +kernel
  · rw [DaoState.start_eq_seeded]
    decide +kernel

end DaoState
end SiqiAuth
