import SiqiAuth.Lib.Related
import SiqiAuth.Service.DecisionPaths

/-!
# Failing closed

A run in which decisions meet failures of the database is compared with the same run
without them.  The tables stay the same; the caches have the same keys and the same
times of expiry, and the sets in the one are parts of those in the other.  So whatever
is allowed in spite of the failures is allowed without them.

## Main definitions

* `Server.Below` — how the states of the two runs compare.
* `Call.Undisturbed` — the same call, with nothing failing if it is a decision.
* `fail_closed` — how the answers compare.
-/

namespace SiqiAuth
open Lib AuthService

variable {c : Collation}

/-- The same tables, sessions and clock, and a cache with the same keys but possibly
smaller sets. -/
structure Server.Below (s t : Server c) : Prop where
  db_eq : s.db = t.db
  cache : s.cache.Rel (· ⊆ ·) t.cache
  sessions_eq : s.sessions = t.sessions
  lastError_eq : s.lastError .adminService = t.lastError .adminService
  now_eq : s.now = t.now

namespace Server.Below
variable {s t : Server c}

theorem refl (s : Server c) : Below s s :=
  ⟨rfl, .refl (fun _ => Finset.Subset.refl _) _, rfl, rfl, rfl⟩

/-- The DAO of another service reads on the left. -/
theorem left_left {h : Holder} {σ : DaoState c} (hst : Below s t) (hσ : Quiet (s.dao h) σ)
    (hh : h ≠ .adminService) : Below (s.left h σ) t where
  db_eq := hσ.db_eq.trans hst.db_eq
  cache := hst.cache
  sessions_eq := hst.sessions_eq
  lastError_eq := by simp [left, Function.update_of_ne hh.symm, hst.lastError_eq]
  now_eq := hst.now_eq

/-- Or on the right. -/
theorem left_right {h : Holder} {τ : DaoState c} (hst : Below s t) (hτ : Quiet (t.dao h) τ)
    (hh : h ≠ .adminService) : Below s (t.left h τ) where
  db_eq := hst.db_eq.trans hτ.db_eq.symm
  cache := hst.cache
  sessions_eq := hst.sessions_eq
  lastError_eq := by simp [left, Function.update_of_ne hh.symm, hst.lastError_eq]
  now_eq := hst.now_eq

end Server.Below

/-! ## The console -/

/-- Before and after each step of a handler of the console. -/
def Alike (s t : Server c) : Prop := s.Below t ∧ s.env = t.env

/-- From states that are alike the handler returns the same, in states that are alike. -/
def SameCourse {α : Type} (x : Service c α) : Prop :=
  Related Alike x x fun a b s t => a = b ∧ Alike s t

namespace SameCourse
variable {α β : Type}

theorem pure (a : α) : SameCourse (Pure.pure a : Service c α) :=
  Related.pure fun _ _ hst => ⟨rfl, hst⟩

theorem bind {x : Service c α} {f : α → Service c β} (hx : SameCourse x)
    (hf : ∀ a, SameCourse (f a)) : SameCourse (x >>= f) := by
  refine Related.bind hx fun a b => .of_and fun hab => ?_
  subst hab
  exact hf a

theorem ite {p : Prop} [Decidable p] {x y : Service c α} (hx : SameCourse x) (hy : SameCourse y) :
    SameCourse (if p then x else y) :=
  Related.ite (fun _ => hx) fun _ => hy

theorem call_adminService (x : Dao c α) : SameCourse (call .adminService x) := by
  intro s t hst
  have hdao : s.dao .adminService = t.dao .adminService := by
    simp [Server.dao, hst.1.db_eq, hst.1.lastError_eq, hst.2]
  simp only [run_call, hdao]
  refine ⟨trivial, ⟨rfl, hst.1.cache, hst.1.sessions_eq, ?_, hst.1.now_eq⟩, ?_⟩
  · simp [Server.left]
  · simp [Server.left, hst.2]

theorem sessionGet (token : String) : SameCourse (c := c) (sessionGet token) := by
  intro s t hst
  have hnow : s.nextNow = t.nextNow := by simp [Server.nextNow, hst.1.now_eq, hst.2]
  simp only [run_sessionGet, hst.1.sessions_eq, hnow]
  refine ⟨trivial, ⟨hst.1.db_eq, hst.1.cache, rfl, hst.1.lastError_eq, hnow⟩, ?_⟩
  simp [Server.tick, hst.2]

theorem sessionPut (token : String) (session : SessionInfo) (ttl : ℤ) :
    SameCourse (c := c) (sessionPut token session ttl) := by
  intro s t hst
  have hnow : s.nextNow = t.nextNow := by simp [Server.nextNow, hst.1.now_eq, hst.2]
  simp only [run_sessionPut, hst.1.sessions_eq, hnow]
  refine ⟨trivial, ⟨hst.1.db_eq, hst.1.cache, rfl, hst.1.lastError_eq, hnow⟩, ?_⟩
  simp [Server.tick, hst.2]

open AdminService in
theorem invalidate (i : Invalidation) :
    SameCourse (c := c) (modify fun s => { s with cache := i.apply s.cache }) := by
  intro s t hst
  refine ⟨rfl, ⟨hst.1.db_eq, ?_, hst.1.sessions_eq, hst.1.lastError_eq, hst.1.now_eq⟩, hst.2⟩
  cases i with
  | nothing => exact hst.1.cache
  | key k => exact hst.1.cache.invalidate k
  | allWithPrefix pre => exact hst.1.cache.retain _

open AdminService in
theorem validateToken (header : Option String) : SameCourse (c := c) (validateToken header) := by
  simp only [AdminService.validateToken]
  cases header.bind bearerToken with
  | none => exact .pure _
  | some token => exact (sessionGet token).bind fun _ => .pure _

open AdminService in
theorem edit (e : Edit) (header : Option String) : SameCourse (c := c) (edit e header) := by
  refine (validateToken header).bind fun session => ?_
  cases session with
  | none => exact .pure _
  | some session =>
      refine (invalidate e.invalidation).bind fun _ => .ite (.pure _) ?_
      refine (call_adminService e.run).bind fun out => .ite ?_ ?_
      · exact (call_adminService _).bind fun _ => .pure _
      · exact (call_adminService _).bind fun _ => .pure _

open AdminService in
theorem view (v : View c) (header : Option String) : SameCourse (view v header) := by
  refine (validateToken header).bind fun session => ?_
  cases session with
  | none => exact .pure _
  | some session => exact .ite (.pure _) (call_adminService _)

open AdminService in
theorem login (cfg : Config) (username password token : String) :
    SameCourse (c := c) (login cfg username password token) := by
  refine .ite (.pure _) ((call_adminService _).bind fun user => .ite (.pure _) (.ite (.pure _) ?_))
  exact (sessionPut _ _ _).bind fun _ => .pure _

end SameCourse

/-! ## Decisions -/

/-- Before and after each step of a decision, of which nothing fails on the right. -/
def Sounder (s t : Server c) : Prop := s.Below t ∧ s.env.ticks = t.env.ticks ∧ t.Healthy

namespace Sounder
variable {s t : Server c}

theorem nextNow_eq (hst : Sounder s t) : s.nextNow = t.nextNow := by
  simp [Server.nextNow, hst.1.now_eq, hst.2.1]

/-- Functions of the DAO that store nothing, side by side. -/
theorem call {α : Type} {x y : Dao c α} {Q : α → α → Prop} {h : Holder} (hh : h ≠ .adminService)
    (hx : ∀ σ, Quiet σ (x.run σ).2) (hy : ∀ σ, Quiet σ (y.run σ).2)
    (hxy : ∀ σ τ : DaoState c, σ.db = τ.db → τ.Healthy → Q (x.run σ).1 (y.run τ).1) :
    Related Sounder (call h x) (call h y) fun a b s t => Q a b ∧ Sounder s t := by
  intro s t hst
  simp only [run_call]
  refine ⟨hxy _ _ hst.1.db_eq hst.2.2, ?_, hst.2.1, (hy (t.dao h)).healthy hst.2.2⟩
  exact (hst.1.left_left (hx (s.dao h)) hh).left_right (hy (t.dao h)) hh

theorem cacheGet (key : String) : Related Sounder (cacheGet (c := c) key) (SiqiAuth.cacheGet key)
    fun a b s t => Option.Rel (· ⊆ ·) a b ∧ Sounder s t := by
  intro s t hst
  simp only [run_cacheGet, LocalCache.fst_get, hst.nextNow_eq]
  refine ⟨hst.1.cache.peek _ _, ⟨hst.1.db_eq, hst.1.cache.get _ _, hst.1.sessions_eq,
    hst.1.lastError_eq, hst.nextNow_eq⟩, ?_, hst.2.2⟩
  simp [Server.tick, hst.2.1]

theorem cachePut (key : String) {perms perms' : Finset String} (h : perms ⊆ perms') (ttl : ℤ) :
    Related Sounder (cachePut (c := c) key perms ttl) (SiqiAuth.cachePut key perms' ttl)
      fun _ _ s t => Sounder s t := by
  intro s t hst
  simp only [run_cachePut, hst.nextNow_eq]
  refine ⟨⟨hst.1.db_eq, hst.1.cache.put _ _ h _, hst.1.sessions_eq, hst.1.lastError_eq,
    hst.nextNow_eq⟩, ?_, hst.2.2⟩
  simp [Server.tick, hst.2.1]

/-- The last step of a check, with fewer permissions on the left. -/
theorem finalCheck (req : CheckRequest) {perms perms' : Finset String} (h : perms ⊆ perms')
    (hit hit' : Bool) :
    Related Sounder (finalCheck (c := c) req perms hit) (AuthService.finalCheck req perms' hit')
      fun r r' s t => (r.allowed = some true → r'.allowed = some true) ∧ s.Below t := by
  have hquiet := fun cacheHit : Bool => explainDenial_quiet (c := c) req.appCode req.userId
    req.permKey (if cacheHit then " (Cache)" else "")
  intro s t hst
  refine ⟨fun hallowed => ?_, ?_⟩
  · have hr := (finalCheck_spec req perms hit
      (Prod.mk.eta (p := (AuthService.finalCheck req perms hit).run s)).symm).1
    have hr' := (finalCheck_spec req perms' hit'
      (Prod.mk.eta (p := (AuthService.finalCheck req perms' hit').run t)).symm).1
    rw [hr] at hallowed
    rw [hr']
    simp only [Option.some_inj, decide_eq_true_eq] at hallowed ⊢
    exact h hallowed
  · have hbelow : ∀ t', s.Below t' → ((AuthService.finalCheck req perms hit).run s).2.Below t' := by
      intro t' hst'
      by_cases hp : req.permKey ∈ perms
      · simp only [AuthService.finalCheck, if_pos hp]
        exact hst'
      · simp only [AuthService.finalCheck, if_neg hp, run_call]
        exact hst'.left_left (hquiet hit _) (by simp)
    apply hbelow
    by_cases hp : req.permKey ∈ perms'
    · simp only [AuthService.finalCheck, if_pos hp]
      exact hst.1
    · simp only [AuthService.finalCheck, if_neg hp, run_call]
      exact hst.1.left_right (hquiet hit' _) (by simp)

theorem check (cfg : Config) (req : CheckRequest) :
    Related Sounder (check (c := c) cfg req) (AuthService.check cfg req)
      fun r r' s t => (r.allowed = some true → r'.allowed = some true) ∧ s.Below t := by
  refine .ite (fun _ => .pure fun _ _ hst => ⟨id, hst.1⟩) fun _ => ?_
  have hperms : Related Sounder (userPermissions (c := c) cfg req.appCode req.userId)
      (userPermissions cfg req.appCode req.userId) fun p p' s t => p.1 ⊆ p'.1 ∧ Sounder s t := by
    refine (cacheGet _).bind fun found found' => .of_and fun hfound => ?_
    cases hfound with
    | some h => exact .pure fun _ _ hst => ⟨h, hst⟩
    | none =>
        refine (call (Q := fun a b => a ⊆ b) (by simp) (loadPermissions_quiet _ _)
          (loadPermissions_quiet _ _) fun σ τ hdb hτ => ?_).bind fun perms perms' => .of_and fun h => ?_
        · have hσ := PermissionDAO.getUserPermissions_keys_subset req.appCode req.userId σ
          rw [hdb, ← PermissionDAO.getUserPermissions_keys (readsThrough_of_succeeds hτ)] at hσ
          exact hσ
        · exact (cachePut _ h _).bind fun _ _ => .pure fun _ _ hst => ⟨h, hst⟩
  exact hperms.bind fun p p' => .of_and fun h => finalCheck req h p.2 p'.2

/-- No failure makes `checkPermission` answer true where it does not without failures. -/
theorem checkPermission {σ τ : DaoState c} (hdb : σ.db = τ.db) (hτ : τ.Healthy)
    {a u p res : String} (h : ((PermissionDAO.checkPermission a u p res).run σ).1 = true) :
    ((PermissionDAO.checkPermission a u p res).run τ).1 = true := by
  obtain ⟨g, hg⟩ := PermissionDAO.checkPermission_sound h
  rw [hdb] at hg
  exact ((PermissionDAO.checkPermission_reads a u p res).result hτ).mpr ⟨g, hg⟩

theorem batchCheckPermissions {σ τ : DaoState c} (hdb : σ.db = τ.db) (hτ : τ.Healthy)
    (a : String) (requests : List (String × String)) :
    List.Forall₂ (fun b b' => b = true → b' = true)
      ((PermissionDAO.batchCheckPermissions a requests).run σ).1
      ((PermissionDAO.batchCheckPermissions a requests).run τ).1 := by
  refine (Related.mapM (P := fun σ τ : DaoState c => σ.db = τ.db ∧ τ.Healthy)
    (R := fun b b' : Bool => b = true → b' = true) requests (fun req => ?_) σ τ ⟨hdb, hτ⟩).1
  intro σ τ hστ
  have hquiet := (PermissionDAO.checkPermission_reads (c := c) a req.1 req.2 "").quiet
  exact ⟨checkPermission hστ.1 hστ.2, (hquiet σ).db_eq.trans (hστ.1.trans (hquiet τ).db_eq.symm),
    (hquiet τ).healthy hστ.2⟩

theorem batchCheck (req : BatchCheckRequest) :
    Related Sounder (batchCheck (c := c) req) (AuthService.batchCheck req) fun r r' s t =>
      List.Forall₂ (fun res res' : ResultItem => res.allowed = some true → res'.allowed = some true)
        (BatchCheck.results r) (BatchCheck.results r') ∧ s.Below t := by
  refine .ite (fun _ => .pure fun _ _ hst => ⟨.nil, hst.1⟩) fun _ => ?_
  have hquiet := (PermissionDAO.batchCheckPermissions_reads (c := c) req.appCode
    (req.items.map fun item => (item.userId, item.permKey))).quiet
  refine (call (by simp) hquiet hquiet fun σ τ hdb hτ =>
    batchCheckPermissions hdb hτ _ _).bind fun bs bs' => .of_and fun hbs => ?_
  refine .pure fun _ _ hst => ⟨?_, hst.1⟩
  simp only [BatchCheck.results, List.forall₂_map_left_iff, List.forall₂_map_right_iff]
  generalize req.items = items
  induction hbs generalizing items with
  | nil => exact .nil
  | cons hb _ ih =>
      cases items with
      | nil => exact .nil
      | cons item items => exact .cons (by simpa using hb) (ih items)

theorem agentCheck (req : CheckRequest) (query : AuthAgent.Query) :
    Related Sounder (AuthAgent.check (c := c) req query) (AuthAgent.check req query)
      fun r r' s t => (r.1.allowed = some true → r'.1.allowed = some true) ∧ s.Below t := by
  refine .ite (fun _ => .pure fun _ _ hst => ⟨id, hst.1⟩) fun _ => ?_
  have hquiet := fun a u p => (PermissionDAO.checkPermission_reads (c := c) a u p "").quiet
  refine (call (Q := fun b b' => b = true → b' = true) (by simp) (hquiet _ _ _) (hquiet _ _ _)
    fun σ τ hdb hτ => checkPermission hdb hτ).bind fun b b' => .of_and fun hb => ?_
  cases b with
  | true =>
      rw [hb rfl]
      exact .pure fun _ _ hst => ⟨id, hst.1⟩
  | false =>
      intro s t hst
      have hdenied := explainDenial_quiet (c := c) (AuthAgent.field req.appCode query.appCode)
        (AuthAgent.field req.userId query.userId) (AuthAgent.field req.permKey query.permKey) ""
      have hleft := hst.1.left_left (h := .authAgent) (hdenied _) (by simp)
      refine ⟨fun hallowed => ?_, ?_⟩
      · have hfalse := allowed_explainDenial (AuthAgent.field req.appCode query.appCode)
          (AuthAgent.field req.userId query.userId) (AuthAgent.field req.permKey query.permKey) ""
          (s.dao .authAgent)
        exact absurd (hfalse.symm.trans hallowed) (by simp)
      · cases b' with
        | true => exact hleft
        | false => exact hleft.left_right (h := .authAgent) (hdenied _) (by simp)

end Sounder

/-! ## Runs -/

/-- The RPC decides. -/
def Rpc.decides : Rpc → Bool
  | .check _ | .batchCheck _ | .agentCheck _ _ => true
  | _ => false

/-- The same RPC at the same times; if it is a decision, nothing fails in `y`, else the
environments are the same. -/
def Call.Undisturbed (x y : Call) : Prop :=
  y.rpc = x.rpc ∧ if x.rpc.decides then
    y.env.ticks = x.env.ticks ∧ ∀ o ∈ y.env.outcomes, o.succeeds = true else y.env = x.env

instance (x y : Call) : Decidable (x.Undisturbed y) :=
  inferInstanceAs (Decidable (_ ∧ _))

/-- What a reply allows: the check itself, or the items of a batch, in order. -/
def Reply.allows : Reply → List Bool
  | .check r | .agentCheck r _ => [decide (r.allowed = some true)]
  | .batchCheck r => (BatchCheck.results r).map fun res => decide (res.allowed = some true)
  | _ => []

/-- The replies allow as many things, and whatever the one allows the other allows. -/
def Reply.AllowsLess (r r' : Reply) : Prop :=
  List.Forall₂ (fun b b' => b = true → b' = true) r.allows r'.allows

namespace Reply.AllowsLess

theorem check {r r' : CheckResponse} (h : r.allowed = some true → r'.allowed = some true) :
    (Reply.check r).AllowsLess (.check r') :=
  .cons (by simpa using h) .nil

theorem agentCheck {r r' : CheckResponse} (st st' : Option String)
    (h : r.allowed = some true → r'.allowed = some true) :
    (Reply.agentCheck r st).AllowsLess (.agentCheck r' st') :=
  .cons (by simpa using h) .nil

theorem batchCheck {r r' : Except Failed (List ResultItem)}
    (h : List.Forall₂ (fun res res' : ResultItem => res.allowed = some true → res'.allowed = some true)
      (BatchCheck.results r) (BatchCheck.results r')) :
    (Reply.batchCheck r).AllowsLess (.batchCheck r') := by
  simp only [AllowsLess, allows, List.forall₂_map_left_iff, List.forall₂_map_right_iff,
    decide_eq_true_eq]
  exact h

end Reply.AllowsLess

/-- A call without the failures: the states stay comparable, and it allows no less. -/
theorem Server.Below.step (cfg : Config) {s t : Server c} (hst : s.Below t) {x y : Call}
    (hxy : x.Undisturbed y) :
    (s.reply cfg x).AllowsLess (t.reply cfg y) ∧ (s.step cfg x).Below (t.step cfg y) := by
  obtain ⟨rpc, env⟩ := x
  obtain ⟨rpc', env'⟩ := y
  obtain ⟨hrpc, henv⟩ := hxy
  obtain rfl : rpc' = rpc := hrpc
  have hfacing : (s.facing env).Below (t.facing env') :=
    ⟨hst.db_eq, hst.cache, hst.sessions_eq, hst.lastError_eq, hst.now_eq⟩
  have halike : env' = env → Alike (s.facing env) (t.facing env') :=
    fun h => ⟨hfacing, h.symm⟩
  cases rpc' with
  | check req =>
      obtain ⟨hr, hbelow⟩ := Sounder.check cfg req _ _ ⟨hfacing, henv.1.symm, henv.2⟩
      exact ⟨.check hr, hbelow⟩
  | batchCheck req =>
      obtain ⟨hr, hbelow⟩ := Sounder.batchCheck req _ _ ⟨hfacing, henv.1.symm, henv.2⟩
      exact ⟨.batchCheck hr, hbelow⟩
  | agentCheck req query =>
      obtain ⟨hr, hbelow⟩ := Sounder.agentCheck req query _ _ ⟨hfacing, henv.1.symm, henv.2⟩
      exact ⟨.agentCheck _ _ hr, hbelow⟩
  | edit req header =>
      exact ⟨.nil, (SameCourse.edit req.edit header _ _ (halike henv)).2.1⟩
  | view req header =>
      exact ⟨.nil, (SameCourse.view req.view header _ _ (halike henv)).2.1⟩
  | login username password token =>
      exact ⟨.nil, (SameCourse.login cfg username password token _ _ (halike henv)).2.1⟩

/-- **Failures of the database never allow.**  Along a run and the same run without the
failures of its decisions, every decision allows in the second what it allows in the
first. -/
theorem fail_closed (cfg : Config) (s : Server c) {l m : List Call}
    (hlm : List.Forall₂ Call.Undisturbed l m) :
    List.Forall₂ (fun p q => (p.1.reply cfg p.2).AllowsLess (q.1.reply cfg q.2))
      (transcript (Server.step cfg) s l) (transcript (Server.step cfg) s m) := by
  have hruns := transcript_forall₂ (Server.step cfg) (Server.step cfg) (R := Server.Below)
    (fun s t x y hst hxy => (hst.step cfg hxy).2) hlm (.refl s)
  exact hruns.imp fun p q hpq => (hpq.1.step cfg hpq.2).1

/-- A check whose read fails midway, and one that is answered by what it has cached,
beside the same two checks undisturbed. -/
theorem fail_closed_midway :
    let cfg : Config := { crypt := fun _ _ => none }
    let s : Server .binary := .start 0
    let l : List Call := [⟨.check ⟨"qq_bot", "100001", "member:kick", ""⟩,
        { outcomes := [.answered [], .raised [] 1 "Lost connection"] }⟩,
      ⟨.check ⟨"qq_bot", "100001", "message:pin", ""⟩, {}⟩]
    let m : List Call := [⟨.check ⟨"qq_bot", "100001", "member:kick", ""⟩, {}⟩,
      ⟨.check ⟨"qq_bot", "100001", "message:pin", ""⟩, {}⟩]
    List.Forall₂ (fun p q => (p.1.reply cfg p.2).AllowsLess (q.1.reply cfg q.2))
      (transcript (Server.step cfg) s l) (transcript (Server.step cfg) s m) := by
  intro cfg s l m
  have hlm : List.Forall₂ Call.Undisturbed l m :=
    .cons (by decide) (.cons (by decide) .nil)
  exact fail_closed cfg s hlm

end SiqiAuth
