import SiqiAuth.Service.Rpc
import SiqiAuth.Store.Touches

/-!
# The permission cache and the tables

What the cache offers for a user of an app agrees with the tables as long as no check
loads under the same key the different permissions of another pair, and no edit
touches the user behind an entry that its own invalidation leaves alive.  Granting
and revoking invalidate one key, as the request spells it; binding and unbinding the
keys that begin with the app code as the request spells it; deleting a permission or
an app invalidates nothing.

## Main definitions

* `Server.CoherentAt` — what the cache offers for a pair is what the tables say.
* `Server.SparesCache`, `Server.LoadsTables` — the calls that keep it so.
* `cache_coherent` — what holds after a run of such calls.
-/

namespace SiqiAuth
open Lib AuthService

variable {c : Collation}

namespace Server

/-- Whatever the cache offers under the key of the pair, now or later, is the user's
permission keys. -/
def CoherentAt (s : Server c) (a u : String) : Prop :=
  ∀ perms, s.cache.peek s.now (cacheKey a u) = some perms → perms = s.db.permKeys a u

/-- The same server with nothing in the permission cache. -/
def emptied (s : Server c) : Server c := { s with cache := .empty }

/-- A check does not load other permissions under the key of the pair; an edit that gets
past the session check does not touch the user behind an entry that lives on after its
invalidation. -/
def SparesCache (s : Server c) (a u : String) (x : Call) : Prop :=
  match x.rpc with
  | .check req => s.Misses x req → cacheKey req.appCode req.userId = cacheKey a u →
      s.db.permKeys req.appCode req.userId = s.db.permKeys a u
  | .edit req header => (s.facing x.env).session header ≠ none → "" ∉ req.edit.required →
      (req.edit.invalidation.apply s.cache).peek ((s.facing x.env).gated header).now
        (cacheKey a u) ≠ none → ¬ req.edit.op.Touches s.db a u
  | _ => True

instance (s : Server c) (a u : String) (x : Call) : Decidable (s.SparesCache a u x) := by
  obtain ⟨rpc, env⟩ := x
  induction rpc using Rpc.casesOn <;> dsimp only [SparesCache] <;> infer_instance

/-- The read of a check that loads under the key of the pair gets through. -/
def LoadsTables (s : Server c) (a u : String) (x : Call) : Prop :=
  match x.rpc with
  | .check req => s.Misses x req → cacheKey req.appCode req.userId = cacheKey a u →
      readsThrough x.env.outcomes = true
  | _ => True

instance (s : Server c) (a u : String) (x : Call) : Decidable (s.LoadsTables a u x) := by
  obtain ⟨rpc, env⟩ := x
  induction rpc using Rpc.casesOn <;> dsimp only [LoadsTables] <;> infer_instance

theorem loadsTables_of_healthy {s : Server c} {x : Call} (h : (s.facing x.env).Healthy)
    (a u : String) : s.LoadsTables a u x := by
  unfold LoadsTables
  split
  · exact fun _ _ => readsThrough_of_succeeds h
  · trivial

variable {cfg : Config} {s s' : Server c} {a u : String}

/-- Entries may disappear, and time may pass. -/
theorem CoherentAt.mono (hs : s.CoherentAt a u)
    (hcache : ∀ key e, s'.cache.find key = some e → s.cache.find key = some e)
    (hdb : s'.db.permKeys a u = s.db.permKeys a u) (hnow : s.now ≤ s'.now) : s'.CoherentAt a u := by
  intro perms hperms
  obtain ⟨e, hfind, hlive, rfl⟩ := LocalCache.peek_eq_some.mp hperms
  rw [hdb]
  exact hs _ (LocalCache.peek_eq_some.mpr ⟨e, hcache _ _ hfind, hnow.trans hlive, rfl⟩)

/-- A call that spares the cache, and loads what the tables say if anything, keeps it
coherent. -/
theorem CoherentAt.step (hs : s.CoherentAt a u) {o : Owners} (ho : o.Consistent s.db) {x : Call}
    (hx : s.SparesCache a u x) (hreads : s.LoadsTables a u x) :
    (s.step cfg x).CoherentAt a u := by
  have hserved := s.served cfg x
  have hnow := hserved.now_le
  by_cases hedit : ∀ req header, x.rpc ≠ .edit req header
  · have hdb := hserved.db_eq hedit
    intro perms hperms
    obtain ⟨e, hfind, hlive, rfl⟩ := LocalCache.peek_eq_some.mp hperms
    rw [hdb]
    obtain ⟨hfind, -⟩ | ⟨req, hmiss, hkey, rfl⟩ := hserved.find_cache hfind
    · exact hs _ (LocalCache.peek_eq_some.mpr ⟨e, hfind, hnow.trans hlive, rfl⟩)
    · rw [SparesCache, hmiss.1] at hx
      rw [LoadsTables, hmiss.1] at hreads
      exact (loaded_eq (hreads hmiss hkey.symm) _ _).trans (hx hmiss hkey.symm)
  · push Not at hedit
    obtain ⟨req, header, hrpc⟩ := hedit
    obtain ⟨rpc, env⟩ := x
    obtain rfl : rpc = .edit req header := hrpc
    generalize s.reply cfg ⟨.edit req header, env⟩ = r at hserved
    generalize s.step cfg ⟨.edit req header, env⟩ = s' at hserved hnow
    cases hserved with
    | edit h =>
        cases h with
        | rejected =>
            refine hs.mono (fun _ _ he => ?_) (by rw [db_gated, db_facing]) hnow
            rw [cache_gated] at he
            exact he
        | incomplete _ _ hdb hcache =>
            refine hs.mono (fun _ _ he => ?_) (by rw [hdb, db_facing]) hnow
            rw [hcache] at he
            exact AdminService.Invalidation.find_apply he
        | failed _ _ hrun hdb hcache =>
            refine hs.mono (fun _ _ he => ?_) ?_ hnow
            · rw [hcache] at he
              exact AdminService.Invalidation.find_apply he
            · rw [hdb, DaoOp.run_of_false hrun]
              rfl
        | @done session _ σ _ hsession hreq hrun haudit hcache _ hclock =>
            intro perms hperms
            have hlive := hperms
            rw [hcache, hclock] at hlive
            have hspared := hx (by rw [hsession]; exact Option.some_ne_none _) hreq
              (by rw [← s.cache_facing env, hlive]; exact Option.some_ne_none _)
            have heffect := DaoOp.run_effect req.edit.op ((s.facing env).dao .adminService)
            rw [hrun] at heffect
            have hdb : s'.db.permKeys a u = s.db.permKeys a u := by
              rw [haudit.eq]
              exact heffect.permKeys_eq ho hspared
            rw [hdb]
            obtain ⟨e, hfind, hle, rfl⟩ := LocalCache.peek_eq_some.mp hperms
            rw [hcache] at hfind
            exact hs _ (LocalCache.peek_eq_some.mpr
              ⟨e, AdminService.Invalidation.find_apply hfind, hnow.trans hle, rfl⟩)

/-- On a coherent cache a complete check whose read gets through decides by the tables. -/
theorem CoherentAt.check_allowed {req : CheckRequest} (hs : s.CoherentAt req.appCode req.userId)
    (hreq : req.Complete) (hhealthy : s.Healthy) : ((check cfg req).run s).1.allowed =
      some (decide (req.permKey ∈ s.db.permKeys req.appCode req.userId)) := by
  cases hrun : (check cfg req).run s with
  | mk r s' =>
      cases check_spec hrun with
      | incomplete h => exact absurd hreq h
      | hit _ hpeek hallowed =>
          rw [hallowed, hs _ (LocalCache.peek_mono hpeek s.now_le_nextNow)]
      | miss _ _ hallowed => rw [hallowed, loaded_eq (readsThrough_of_succeeds hhealthy)]

theorem coherentAt_of_empty (h : s.cache = .empty) : s.CoherentAt a u := by
  intro perms hperms
  rw [h, LocalCache.peek_empty] at hperms
  cases hperms

/-- The cache is coherent after a run of calls that spare it. -/
theorem coherentAt_run (cfg : Config) {installed : ℤ} {s : Server c}
    (hdb : s.db = Db.initial installed) (hcache : s.cache = .empty) {a u : String} {l : List Call}
    (hl : Meets (step cfg) (fun t x => t.LoadsTables a u x ∧ t.SparesCache a u x) s l) :
    (run (step cfg) s l).CoherentAt a u := by
  have hinv : (∃ o : Owners, o.Consistent (run (step cfg) s l).db) ∧
      (run (step cfg) s l).CoherentAt a u := by
    refine run_invariant (P := fun t : Server c => (∃ o : Owners, o.Consistent t.db) ∧
      t.CoherentAt a u) (fun t x ht hx => ?_) ⟨exists_owners cfg hdb [], ?_⟩ hl
    · obtain ⟨o, ho⟩ := ht.1
      exact ⟨(t.served cfg x).exists_owners ht.1, ht.2.step ho hx.2 hx.1⟩
    · exact coherentAt_of_empty hcache
  exact hinv.2

end Server

/-- **The cache is coherent after every run of calls that spare it**, of which none meets
a failure of the database: what it offers for the pair, now or later, is what
`getUserPermissions` returns, and a check answered from it is decided as it is on an
empty cache. -/
theorem cache_coherent (cfg : Config) {installed : ℤ} {s : Server c}
    (hdb : s.db = Db.initial installed) (hcache : s.cache = .empty) {a u : String} {l : List Call}
    (hl : Meets (Server.step cfg)
      (fun t x => (t.facing x.env).Healthy ∧ t.SparesCache a u x) s l) :
    let t := run (Server.step cfg) s l
    (∀ now perms, t.now ≤ now → t.cache.peek now (cacheKey a u) = some perms →
      ∀ σ : DaoState c, σ.db = t.db → σ.Healthy →
        (((PermissionDAO.getUserPermissions a u).run σ).1.map Prod.fst).toFinset = perms) ∧
    ∀ env permKey resourceId, (t.facing env).Healthy →
      ((check cfg ⟨a, u, permKey, resourceId⟩).run (t.facing env)).1.allowed =
        ((check cfg ⟨a, u, permKey, resourceId⟩).run
          (t.facing env).emptied).1.allowed := by
  intro t
  have hcoherent : t.CoherentAt a u := Server.coherentAt_run cfg hdb hcache
    (hl.mono fun _ _ hx => ⟨Server.loadsTables_of_healthy hx.1 a u, hx.2⟩)
  constructor
  · rintro now perms hnow hperms σ hσ hhealthy
    rw [hcoherent _ (LocalCache.peek_mono hperms hnow), ← hσ]
    exact PermissionDAO.getUserPermissions_keys (readsThrough_of_succeeds hhealthy)
  · intro env permKey resourceId hhealthy
    by_cases hreq : (⟨a, u, permKey, resourceId⟩ : CheckRequest).Complete
    · have hfacing : (t.facing env).CoherentAt a u := hcoherent
      rw [hfacing.check_allowed hreq hhealthy,
        (Server.coherentAt_of_empty (s := (t.facing env).emptied) rfl).check_allowed hreq hhealthy]
      rfl
    · rw [run_check_of_incomplete hreq, run_check_of_incomplete hreq]

/-- A role is revoked, and the user checked twice. -/
theorem cache_coherent_after_revoke :
    let cfg : Config := { crypt := fun _ hash => some hash }
    let s : Server .binary := .start 0
    let l : List Call := [⟨.login "admin" "pw" "t", {}⟩,
      ⟨.edit (.revokeRoleFromUser "qq_bot" "100001" "admin") (some "Bearer t"), {}⟩,
      ⟨.check ⟨"qq_bot", "100001", "member:kick", ""⟩, {}⟩]
    ((check cfg ⟨"qq_bot", "100001", "member:kick", ""⟩).run
        ((run (Server.step cfg) s l).facing {})).1.allowed =
      ((check cfg ⟨"qq_bot", "100001", "member:kick", ""⟩).run
        ((run (Server.step cfg) s l).facing {}).emptied).1.allowed := by
  intro cfg s l
  have hl : Meets (Server.step cfg) (fun t x => (t.facing x.env).Healthy ∧
      t.SparesCache "qq_bot" "100001" x) s l := by
    simp only [s, Server.start_eq_seeded]
    decide +kernel
  obtain ⟨-, hcheck⟩ := cache_coherent cfg (s := s) (Server.db_start 0) rfl hl
  exact hcheck {} "member:kick" "" (Server.healthy_facing _)

/-- A permission is deleted, or the whole app: the cache goes on offering it. -/
theorem deleted_permission_stays_cached :
    let cfg : Config := { crypt := fun _ hash => some hash }
    let s := run (Server.step cfg) (Server.start 0 : Server .binary) [⟨.login "admin" "pw" "t", {}⟩,
      ⟨.check ⟨"qq_bot", "100001", "member:kick", ""⟩, {}⟩]
    let check : Call := ⟨.check ⟨"qq_bot", "100001", "member:kick", ""⟩, {}⟩
    ∀ req : AdminService.EditRequest,
      req = .deletePermission "qq_bot" "member:kick" ∨ req = .deleteApp "qq_bot" →
      let t := s.step cfg ⟨.edit req (some "Bearer t"), {}⟩
      t.reply cfg check = .check { allowed := some true } ∧
        t.cache.peek t.now (cacheKey "qq_bot" "100001") ≠ none ∧
        t.cache.peek t.now (cacheKey "qq_bot" "100001") ≠
          some (t.db.permKeys "qq_bot" "100001") := by
  rw [Server.start_eq_seeded]
  rintro cfg s check req (rfl | rfl)
  · decide +kernel
  · decide +kernel

end SiqiAuth
