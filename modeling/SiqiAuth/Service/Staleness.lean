import SiqiAuth.Service.CacheKey

/-!
# How stale an answer from the cache can be

Whatever the edits forget to invalidate, an entry outlives its load by `cache_ttl` at most,
and no invalidation of its key by a request with a session.  So an answer from the cache
is by what the last check that missed under the same key has loaded, at most `cache_ttl`
ago; what has been taken away since is offered for no longer.

## Main definitions

* `EditRequest.Invalidates` — a request removes what stands under a key.
* `Server.Leaves` — a call neither loads anything under a key nor invalidates it.
* `LastLoad` — the last call of a run that loaded something under a key.
* `staleness_bounded` — by what the cache answers, and for how long.
-/

namespace SiqiAuth
open Lib AuthService AdminService

variable {c : Collation}

/-- A request that gets past the session check removes what stands under `k`, whatever
else becomes of it. -/
def AdminService.EditRequest.Invalidates (k : String) : EditRequest → Prop
  | grantRoleToUser a u _ | revokeRoleFromUser a u _ => a ++ ":" ++ u = k
  | addPermissionToRole a _ _ | removePermissionFromRole a _ _ => (a ++ ":").toList <+: k.toList
  | _ => False

instance (k : String) (req : EditRequest) : Decidable (req.Invalidates k) := by
  induction req using EditRequest.casesOn <;> dsimp only [EditRequest.Invalidates] <;>
    infer_instance

theorem AdminService.EditRequest.find_invalidation {α : Type} {m : LocalCache α} {k : String}
    {req : EditRequest} (h : req.Invalidates k) : (req.edit.invalidation.apply m).find k = none := by
  cases req with
  | grantRoleToUser a u r | revokeRoleFromUser a u r =>
      exact LocalCache.find_invalidate.trans (if_pos h.symm)
  | addPermissionToRole a r p | removePermissionFromRole a r p =>
      have hdrop : (!decide ((a ++ ":").toList <+: k.toList)) = false := by
        simp only [Bool.not_eq_false', decide_eq_true_eq]
        exact h
      refine (LocalCache.find_retain _).trans ?_
      rw [hdrop]
      rfl
  | _ => simp [Invalidates] at h

namespace Server
variable {cfg : Config} {s : Server c}

/-- The call neither loads anything under `k` nor is it a request with a session that
invalidates `k`. -/
def Leaves (k : String) (s : Server c) (x : Call) : Prop :=
  match x.rpc with
  | .check req => s.Misses x req → cacheKey req.appCode req.userId ≠ k
  | .edit req header => (s.facing x.env).session header ≠ none → ¬ req.Invalidates k
  | _ => True

instance (k : String) (s : Server c) (x : Call) : Decidable (s.Leaves k x) := by
  obtain ⟨rpc, env⟩ := x
  induction rpc using Rpc.casesOn <;> dsimp only [Leaves] <;> infer_instance

/-- A request with a session that invalidates `k` leaves nothing under it. -/
theorem find_of_invalidates {req : EditRequest} {header : Option String} {env : Env} {k : String}
    (hsession : (s.facing env).session header ≠ none) (hinv : req.Invalidates k) :
    (s.step cfg ⟨.edit req header, env⟩).cache.find k = none := by
  have hserved := s.served cfg ⟨.edit req header, env⟩
  generalize s.reply cfg ⟨.edit req header, env⟩ = r at hserved
  generalize s.step cfg ⟨.edit req header, env⟩ = s' at hserved ⊢
  cases hserved with
  | edit h =>
      cases h with
      | rejected hnone => exact absurd hnone hsession
      | incomplete _ _ _ hcache | failed _ _ _ _ hcache | done _ _ _ _ hcache =>
          rw [hcache]
          exact EditRequest.find_invalidation hinv

/-- **One call.**  An entry after a call was there before, and the call left its key alone;
or the call is a check that has loaded it. -/
theorem find_cache_step {x : Call} {k : String} {e : Entry (Finset String)}
    (he : (s.step cfg x).cache.find k = some e) : (s.cache.find k = some e ∧ s.Leaves k x) ∨
      ∃ req, s.Misses x req ∧ k = cacheKey req.appCode req.userId ∧
        e = ⟨loaded (s.facing x.env) req.appCode req.userId,
          (s.step cfg x).now + seconds cfg.cacheTtl⟩ := by
  refine ((s.served cfg x).find_cache he).imp_left fun hkept => ⟨hkept.1, ?_⟩
  obtain ⟨rpc, env⟩ := x
  cases rpc with
  | check req => exact fun hmiss => (hkept.2 req hmiss).symm
  | edit req header =>
      intro hsession hinv
      rw [find_of_invalidates hsession hinv] at he
      cases he
  | _ => trivial

end Server

/-- In the run `l` the last load under `k` was by the check `req`, which missed in the state
after `l₁`; all calls since then are `l₂`, and leave the key alone. -/
structure LastLoad (cfg : Config) (s : Server c) (l : List Call) (k : String) (l₁ : List Call)
    (x : Call) (req : CheckRequest) (l₂ : List Call) : Prop where
  run_eq : l = l₁ ++ x :: l₂
  misses : (run (Server.step cfg) s l₁).Misses x req
  key_eq : k = cacheKey req.appCode req.userId
  leaves : Meets (Server.step cfg) (Server.Leaves k) (run (Server.step cfg) s (l₁ ++ [x])) l₂

/-- Every entry of the cache comes from the last load under its key. -/
theorem exists_lastLoad {cfg : Config} {s : Server c} (hs : s.cache = .empty) (l : List Call)
    {k : String} {e : Entry (Finset String)}
    (he : (run (Server.step cfg) s l).cache.find k = some e) :
    ∃ l₁ x req l₂, LastLoad cfg s l k l₁ x req l₂ ∧
      e = ⟨loaded ((run (Server.step cfg) s l₁).facing x.env) req.appCode req.userId,
        (run (Server.step cfg) s (l₁ ++ [x])).now + seconds cfg.cacheTtl⟩ := by
  induction l using List.reverseRecOn generalizing e with
  | nil =>
      rw [run_nil, hs, LocalCache.find_empty] at he
      cases he
  | append_singleton l y ih =>
      rw [run_append] at he
      rcases Server.find_cache_step he with ⟨hfind, hleaves⟩ | ⟨req, hmiss, hkey, hentry⟩
      · obtain ⟨l₁, x, req, l₂, hlast, hentry⟩ := ih hfind
        refine ⟨l₁, x, req, l₂ ++ [y], ⟨by simp [hlast.run_eq], hlast.misses, hlast.key_eq, ?_⟩,
          hentry⟩
        rw [meets_append]
        refine ⟨hlast.leaves, ?_, trivial⟩
        have hrun : run (Server.step cfg) s l =
            run (Server.step cfg) (run (Server.step cfg) s (l₁ ++ [x])) l₂ := by
          simp [hlast.run_eq]
        rw [← hrun]
        exact hleaves
      · refine ⟨l, y, req, [], ⟨rfl, hmiss, hkey, trivial⟩, ?_⟩
        rw [run_append]
        exact hentry

/-- **A check that the cache answers is answered by what the last check that missed under
the same key has loaded**, at most `cache_ttl` ago; since then nothing was loaded under
the key, and no request with a session has invalidated it.  If the read of that load got
through, it is what the tables said. -/
theorem staleness_bounded (cfg : Config) {s : Server c} (hs : s.cache = .empty) (l : List Call)
    {x : Call} {req : CheckRequest} (hhit : (run (Server.step cfg) s l).Hits x req) :
    let t := run (Server.step cfg) s l
    ∃ l₁ y q l₂, LastLoad cfg s l (cacheKey req.appCode req.userId) l₁ y q l₂ ∧
      (t.facing x.env).nextNow - (run (Server.step cfg) s (l₁ ++ [y])).now ≤
        seconds cfg.cacheTtl ∧
      (∃ r : CheckResponse, t.reply cfg x = .check r ∧ r.allowed = some (decide (req.permKey ∈
        loaded ((run (Server.step cfg) s l₁).facing y.env) q.appCode q.userId))) ∧
      (readsThrough y.env.outcomes = true →
        loaded ((run (Server.step cfg) s l₁).facing y.env) q.appCode q.userId =
          (run (Server.step cfg) s l₁).db.permKeys q.appCode q.userId) := by
  intro t
  obtain ⟨hrpc, hreq, hsome⟩ := hhit
  obtain ⟨perms, hpeek⟩ := Option.isSome_iff_exists.mp hsome
  obtain ⟨e, hfind, hlive, hvalue⟩ := LocalCache.peek_eq_some.mp hpeek
  obtain ⟨l₁, y, q, l₂, hlast, rfl⟩ := exists_lastLoad hs l hfind
  refine ⟨l₁, y, q, l₂, hlast, ?_, ?_, fun hreads => loaded_eq hreads _ _⟩
  · have hle : (t.facing x.env).nextNow ≤
        (run (Server.step cfg) s (l₁ ++ [y])).now + seconds cfg.cacheTtl := hlive
    omega
  · simp only at hvalue
    rw [hvalue]
    obtain ⟨rpc, env⟩ := x
    obtain rfl : rpc = .check req := hrpc
    have hserved := t.served cfg ⟨.check req, env⟩
    generalize t.reply cfg ⟨.check req, env⟩ = r at hserved ⊢
    generalize t.step cfg ⟨.check req, env⟩ = s' at hserved
    cases hserved with
    | check h =>
        cases h with
        | incomplete hnot => exact absurd hreq hnot
        | hit _ hpeek' hallowed =>
            rw [Server.cache_facing, hpeek] at hpeek'
            cases hpeek'
            exact ⟨_, rfl, hallowed⟩
        | miss _ hnone =>
            rw [Server.cache_facing, hpeek] at hnone
            cases hnone

/-- A permission is deleted right after it was loaded; fifty seconds later it is still
offered. -/
theorem staleness_bounded_deleted_permission :
    let cfg : Config := { crypt := fun _ hash => some hash }
    let s : Server .binary := .start 0
    let req : CheckRequest := ⟨"qq_bot", "100001", "member:kick", ""⟩
    let l : List Call := [⟨.login "admin" "pw" "t", {}⟩, ⟨.check req, {}⟩,
      ⟨.edit (.deletePermission "qq_bot" "member:kick") (some "Bearer t"), {}⟩]
    let x : Call := ⟨.check req, { ticks := [50000000000] }⟩
    ∃ l₁ y q l₂, LastLoad cfg s l (cacheKey "qq_bot" "100001") l₁ y q l₂ ∧
      ((run (Server.step cfg) s l).facing x.env).nextNow -
        (run (Server.step cfg) s (l₁ ++ [y])).now ≤ seconds 60 := by
  intro cfg s req l x
  have hhit : (run (Server.step cfg) s l).Hits x req := ⟨rfl, by decide, by
    simp only [s, Server.start_eq_seeded]
    decide +kernel⟩
  obtain ⟨l₁, y, q, l₂, hlast, hle, -⟩ := staleness_bounded cfg (s := s) rfl l hhit
  exact ⟨l₁, y, q, l₂, hlast, hle⟩

end SiqiAuth
