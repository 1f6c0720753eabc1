import SiqiAuth.Service.Healing

/-!
# Where an allowed check has its permission from

Between the tables and an answer stand the cache, threads that hold what they have read, edits
that run at the same time, and failures.  None of them makes up a permission: what a check
allows, the tables have given at some moment of the run, to the user or to another pair under
the same key that was checked.

## Main definitions

* `Given` — the tables have given a permission under a key.
* `Handler.Derives` — what a handler holds has been given.
* `allowed_was_granted` — so has what a check allows.
-/

namespace SiqiAuth
open Lib AuthService AdminService

variable {c : Collation}

/-- At some moment of the run `l` the tables gave the permission to a pair with the cache key `k`,
of which a check had started by then. -/
def Given (cfg : Config) (s : Server c) (l : List (Move (Request × Env))) (k permKey : String) :
    Prop :=
  ∃ l₁ q env, l₁ <+: l ∧ .start (.check q, env) ∈ l₁ ∧ cacheKey q.appCode q.userId = k ∧
    permKey ∈ (run (Services.step cfg) ⟨s, []⟩ l₁).shared.db.permKeys q.appCode q.userId

/-- What was given stays so. -/
theorem Given.append {cfg : Config} {s : Server c} {l : List (Move (Request × Env))}
    {k permKey : String} (h : Given cfg s l k permKey) (m : List (Move (Request × Env))) :
    Given cfg s (l ++ m) k permKey := by
  obtain ⟨l₁, q, env, hl₁, h⟩ := h
  exact ⟨l₁, q, env, hl₁.trans (List.prefix_append l m), h⟩

/-- The check has started in the run. -/
def Started (l : List (Move (Request × Env))) (req : CheckRequest) : Prop :=
  ∃ env, .start (.check req, env) ∈ l

namespace Handler

/-- What the handler holds of permissions, `G` says of its key. -/
def Derives (S : CheckRequest → Prop) (G : String → String → Prop) : Handler → Prop
  | get req | read req => S req
  | put req perms | judge req perms _ => ∀ k ∈ perms, G (cacheKey req.appCode req.userId) k
  | answered req r => r.allowed = some true → G (cacheKey req.appCode req.userId) req.permKey
  | _ => True

theorem Derives.mono {S S' : CheckRequest → Prop} {G G' : String → String → Prop} {h : Handler}
    (hh : h.Derives S G) (hS : ∀ req, S req → S' req) (hG : ∀ k p, G k p → G' k p) :
    h.Derives S' G' := by
  cases h with
  | get req | read req => exact hS _ hh
  | put req perms | judge req perms => exact fun p hp => hG _ p (hh p hp)
  | answered req r => exact fun hr => hG _ _ (hh hr)
  | _ => trivial

namespace Stepped
variable {cfg : Config} {s s' : Server c} {h h' : Handler} {S : CheckRequest → Prop}
  {G : String → String → Prop}

/-- A step makes up no permission: what is cached was cached before, or held by the handler; and
what the handler holds it has from the cache or from the tables. -/
theorem derives (hstep : Stepped cfg s h h' s')
    (hcached : ∀ k e, s.cache.find k = some e → ∀ p ∈ e.value, G k p)
    (htables : ∀ req : CheckRequest, S req → ∀ p ∈ s.db.permKeys req.appCode req.userId,
      G (cacheKey req.appCode req.userId) p) (hh : h.Derives S G) :
    (∀ k e, s'.cache.find k = some e → ∀ p ∈ e.value, G k p) ∧ h'.Derives S G := by
  constructor
  · intro k e he
    obtain hbefore | ⟨req, perms, rfl, rfl, rfl⟩ := hstep.find_cache he
    · exact hcached k e hbefore
    · exact hh
  · cases hstep with
    | incomplete => exact fun hr => by cases hr
    | hit _ hpeek =>
        obtain ⟨e, hfind, -, rfl⟩ := LocalCache.peek_eq_some.mp hpeek
        exact hcached _ e hfind
    | miss => exact hh
    | @read req => exact fun p hp => htables req hh p (loaded_subset s _ _ hp)
    | put => exact hh
    | @judge req perms _ r _ hallowed =>
        intro hr
        rw [hallowed, Option.some_inj, decide_eq_true_iff] at hr
        exact hh _ hr
    | invalidate hh' =>
        obtain rfl | ⟨r, rfl⟩ := hh'
        · trivial
        · trivial
    | done => exact hh
    | rejected | accepted | write | report => trivial

end Stepped
end Handler

/-- **What a check allows, the tables have given at some moment of the run**, to the user or to
another pair under the same cache key that was checked: however the handlers are interleaved,
whatever is edited meanwhile, and whatever fails. -/
theorem allowed_was_granted (cfg : Config) {s : Server c} (hcache : s.cache = .empty)
    {l : List (Move (Request × Env))} {req : CheckRequest} {r : CheckResponse} {env : Env}
    (ht : ⟨.answered req r, env⟩ ∈ (run (Services.step cfg) ⟨s, []⟩ l).threads)
    (hr : r.allowed = some true) :
    Given cfg s l (cacheKey req.appCode req.userId) req.permKey := by
  refine (Pool.run_past (p := (⟨s, []⟩ : Services c))
    (J := fun l (s' : Server c) => ∀ k e, s'.cache.find k = some e → ∀ p ∈ e.value, Given cfg s l k p)
    (T := fun l (t : Thread) => t.handler.Derives (Started l) (Given cfg s l))
    (fun l x s' hJ k e he p hp => (hJ k e he p hp).append [x])
    (fun l x t hT => hT.mono ?_ fun k p hp => hp.append [x]) (fun l q => ?_)
    (fun l i t _ hJ hT => ?_) ⟨fun k e he => ?_, by simp⟩ l).2 _ ht hr
  · rintro req ⟨env, hmem⟩
    exact ⟨env, List.mem_append_left _ hmem⟩
  · obtain ⟨q, env⟩ := q
    cases q with
    | check req => exact ⟨env, List.mem_append_right _ (List.mem_singleton_self _)⟩
    | edit => trivial
  · obtain ⟨h, env⟩ := t
    have hstep := Services.next_stepped cfg (run (Services.step cfg) ⟨s, []⟩ l).shared ⟨h, env⟩
    have htables : ∀ req, Started l req →
        ∀ p ∈ (run (Services.step cfg) ⟨s, []⟩ l).shared.db.permKeys req.appCode req.userId,
          Given cfg s l (cacheKey req.appCode req.userId) p := by
      rintro req ⟨env, hmem⟩ p hp
      exact ⟨l, req, env, List.prefix_refl l, hmem, rfl, hp⟩
    obtain ⟨hJ', hT'⟩ := hstep.derives hJ htables hT
    refine ⟨fun k e he p hp => (hJ' k e he p hp).append _, hT'.mono ?_ fun k p hp => hp.append _⟩
    rintro req ⟨env, hmem⟩
    exact ⟨env, List.mem_append_left _ hmem⟩
  · rw [hcache, LocalCache.find_empty] at he
    cases he

/-- A check that reads just before a revocation, and is answered after it. -/
theorem allowed_was_granted_revoke :
    let cfg : Config := { crypt := fun _ _ => none }
    let s := Server.loggedIn
    let req : CheckRequest := ⟨"qq_bot", "100001", "member:kick", ""⟩
    let l : List (Move (Request × Env)) := [.start (.check req, {}), .advance 0, .advance 0,
      .start (.edit (.revokeRoleFromUser "qq_bot" "100001" "admin") (some "Bearer t"), {}),
      .advance 1, .advance 1, .advance 1, .advance 1, .advance 0, .advance 0]
    Given cfg s l (cacheKey "qq_bot" "100001") "member:kick" := by
  intro cfg s req l
  have hs : s.cache = .empty := by simp only [s, Server.loggedIn_eq_seeded]
  have hthread : ⟨.answered req { allowed := some true }, {}⟩ ∈
      (run (Services.step cfg) ⟨s, []⟩ l).threads := by
    simp only [s, Server.loggedIn_eq_seeded]
    decide +kernel
  exact allowed_was_granted cfg hs hthread rfl

end SiqiAuth
