import SiqiAuth.Service.LostInvalidation

/-!
# Lost invalidations heal

A check that puts what it has read long ago leaves an entry for what the tables no longer say,
and no edit will remove it.  But an entry lives for `cache_ttl` at most.  Once no check is about
to put something old, and for as long as the tables keep saying the same of a user, the cache
comes round one `cache_ttl` later: every check that starts from then on answers by the tables,
however the handlers are interleaved.

## Main definitions

* `Services.Says` — the tables say so of a user, and a check that reads them hears it.
* `Server.Settles` — what is cached for the user is that, or about to expire.
* `Handler.Holds` — what a check is about to put is that.
* `lost_invalidations_heal` — what later checks answer.
-/

namespace SiqiAuth
open Lib AuthService AdminService

variable {c : Collation}

/-- If it is about to read under the key of the pair, it is a check of the user, and its read gets
through. -/
def Thread.Hears (a u : String) : Thread → Prop
  | ⟨.read req, env⟩ => cacheKey req.appCode req.userId = cacheKey a u →
      (req.appCode = a ∧ req.userId = u) ∧ readsThrough env.outcomes = true
  | _ => True

instance (a u : String) (t : Thread) : Decidable (t.Hears a u) := by
  obtain ⟨h, env⟩ := t
  induction h using Handler.casesOn <;> dsimp only [Thread.Hears] <;> infer_instance

/-- The permission keys of the user are `K`, and a check that reads them hears so. -/
def Services.Says (a u : String) (K : Finset String) (p : Services c) :
    Move (Request × Env) → Prop
  | .start _ => p.shared.db.permKeys a u = K
  | .advance i => p.shared.db.permKeys a u = K ∧ ∀ t ∈ p.threads[i]?, t.Hears a u

instance (a u : String) (K : Finset String) (p : Services c) : DecidablePred (p.Says a u K)
  | .start _ => inferInstanceAs (Decidable (p.shared.db.permKeys a u = K))
  | .advance i => inferInstanceAs (Decidable (p.shared.db.permKeys a u = K ∧
      ∀ t ∈ p.threads[i]?, t.Hears a u))

/-- What is cached under the key is `K`, or expires by `t` at the latest. -/
def Server.Settles (k : String) (K : Finset String) (t : ℤ) (s : Server c) : Prop :=
  ∀ e, s.cache.find k = some e → e.value = K ∨ e.expireAt ≤ t

namespace Handler

/-- What a check is about to put under the key is `K`. -/
def Holds (k : String) (K : Finset String) : Handler → Prop
  | put req perms => cacheKey req.appCode req.userId = k → perms = K
  | _ => True

instance (k : String) (K : Finset String) (h : Handler) : Decidable (h.Holds k K) := by
  induction h using Handler.casesOn <;> dsimp only [Holds] <;> infer_instance

namespace Stepped
variable {cfg : Config} {s s' : Server c} {h h' : Handler} {a u k : String} {K : Finset String}
  {t : ℤ}

/-- An entry after a step was there before, or the step has put it there. -/
theorem find_cache (hstep : Stepped cfg s h h' s') {e : Entry (Finset String)}
    (he : s'.cache.find k = some e) : s.cache.find k = some e ∨ ∃ req perms, h = .put req perms ∧
      cacheKey req.appCode req.userId = k ∧ e = ⟨perms, s'.now + seconds cfg.cacheTtl⟩ := by
  have hget : ∀ key, s'.cache = (s.cache.get s.nextNow key).2 → s.cache.find k = some e := by
    intro key hcache
    rw [hcache, LocalCache.find_snd_get] at he
    split at he
    · cases he
    · exact he
  cases hstep with
  | incomplete | done => exact Or.inl he
  | hit _ _ _ hcache | miss _ _ _ hcache => exact Or.inl (hget _ hcache)
  | read hkept | judge _ hkept => exact Or.inl (hkept.cache_eq ▸ he)
  | rejected | accepted =>
      rw [Server.cache_gated] at he
      exact Or.inl he
  | invalidate => exact Or.inl (Invalidation.find_apply he)
  | write _ hcache | report _ _ hcache => exact Or.inl (hcache ▸ he)
  | @put req perms _ _ hcache hnow =>
      rw [hcache, LocalCache.find_put] at he
      split at he
      case isTrue hkey =>
        cases he
        exact Or.inr ⟨req, perms, rfl, hkey.symm, by rw [hnow]⟩
      case isFalse => exact Or.inl he

theorem now_le (hstep : Stepped cfg s h h' s') : s.now ≤ s'.now := by
  cases hstep with
  | incomplete | done | invalidate => exact le_refl _
  | hit _ _ _ _ hnow | miss _ _ _ _ hnow | put _ _ hnow => exact s.now_le_nextNow.trans_eq hnow.symm
  | read hkept | judge _ hkept => exact hkept.now_eq.ge
  | rejected | accepted => exact s.now_le_now_gated _
  | write _ _ hnow | report _ _ _ hnow => exact hnow.ge

/-- No entry lives for longer than `cache_ttl`. -/
theorem expireAt_le (hstep : Stepped cfg s h h' s')
    (hs : ∀ k e, s.cache.find k = some e → e.expireAt ≤ s.now + seconds cfg.cacheTtl) :
    ∀ k e, s'.cache.find k = some e → e.expireAt ≤ s'.now + seconds cfg.cacheTtl := by
  intro k e he
  have hnow := hstep.now_le
  obtain hbefore | ⟨req, perms, -, -, rfl⟩ := hstep.find_cache he
  · have hle := hs k e hbefore
    omega
  · exact le_refl _

theorem settles (hstep : Stepped cfg s h h' s') (hs : s.Settles k K t) (hh : h.Holds k K) :
    s'.Settles k K t := by
  intro e he
  obtain hbefore | ⟨req, perms, rfl, hkey, rfl⟩ := hstep.find_cache he
  · exact hs e hbefore
  · exact Or.inl (hh hkey)

theorem holds (hstep : Stepped cfg s h h' s')
    (hread : ∀ req, h = .read req → cacheKey req.appCode req.userId = k →
      loaded s req.appCode req.userId = K) : h'.Holds k K := by
  cases hstep with
  | read => exact hread _ rfl
  | invalidate hh' =>
      obtain rfl | ⟨r, rfl⟩ := hh'
      · trivial
      · trivial
  | done hdone =>
      obtain ⟨req, r, rfl⟩ | ⟨req, r, rfl⟩ := hdone
      · trivial
      · trivial
  | _ => trivial

/-- When what would expire has expired, the cache agrees with the tables. -/
theorem coherentAt_of_settles (hs : s.Settles (cacheKey a u) (s.db.permKeys a u) t) (ht : t < s.now) :
    s.CoherentAt a u := by
  intro perms hperms
  obtain ⟨e, hfind, hlive, rfl⟩ := LocalCache.peek_eq_some.mp hperms
  obtain hvalue | hold := hs e hfind
  · exact hvalue
  · omega

/-- Only the reads for the user have to get through. -/
theorem answersFrom_of_reads {Q : Finset String → Prop} (hstep : Stepped cfg s h h' s')
    (hs : s.CoherentAt a u) (hQ : Q (s.db.permKeys a u))
    (hread : ∀ req, h = .read req → req.appCode = a → req.userId = u →
      readsThrough s.env.outcomes = true)
    (hh : h.AnswersFrom a u Q) : h'.AnswersFrom a u Q := by
  by_cases hother : ∃ req, h = .read req ∧ ¬ (req.appCode = a ∧ req.userId = u)
  · obtain ⟨req, rfl, hother⟩ := hother
    cases hstep with
    | read => exact fun happ huser => absurd ⟨happ, huser⟩ hother
    | done => exact fun happ huser => absurd ⟨happ, huser⟩ hother
  · refine hstep.answersFrom hs hQ ?_ hh
    rintro req rfl
    have hpair : req.appCode = a ∧ req.userId = u := by
      by_contra hne
      exact hother ⟨req, rfl, hne⟩
    exact hread req rfl hpair.1 hpair.2

end Stepped
end Handler

namespace Services
variable {cfg : Config} {p : Services c} {a u : String} {K : Finset String} {t : ℤ}

/-- A step of a thread is a step of its handler. -/
theorem next_stepped (cfg : Config) (s : Server c) (t : Thread) :
    Handler.Stepped cfg (s.facing t.env) t.handler (t.next cfg s).1.handler (t.next cfg s).2 :=
  Handler.next_spec (Prod.mk.eta (p := (t.handler.next cfg).run (s.facing t.env))).symm

/-- However the handlers are interleaved, no entry lives for longer than `cache_ttl`. -/
theorem expireAt_le_run {s : Server c} (hcache : s.cache = .empty)
    (l : List (Move (Request × Env))) {k : String} {e : Entry (Finset String)}
    (he : (run (Services.step cfg) ⟨s, []⟩ l).shared.cache.find k = some e) :
    e.expireAt ≤ (run (Services.step cfg) ⟨s, []⟩ l).shared.now + seconds cfg.cacheTtl := by
  refine Pool.run_shared (C := fun _ _ => True) (I := fun s : Server c => ∀ k e,
    s.cache.find k = some e → e.expireAt ≤ s.now + seconds cfg.cacheTtl)
    (fun p i t hI _ _ => (next_stepped cfg p.shared t).expireAt_le hI) (fun k e he => ?_)
    (meets_of_forall _ (fun _ _ => trivial) _ l) k e he
  rw [hcache, LocalCache.find_empty] at he
  cases he

/-- A step, while the tables say so of the user. -/
theorem next_settles {i : ℕ} {th : Thread} (hi : p.threads[i]? = some th)
    (htells : p.Says a u K (.advance i)) (hs : p.shared.Settles (cacheKey a u) K t)
    (hth : th.handler.Holds (cacheKey a u) K) :
    (th.next cfg p.shared).2.Settles (cacheKey a u) K t ∧
      (th.next cfg p.shared).1.handler.Holds (cacheKey a u) K := by
  obtain ⟨h, env⟩ := th
  refine ⟨(next_stepped cfg p.shared ⟨h, env⟩).settles hs hth,
    (next_stepped cfg p.shared ⟨h, env⟩).holds ?_⟩
  rintro req rfl hkey
  obtain ⟨hK, hhears⟩ := htells
  obtain ⟨⟨rfl, rfl⟩, hthrough⟩ := hhears _ (Option.mem_def.mpr hi) hkey
  exact (loaded_eq (s := p.shared.facing env) hthrough _ _).trans hK

/-- And when what would expire has expired, checks of the user are answered by the tables. -/
theorem next_answersFrom {i : ℕ} {th : Thread} (hi : p.threads[i]? = some th)
    (htells : p.Says a u K (.advance i)) (hs : p.shared.Settles (cacheKey a u) K t)
    (ht : t < p.shared.now) (hth : th.handler.AnswersFrom a u fun K' => K' = K) :
    (th.next cfg p.shared).1.handler.AnswersFrom a u fun K' => K' = K := by
  obtain ⟨h, env⟩ := th
  obtain ⟨rfl, hhears⟩ := htells
  refine (next_stepped cfg p.shared ⟨h, env⟩).answersFrom_of_reads
    (Q := fun K' => K' = p.shared.db.permKeys a u)
    (Handler.Stepped.coherentAt_of_settles (s := p.shared.facing env) hs ht) rfl ?_ hth
  rintro req rfl rfl rfl
  exact (hhears _ (Option.mem_def.mpr hi) rfl).2

end Services

/-- **Lost invalidations heal.**  Let no check be about to put anything under the key of a user
but what the tables say, and let them say the same from then on.  Then, however the handlers are
interleaved, every check of the user that starts more than `cache_ttl` later answers by the
tables. -/
theorem lost_invalidations_heal (cfg : Config) {s : Server c} (hcache : s.cache = .empty)
    {a u : String} {K : Finset String} {l₀ l₁ l₂ : List (Move (Request × Env))} :
    let p := run (Services.step cfg) ⟨s, []⟩ l₀
    let q := run (Services.step cfg) p l₁
    (∀ t ∈ p.threads, t.handler.Holds (cacheKey a u) K) →
    Meets (Services.step cfg) (Services.Says a u K) p (l₁ ++ l₂) →
    p.shared.now + seconds cfg.cacheTtl < q.shared.now →
    ∀ j req r env, q.threads.length ≤ j →
      (run (Services.step cfg) q l₂).threads[j]? = some ⟨.answered req r, env⟩ →
      req.appCode = a → req.userId = u →
        r.allowed = some (decide (req.Complete ∧ req.permKey ∈ K)) := by
  intro p q hholds hl htime j req r env hj ht happ huser
  obtain ⟨hl₁, hl₂⟩ := (meets_append _ _ _ _ _).mp hl
  let k := cacheKey a u
  let t₀ := p.shared.now + seconds cfg.cacheTtl
  have hstart : ∀ x : Request × Env, (Thread.init x).handler.Holds k K ∧
      (Thread.init x).handler.AnswersFrom a u fun K' => K' = K := by
    rintro ⟨x, env⟩
    cases x <;> exact ⟨trivial, trivial⟩
  -- What is cached when the waiting begins expires while it lasts.
  obtain ⟨hsettles, hheld⟩ := Pool.run_threads (C := Services.Says a u K)
    (I := fun s : Server c => s.Settles k K t₀) (T := fun t : Thread => t.handler.Holds k K)
    (fun x => (hstart x).1)
    (fun p i t hI hi htells hT => Services.next_settles hi htells hI hT)
    (fun e he => Or.inr (Services.expireAt_le_run hcache l₀ he)) hholds hl₁
  have hlater := Pool.run_later_of (C := Services.Says a u K)
    (I := fun s : Server c => s.Settles k K t₀ ∧ t₀ < s.now)
    (T := fun t : Thread => t.handler.Holds k K)
    (U := fun t : Thread => t.handler.AnswersFrom a u fun K' => K' = K) hstart
    (fun p i t hI hi htells hT => ?_) ⟨hsettles, htime⟩ hheld hl₂ hj ht
  · obtain ⟨K', rfl, hallowed⟩ := hlater happ huser
    exact hallowed
  · obtain ⟨hs, htime⟩ := hI
    obtain ⟨hs', hT'⟩ := Services.next_settles hi htells hs hT
    exact ⟨⟨hs', htime.trans_le (Services.next_stepped cfg p.shared t).now_le⟩, hT',
      Services.next_answersFrom hi htells hs htime⟩

/-- The check whose read was overtaken by a revocation has put what it read; two minutes later the
user is denied. -/
theorem lost_invalidations_heal_revoke :
    let cfg : Config := { crypt := fun _ _ => none }
    let s := Server.loggedIn
    let req : CheckRequest := ⟨"qq_bot", "100001", "member:kick", ""⟩
    let l₀ : List (Move (Request × Env)) := [.start (.check req, {}), .advance 0, .advance 0,
      .start (.edit (.revokeRoleFromUser "qq_bot" "100001" "admin") (some "Bearer t"), {}),
      .advance 1, .advance 1, .advance 1, .advance 1, .advance 0]
    let l₁ : List (Move (Request × Env)) :=
      [.start (.check ⟨"qq_bot", "42", "member:kick", ""⟩, { ticks := [120000000000] }), .advance 2]
    let l₂ : List (Move (Request × Env)) :=
      [.start (.check req, {}), .advance 3, .advance 3, .advance 3, .advance 3]
    ∃ r env, (run (Services.step cfg) (run (Services.step cfg) (run (Services.step cfg) ⟨s, []⟩ l₀)
        l₁) l₂).threads[3]? = some ⟨.answered req r, env⟩ ∧
      r.allowed = some (decide (req.Complete ∧ req.permKey ∈ (∅ : Finset String))) := by
  intro cfg s req l₀ l₁ l₂
  have hs : s.cache = .empty := by simp only [s, Server.loggedIn_eq_seeded]
  have htells : Meets (Services.step cfg) (Services.Says "qq_bot" "100001" ∅)
      (run (Services.step cfg) ⟨s, []⟩ l₀) (l₁ ++ l₂) := by
    simp only [s, Server.loggedIn_eq_seeded]
    decide +kernel
  have hholds : ∀ t ∈ (run (Services.step cfg) ⟨s, []⟩ l₀).threads,
      t.handler.Holds (cacheKey "qq_bot" "100001") ∅ := by
    simp only [s, Server.loggedIn_eq_seeded]
    decide +kernel
  have htime : (run (Services.step cfg) ⟨s, []⟩ l₀).shared.now + seconds cfg.cacheTtl <
      (run (Services.step cfg) (run (Services.step cfg) ⟨s, []⟩ l₀) l₁).shared.now := by
    simp only [s, Server.loggedIn_eq_seeded]
    decide +kernel
  have hthread : (run (Services.step cfg) (run (Services.step cfg) (run (Services.step cfg) ⟨s, []⟩
      l₀) l₁) l₂).threads[3]? =
      some ⟨.answered req { allowed := some false, reason := "用户不存在或未分配任何角色"
                            currentRoles := "无", suggestRoles := "admin,owner" }, {}⟩ := by
    simp only [s, Server.loggedIn_eq_seeded]
    decide +kernel
  refine ⟨_, _, hthread, ?_⟩
  exact lost_invalidations_heal cfg hs hholds htells htime 3 req _ _
    (by simp only [s, Server.loggedIn_eq_seeded]; decide +kernel) hthread rfl rfl

end SiqiAuth
