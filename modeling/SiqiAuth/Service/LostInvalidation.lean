import SiqiAuth.Service.Coherence
import SiqiAuth.Service.Interleaving

/-!
# Lost invalidations

An edit invalidates the cache before it writes to the tables, and a check puts into the
cache what it read some steps ago.  So an entry can be loaded between an invalidation and
its write, or be put after both although it was read before them; it then stands for
what the tables no longer say.  As long as neither happens, a check answers by what
the tables say at some moment between its start and its answer.

## Main definitions

* `Services.Spares` — neither happens, for a user of an app.
* `Handler.AnswersFrom` — what a check of the user has learned, and what it answers by.
* `later_checks_agree` — a permission that the tables withhold, or grant, from some
  moment on is withheld, or granted, by every check that starts after it.
-/

namespace SiqiAuth
open Lib AuthService AdminService

variable {c : Collation}

/-- A write does not touch the user behind a live entry; what a check puts under the key
of the pair is what the tables say by then; and the read of a check gets through. -/
def Services.Spares (a u : String) (p : Services c) : Move (Request × Env) → Prop
  | .start _ => True
  | .advance i =>
      match p.threads[i]? with
      | some ⟨.write req _, _⟩ => p.shared.cache.peek p.shared.now (cacheKey a u) ≠ none →
          ¬ req.edit.op.Touches p.shared.db a u
      | some ⟨.put req perms, _⟩ => cacheKey req.appCode req.userId = cacheKey a u →
          perms = p.shared.db.permKeys a u
      | some ⟨.read _, env⟩ => readsThrough env.outcomes = true
      | _ => True

instance (a u : String) (p : Services c) (x : Move (Request × Env)) :
    Decidable (p.Spares a u x) := by
  unfold Services.Spares
  repeat' split
  all_goals infer_instance

namespace Handler

/-- A check of the user decides, or has decided, by permission keys of which `Q` holds. -/
def AnswersFrom (a u : String) (Q : Finset String → Prop) : Handler → Prop
  | read req => req.appCode = a → req.userId = u → req.Complete
  | put req perms | judge req perms _ => req.appCode = a → req.userId = u → req.Complete ∧ Q perms
  | answered req r => req.appCode = a → req.userId = u →
      ∃ perms, Q perms ∧ r.allowed = some (decide (req.Complete ∧ req.permKey ∈ perms))
  | _ => True

namespace Stepped
variable {cfg : Config} {s s' : Server c} {h h' : Handler} {a u : String}

/-- The tables agree with a record of owners after a step if they did before. -/
theorem exists_owners (hstep : Stepped cfg s h h' s') (hs : ∃ o : Owners, o.Consistent s.db) :
    ∃ o : Owners, o.Consistent s'.db := by
  obtain ⟨o, ho⟩ := hs
  cases hstep with
  | incomplete | done | invalidate => exact ⟨o, ho⟩
  | rejected | accepted =>
      rw [Server.db_gated]
      exact ⟨o, ho⟩
  | hit _ _ hdb | miss _ _ hdb | put hdb =>
      rw [hdb]
      exact ⟨o, ho⟩
  | read hkept | judge _ hkept =>
      rw [hkept.db_eq]
      exact ⟨o, ho⟩
  | write heffect =>
      obtain ⟨o', ho', -⟩ := heffect.consistent ho
      exact ⟨o', ho'⟩
  | report _ hdb =>
      obtain ⟨t, hdb⟩ := hdb
      rw [hdb]
      exact ⟨o, { ho with }⟩

/-- The cache stays coherent for a user, unless a write touches the user behind a live
entry or something else is put there. -/
theorem coherentAt (hstep : Stepped cfg s h h' s') (hs : s.CoherentAt a u) {o : Owners}
    (ho : o.Consistent s.db)
    (hwrite : ∀ req session, h = .write req session →
      s.cache.peek s.now (cacheKey a u) ≠ none → ¬ req.edit.op.Touches s.db a u)
    (hput : ∀ req perms, h = .put req perms → cacheKey req.appCode req.userId = cacheKey a u →
      perms = s.db.permKeys a u) : s'.CoherentAt a u := by
  have hget : ∀ req : CheckRequest, s'.db = s.db →
      s'.cache = (s.cache.get s.nextNow (cacheKey req.appCode req.userId)).2 →
      s'.now = s.nextNow → s'.CoherentAt a u := by
    intro req hdb hcache hnow
    refine hs.mono (fun key e he => ?_) (by rw [hdb]) (by rw [hnow]; exact s.now_le_nextNow)
    rw [hcache, LocalCache.find_snd_get] at he
    split at he
    · cases he
    · exact he
  have hkept : s.Kept s' → s'.CoherentAt a u := fun hkept =>
    hs.mono (fun _ _ he => hkept.cache_eq ▸ he) (by rw [hkept.db_eq]) hkept.now_eq.ge
  cases hstep with
  | incomplete | done => exact hs
  | hit _ _ hdb hcache hnow | miss _ _ hdb hcache hnow => exact hget _ hdb hcache hnow
  | read h | judge _ h => exact hkept h
  | rejected | accepted =>
      refine hs.mono (fun _ _ he => ?_) (by rw [Server.db_gated]) (s.now_le_now_gated _)
      rw [Server.cache_gated] at he
      exact he
  | invalidate => exact hs.mono (fun _ _ he => Invalidation.find_apply he) rfl (le_refl _)
  | @put req perms _ hdb hcache hnow =>
      intro perms' hperms'
      rw [hcache, LocalCache.peek_put] at hperms'
      rw [hdb]
      by_cases hkey : cacheKey a u = cacheKey req.appCode req.userId
      · rw [if_pos hkey] at hperms'
        split at hperms'
        · cases hperms'
          exact hput req perms rfl hkey.symm
        · cases hperms'
      · rw [if_neg hkey, hnow] at hperms'
        exact hs perms' (LocalCache.peek_mono hperms' s.now_le_nextNow)
  | @write req session ok appSecret _ heffect hcache hnow =>
      intro perms hperms
      rw [hcache, hnow] at hperms
      have hspared := hwrite req session rfl (by rw [hperms]; exact Option.some_ne_none _)
      rw [heffect.permKeys_eq ho hspared]
      exact hs perms hperms
  | report _ hdb hcache hnow =>
      obtain ⟨t, hdb⟩ := hdb
      refine hs.mono (fun _ _ he => hcache ▸ he) ?_ hnow.ge
      rw [hdb]
      rfl

/-- A check of the user learns its permission keys from the tables, or from an entry that
agrees with them. -/
theorem answersFrom {Q : Finset String → Prop} (hstep : Stepped cfg s h h' s')
    (hs : s.CoherentAt a u) (hQ : Q (s.db.permKeys a u))
    (hread : ∀ req, h = .read req → readsThrough s.env.outcomes = true)
    (hh : h.AnswersFrom a u Q) : h'.AnswersFrom a u Q := by
  cases hstep with
  | incomplete hreq => exact fun _ _ => ⟨_, hQ, by simp [hreq]⟩
  | hit hreq hpeek =>
      intro happ huser
      subst happ huser
      rw [hs _ (LocalCache.peek_mono hpeek s.now_le_nextNow)]
      exact ⟨hreq, hQ⟩
  | miss hreq => exact fun _ _ => hreq
  | read =>
      intro happ huser
      have hreq := hh happ huser
      subst happ huser
      rw [loaded_eq (hread _ rfl)]
      exact ⟨hreq, hQ⟩
  | put => exact hh
  | judge hallowed =>
      intro happ huser
      obtain ⟨hreq, hperms⟩ := hh happ huser
      exact ⟨_, hperms, by simp [hallowed, hreq]⟩
  | invalidate hh' =>
      obtain rfl | ⟨r, rfl⟩ := hh'
      · trivial
      · trivial
  | done => exact hh
  | rejected | accepted | write | report => trivial

end Stepped
end Handler

/-- **After every run that spares the user, a check that starts from then on** denies what
the tables withhold from the user as long as it runs, and allows what they grant. -/
theorem later_checks_agree (cfg : Config) {installed : ℤ} {s : Server c}
    (hdb : s.db = Db.initial installed) (hcache : s.cache = .empty) {a u : String}
    {l₁ l₂ : List (Move (Request × Env))}
    (hl : Meets (Services.step cfg) (Services.Spares a u) ⟨s, []⟩ (l₁ ++ l₂)) :
    let p := run (Services.step cfg) ⟨s, []⟩ l₁
    ∀ j req r env, p.threads.length ≤ j →
      (run (Services.step cfg) p l₂).threads[j]? = some ⟨.answered req r, env⟩ →
      req.appCode = a → req.userId = u →
        (Meets (Services.step cfg) (fun q _ => req.permKey ∉ q.shared.db.permKeys a u) p l₂ →
          r.allowed = some false) ∧
        (req.Complete →
          Meets (Services.step cfg) (fun q _ => req.permKey ∈ q.shared.db.permKeys a u) p l₂ →
            r.allowed = some true) := by
  intro p j req r env hj ht happ huser
  obtain ⟨hl₁, hl₂⟩ := (meets_append _ _ _ _ _).mp hl
  let I : Server c → Prop := fun s => (∃ o : Owners, o.Consistent s.db) ∧ s.CoherentAt a u
  have hnext : ∀ q : Services c, ∀ i t, I q.shared → q.threads[i]? = some t →
      q.Spares a u (.advance i) → I (t.next cfg q.shared).2 ∧ ∀ Q, Q (q.shared.db.permKeys a u) →
        t.handler.AnswersFrom a u Q → (t.next cfg q.shared).1.handler.AnswersFrom a u Q := by
    intro q i t hI hi hspares
    obtain ⟨h, env⟩ := t
    obtain ⟨⟨o, ho⟩, hcoherent⟩ := hI
    simp only [Services.Spares, hi] at hspares
    have hstep := Handler.next_spec
      (Prod.mk.eta (p := (h.next cfg).run (q.shared.facing env))).symm
    refine ⟨⟨hstep.exists_owners ⟨o, ho⟩, hstep.coherentAt hcoherent ho ?_ ?_⟩, fun Q hQ hh =>
      hstep.answersFrom hcoherent hQ ?_ hh⟩
    · rintro req session rfl
      exact hspares
    · rintro req perms rfl
      exact hspares
    · rintro req rfl
      exact hspares
  have hp : I p.shared := by
    refine Pool.run_shared (C := Services.Spares a u) (fun q i t hI hi hC => (hnext q i t hI hi hC).1)
      ⟨Server.exists_owners cfg hdb [], Server.coherentAt_of_empty hcache⟩ hl₁
  have hanswer : ∀ Q : Finset String → Prop,
      Meets (Services.step cfg) (fun q _ => Q (q.shared.db.permKeys a u)) p l₂ →
        ∃ perms, Q perms ∧ r.allowed = some (decide (req.Complete ∧ req.permKey ∈ perms)) := by
    intro Q hQ
    have hlater := Pool.run_later (I := I) (T := fun t : Thread => t.handler.AnswersFrom a u Q)
      (C := fun q x => Services.Spares a u q x ∧ Q (q.shared.db.permKeys a u)) (fun q => ?_)
      (fun q i t hI hi hC => ⟨(hnext q i t hI hi hC.1).1, (hnext q i t hI hi hC.1).2 Q hC.2⟩)
      hp (hl₂.and hQ) hj ht
    · exact hlater happ huser
    · obtain ⟨q, env⟩ := q
      cases q with
      | check => trivial
      | edit => trivial
  constructor
  · intro hwithheld
    obtain ⟨perms, hperms, hallowed⟩ := hanswer (fun perms => req.permKey ∉ perms) hwithheld
    simp [hallowed, hperms]
  · intro hreq hgranted
    obtain ⟨perms, hperms, hallowed⟩ := hanswer (fun perms => req.permKey ∈ perms) hgranted
    simp [hallowed, hreq, hperms]

/-- The administrator is logged in. -/
def Server.loggedIn : Server .binary :=
  { Server.start 0 with sessions := .put 0 "t" ⟨1, "admin", "系统管理员"⟩ 3600 .empty }

theorem Server.db_loggedIn : Server.loggedIn.db = Db.initial 0 := by
  simp only [loggedIn, db_start]

theorem Server.loggedIn_eq_seeded : Server.loggedIn =
    ⟨Db.seeded, .empty, .put 0 "t" ⟨1, "admin", "系统管理员"⟩ 3600 .empty, fun _ => "", 0, {}⟩ := by
  rw [loggedIn, start_eq_seeded]

/-- After a revocation a check is denied. -/
theorem later_checks_agree_after_revoke :
    let cfg : Config := { crypt := fun _ _ => none }
    let s := Server.loggedIn
    let req : CheckRequest := ⟨"qq_bot", "100001", "member:kick", ""⟩
    let l₁ : List (Move (Request × Env)) :=
      [.start (.edit (.revokeRoleFromUser "qq_bot" "100001" "admin") (some "Bearer t"), {}),
        .advance 0, .advance 0, .advance 0, .advance 0]
    let l₂ : List (Move (Request × Env)) :=
      [.start (.check req, {}), .advance 1, .advance 1, .advance 1, .advance 1]
    ∃ r env, (run (Services.step cfg) (run (Services.step cfg) ⟨s, []⟩ l₁) l₂).threads[1]? =
      some ⟨.answered req r, env⟩ ∧ r.allowed = some false := by
  intro cfg s req l₁ l₂
  have hl : Meets (Services.step cfg) (Services.Spares "qq_bot" "100001") ⟨s, []⟩ (l₁ ++ l₂) := by
    simp only [s, Server.loggedIn_eq_seeded]
    decide +kernel
  have hthread : (run (Services.step cfg) (run (Services.step cfg) ⟨s, []⟩ l₁) l₂).threads[1]? =
      some ⟨.answered req { allowed := some false, reason := "用户不存在或未分配任何角色"
                            currentRoles := "无", suggestRoles := "admin,owner" }, {}⟩ := by
    simp only [s, Server.loggedIn_eq_seeded]
    decide +kernel
  have hlater := later_checks_agree cfg Server.db_loggedIn rfl hl 1 req _ _
    (by simp only [Server.loggedIn_eq_seeded]; decide +kernel) hthread rfl rfl
  refine ⟨_, _, hthread, hlater.1 ?_⟩
  simp only [Server.loggedIn_eq_seeded]
  decide +kernel

/-- A role is revoked, or granted, while a check stands between its read and its put; a
check that starts later is allowed, or denied, by what the first one put. -/
theorem stale_put_outlives_edit :
    let cfg : Config := { crypt := fun _ _ => none }
    let s := Server.loggedIn
    let schedule (edit : EditRequest) (user : String) : List (Move (Request × Env)) :=
      let check : Request := .check ⟨"qq_bot", user, "member:kick", ""⟩
      [.start (check, {}), .advance 0, .advance 0, .start (.edit edit (some "Bearer t"), {}),
        .advance 1, .advance 1, .advance 1, .advance 1, .advance 0, .advance 0,
        .start (check, {}), .advance 2, .advance 2]
    let handler (edit : EditRequest) (user : String) (n i : ℕ) : Option Handler :=
      (run (Services.step cfg) ⟨s, []⟩ ((schedule edit user).take n)).threads[i]?.map
        fun t => t.handler
    let revoke : EditRequest := .revokeRoleFromUser "qq_bot" "100001" "admin"
    let grant : EditRequest := .grantRoleToUser "qq_bot" "42" "admin"
    (Meets (Services.step cfg) (fun q _ => "member:kick" ∉ q.shared.db.permKeys "qq_bot" "100001")
          (run (Services.step cfg) ⟨s, []⟩ ((schedule revoke "100001").take 7))
          ((schedule revoke "100001").drop 7) ∧
        handler revoke "100001" 10 1 =
          some (.returned revoke { success := true, message := "撤销成功" }) ∧
        handler revoke "100001" 13 2 = some (.answered ⟨"qq_bot", "100001", "member:kick", ""⟩
          { allowed := some true })) ∧
      Meets (Services.step cfg) (fun q _ => "member:kick" ∈ q.shared.db.permKeys "qq_bot" "42")
          (run (Services.step cfg) ⟨s, []⟩ ((schedule grant "42").take 7))
          ((schedule grant "42").drop 7) ∧
        handler grant "42" 10 1 =
          some (.returned grant { success := true, message := "授权成功" }) ∧
        handler grant "42" 13 2 = some (.answered ⟨"qq_bot", "42", "member:kick", ""⟩
          { allowed := some false, reason := "用户没有该权限 (Cache)", currentRoles := "admin"
            suggestRoles := "admin,owner" }) := by
  rw [Server.loggedIn_eq_seeded]
  decide +kernel

end SiqiAuth
