import SiqiAuth.Service.Coherence
import SiqiAuth.Service.DecisionPaths

/-!
# Spellings

The statements compare app codes, user ids and permission keys as their columns do, and
so take all spellings of one as the same.  The permission cache, its invalidation and the
set of permission keys compare them as strings.  So two spellings of one request can be
answered differently: because one of them spells the permission key as it is stored and
the other does not, or because an edit in one spelling has left the entry of another alive.

## Main definitions

* `CheckRequest.Same` — two requests that the columns do not tell apart.
* `Db.SpellsAlike` — they spell the permission key alike, as far as that matters.
* `spellings_agree` — when the answers agree, after a run that spares the cache of both.
-/

namespace SiqiAuth
open Lib AuthService

variable {c : Collation}

/-- The columns do not tell the requests apart. -/
structure CheckRequest.Same (c : Collation) (r₁ r₂ : CheckRequest) : Prop where
  app : c.same r₁.appCode r₂.appCode = true
  user : c.same r₁.userId r₂.userId = true
  perm : c.same r₁.permKey r₂.permKey = true

namespace Db
variable {db : Db c} {r₁ r₂ : CheckRequest}

/-- A permission of the user with this key is stored as the one request spells it if and
only if it is stored as the other does. -/
def SpellsAlike (db : Db c) (r₁ r₂ : CheckRequest) : Prop :=
  ∀ app ∈ db.sysApps, c.same app.appCode r₁.appCode = true → ∀ perm, db.Reaches app r₁.userId perm →
    c.same perm.permKey r₁.permKey = true →
      (r₁.Complete ∧ perm.permKey = r₁.permKey ↔ r₂.Complete ∧ perm.permKey = r₂.permKey)

/-- What a user reaches does not depend on how the user is spelt. -/
theorem reaches_congr {app : SysApp} {u₁ u₂ : String} (huser : c.same u₁ u₂ = true)
    {perm : SysPermission} : db.Reaches app u₁ perm ↔ db.Reaches app u₂ perm := by
  simp only [Reaches]
  simp only [c.same_congr_right huser]

/-- All spellings of a user have the same permission keys. -/
theorem permKeys_congr {a₁ a₂ u₁ u₂ : String} (happ : c.same a₁ a₂ = true)
    (huser : c.same u₁ u₂ = true) : db.permKeys a₁ u₁ = db.permKeys a₂ u₂ := by
  ext k
  simp only [mem_permKeys, c.same_congr_right happ, reaches_congr huser]

/-- Two requests for one permission are granted alike just when they spell it alike. -/
theorem spellsAlike_iff {o : Owners} (ho : o.Consistent db) (h : r₁.Same c r₂) :
    ((r₁.Complete ∧ r₁.permKey ∈ db.permKeys r₁.appCode r₁.userId) ↔
      (r₂.Complete ∧ r₂.permKey ∈ db.permKeys r₁.appCode r₁.userId)) ↔ db.SpellsAlike r₁ r₂ := by
  -- Whatever the user reaches of this app under an equal key is one row.
  have hunique : ∀ app ∈ db.sysApps, c.same app.appCode r₁.appCode = true → ∀ perm,
      db.Reaches app r₁.userId perm → c.same perm.permKey r₁.permKey = true → ∀ key,
        c.same key r₁.permKey = true →
          (key ∈ db.permKeys r₁.appCode r₁.userId ↔ perm.permKey = key) := by
    intro app happ hcode perm hperm hkey key hsame
    rw [mem_permKeys]
    constructor
    · rintro ⟨app', happ', hcode', perm', hperm', rfl⟩
      obtain rfl := db.app_unique happ' happ hcode' hcode
      have hclash : (sysPermissionsSchema c).clash perm perm' = true := by
        simp [sysPermissionsSchema, hperm.appId ho, hperm'.appId ho,
          c.same_trans _ _ _ hkey (c.same_comm hsame)]
      rw [Table.eq_of_clash hperm.1 hperm'.1 hclash]
    · rintro rfl
      exact ⟨app, happ, hcode, perm, hperm, rfl⟩
  constructor
  · intro hiff app happ hcode perm hperm hkey
    have hone := hunique app happ hcode perm hperm hkey
    rw [hone r₁.permKey (c.same_refl _), hone r₂.permKey (c.same_comm h.perm)] at hiff
    exact hiff
  · intro halike
    constructor
    · rintro ⟨hcomplete, hmem⟩
      obtain ⟨app, happ, hcode, perm, hperm, hkey⟩ := mem_permKeys.mp hmem
      have hsame : c.same perm.permKey r₁.permKey = true := by simp [hkey]
      obtain ⟨hcomplete', hkey'⟩ := (halike app happ hcode perm hperm hsame).mp ⟨hcomplete, hkey⟩
      exact ⟨hcomplete', mem_permKeys.mpr ⟨app, happ, hcode, perm, hperm, hkey'⟩⟩
    · rintro ⟨hcomplete, hmem⟩
      obtain ⟨app, happ, hcode, perm, hperm, hkey⟩ := mem_permKeys.mp hmem
      have hsame : c.same perm.permKey r₁.permKey = true := by
        rw [hkey]
        exact c.same_comm h.perm
      obtain ⟨hcomplete', hkey'⟩ := (halike app happ hcode perm hperm hsame).mpr ⟨hcomplete, hkey⟩
      exact ⟨hcomplete', mem_permKeys.mpr ⟨app, happ, hcode, perm, hperm, hkey'⟩⟩

end Db

/-- A check that is not complete is denied; on a coherent cache a complete one is decided
by the tables. -/
theorem Server.CoherentAt.allowed_eq {cfg : Config} {s : Server c} {req : CheckRequest}
    (hs : s.CoherentAt req.appCode req.userId) (hhealthy : s.Healthy) :
    ((check cfg req).run s).1.allowed = some (decide (req.Complete ∧
      req.permKey ∈ s.db.permKeys req.appCode req.userId)) := by
  by_cases hreq : req.Complete
  · rw [hs.check_allowed hreq hhealthy]
    simp [hreq]
  · rw [run_check_of_incomplete hreq]
    simp [hreq]

/-- `checkPermission` does not tell the spellings apart. -/
theorem checkPermission_congr {σ : DaoState c} (hσ : σ.Healthy) {r₁ r₂ : CheckRequest}
    (h : r₁.Same c r₂) (res : String) :
    ((PermissionDAO.checkPermission r₁.appCode r₁.userId r₁.permKey res).run σ).1 =
      ((PermissionDAO.checkPermission r₂.appCode r₂.userId r₂.permKey res).run σ).1 := by
  rw [Bool.eq_iff_iff, checkPermission_iff hσ, checkPermission_iff hσ]
  simp only [c.same_congr_right h.app, c.same_congr_right h.perm, Db.reaches_congr h.user]

/-- **Two spellings of one request have the same answer exactly if they spell the
permission key alike**, after every run in which whatever is loaded under the key of
either is what the tables say and no edit touches the user behind an entry of either that
lives on after its invalidation.  Both are then decided by the tables.  The agent gives
two complete requests the same answer in any case. -/
theorem spellings_agree (cfg : Config) {installed : ℤ} {s : Server c}
    (hdb : s.db = Db.initial installed) (hcache : s.cache = .empty) {r₁ r₂ : CheckRequest}
    (h : r₁.Same c r₂) {l : List Call} (hl : Meets (Server.step cfg) (fun t x =>
      ∀ r : CheckRequest, r = r₁ ∨ r = r₂ →
        t.LoadsTables r.appCode r.userId x ∧ t.SparesCache r.appCode r.userId x) s l) :
    let t := run (Server.step cfg) s l
    ∀ env, (t.facing env).Healthy →
      (∀ r : CheckRequest, r = r₁ ∨ r = r₂ → ((check cfg r).run (t.facing env)).1.allowed =
        some (decide (r.Complete ∧ r.permKey ∈ t.db.permKeys r.appCode r.userId))) ∧
      (((check cfg r₁).run (t.facing env)).1.allowed =
          ((check cfg r₂).run (t.facing env)).1.allowed ↔ t.db.SpellsAlike r₁ r₂) ∧
      ∀ query, r₁.Complete → r₂.Complete →
        ((AuthAgent.check r₁ query).run (t.facing env)).1.1.allowed =
          ((AuthAgent.check r₂ query).run (t.facing env)).1.1.allowed := by
  intro t env hhealthy
  obtain ⟨o, ho⟩ := Server.exists_owners cfg hdb l
  have hallowed : ∀ r : CheckRequest, r = r₁ ∨ r = r₂ →
      ((check cfg r).run (t.facing env)).1.allowed =
        some (decide (r.Complete ∧ r.permKey ∈ t.db.permKeys r.appCode r.userId)) := by
    intro r hr
    have hcoherent : t.CoherentAt r.appCode r.userId :=
      Server.coherentAt_run cfg hdb hcache (hl.mono fun _ _ hx => hx r hr)
    have hfacing : (t.facing env).CoherentAt r.appCode r.userId := hcoherent
    exact hfacing.allowed_eq hhealthy
  refine ⟨hallowed, ?_, fun query h₁ h₂ => ?_⟩
  · rw [hallowed r₁ (.inl rfl), hallowed r₂ (.inr rfl), Option.some_inj, decide_eq_decide,
      ← Db.permKeys_congr h.app h.user]
    exact Db.spellsAlike_iff ho h
  · rw [agent_allowed h₁ (Prod.mk.eta).symm, agent_allowed h₂ (Prod.mk.eta).symm,
      checkPermission_congr (Server.healthy_dao hhealthy .authAgent) h]

/-- The user is checked and revoked in one spelling: the other is denied as well. -/
theorem spellings_agree_after_revoke :
    let cfg : Config := { crypt := fun _ hash => some hash }
    let s : Server .caseInsensitive := .start 0
    let r₁ : CheckRequest := ⟨"qq_bot", "100001", "member:kick", ""⟩
    let r₂ : CheckRequest := ⟨"QQ_BOT", "100001", "member:kick", ""⟩
    let l : List Call := [⟨.login "admin" "pw" "t", {}⟩, ⟨.check r₁, {}⟩,
      ⟨.edit (.revokeRoleFromUser "qq_bot" "100001" "admin") (some "Bearer t"), {}⟩]
    ((check cfg r₁).run ((run (Server.step cfg) s l).facing {})).1.allowed =
      ((check cfg r₂).run ((run (Server.step cfg) s l).facing {})).1.allowed := by
  intro cfg s r₁ r₂ l
  have hsame : r₁.Same .caseInsensitive r₂ := by
    constructor <;> decide +kernel
  have hl₁ : Meets (Server.step cfg) (fun t x => t.LoadsTables "qq_bot" "100001" x ∧
      t.SparesCache "qq_bot" "100001" x) s l := by
    simp only [s, Server.start_eq_seeded]
    decide +kernel
  have hl₂ : Meets (Server.step cfg) (fun t x => t.LoadsTables "QQ_BOT" "100001" x ∧
      t.SparesCache "QQ_BOT" "100001" x) s l := by
    simp only [s, Server.start_eq_seeded]
    decide +kernel
  have hl : Meets (Server.step cfg) (fun t x => ∀ r : CheckRequest, r = r₁ ∨ r = r₂ →
      t.LoadsTables r.appCode r.userId x ∧ t.SparesCache r.appCode r.userId x) s l := by
    refine (hl₁.and hl₂).mono ?_
    rintro t x ⟨h₁, h₂⟩ r (rfl | rfl)
    · exact h₁
    · exact h₂
  obtain ⟨-, hiff, -⟩ :=
    spellings_agree cfg (s := s) (Server.db_start 0) rfl hsame hl {} (Server.healthy_facing _)
  refine hiff.mpr fun app _ _ perm _ _ => and_congr_left fun _ => ?_
  simp [CheckRequest.Complete, r₁, r₂]

/-- A spelling of the permission key that is not the stored one is denied on a cold cache;
and after a revocation in another spelling of the app, the entry of the user goes on
allowing what was taken away.  The agent tells no spellings apart. -/
theorem spellings_disagree :
    let cfg : Config := { crypt := fun _ hash => some hash }
    let answer (s : Server .caseInsensitive) (r : CheckRequest) : Option Bool × Option Bool :=
      (((check cfg r).run (s.facing {})).1.allowed,
        ((AuthAgent.check r {}).run (s.facing {})).1.1.allowed)
    let stored : CheckRequest := ⟨"qq_bot", "100001", "member:kick", ""⟩
    let otherKey : CheckRequest := ⟨"qq_bot", "100001", "Member:Kick", ""⟩
    let otherApp : CheckRequest := ⟨"QQ_BOT", "100001", "member:kick", ""⟩
    let cold := run (Server.step cfg) (.start 0) [⟨.login "admin" "pw" "t", {}⟩]
    let cached := cold.step cfg ⟨.check stored, {}⟩
    let revoke : Call :=
      ⟨.edit (.revokeRoleFromUser "QQ_BOT" "100001" "admin") (some "Bearer t"), {}⟩
    (stored.Same .caseInsensitive otherKey ∧ stored.Same .caseInsensitive otherApp) ∧
      answer cold stored = (some true, some true) ∧ answer cold otherKey = (some false, some true) ∧
      cached.reply cfg revoke = .edit { success := true, message := "撤销成功" } ∧
      answer (cached.step cfg revoke) stored = (some true, some false) ∧
      answer (cached.step cfg revoke) otherApp = (some false, some false) := by
  intro cfg answer stored otherKey otherApp cold cached revoke
  constructor
  · constructor
    · constructor <;> decide +kernel
    · constructor <;> decide +kernel
  · simp only [cold, cached, Server.start_eq_seeded]
    decide +kernel

end SiqiAuth
