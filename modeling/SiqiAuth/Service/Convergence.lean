import SiqiAuth.Service.History
import SiqiAuth.Service.Staleness

/-!
# Convergence of the cached decisions

`Check` may go on answering by what it has cached while the console edits.  But nothing it has
cached outlives `cache_ttl`.  So when no edit of an app has succeeded for that long, `Check` answers
for the app by what the console's replies add up to, like the other ways to decide.  It differs
from them in one thing only: it compares permission keys as strings.

## Main definitions

* `Spells` — a user holds a permission whose key is spelled so.
* `Db.mem_permKeys_iff_spells` — the keys that `Check` loads.
* `Server.view_run_eq` — an app that no edit has succeeded for looks the same.
* `check_converges` — the answers one `cache_ttl` later.
-/

namespace SiqiAuth
open Lib AuthService AdminService

variable {c : Collation}

/-- In an app that looks like `s` the user has a role with a permission of this very key. -/
def Spells (s : Rbac c.Value c.Value c.Value SysApp SysRole SysPermission SysUserRole)
    (userId permKey : String) : Prop :=
  ∃ r m p i, s.member (c.value userId) r m ∧ s.bound r p ∧ s.perm p i ∧ i.permKey = permKey

/-- In an enabled app, if no permission is conferred by a deleted role, the keys that are loaded
are those the user holds. -/
theorem Db.mem_permKeys_iff_spells {db : Db c} {o : Owners} (ho : o.Consistent db)
    (hk : db.RolesKept) {a u p : String}
    (happ : ∃ i, (db.view (c.value a)).info i ∧ i.status = 1) :
    p ∈ db.permKeys a u ↔ Spells (db.view (c.value a)) u p := by
  rw [mem_permKeys]
  obtain ⟨i, ⟨app, happ, rfl⟩, hst⟩ := happ
  constructor
  · rintro ⟨app', happ', hcode, perm, hreaches, rfl⟩
    obtain rfl := happ.unique (.of_same happ' hcode)
    have hown := hreaches.appId ho
    obtain ⟨hperm, ur, hur, hid, huser, rp, hrp, hrole, hpid⟩ := hreaches
    obtain ⟨role, hmem, hrid⟩ :=
      hk app happ' hst ur hur hid ⟨ur, hur, rfl, rp, hrp, hrole, perm, hperm, hpid⟩
    have happId : role.appId = app.id := (ho.appId_eq hur hmem hrid).trans hid
    have hrof : db.RoleOf (c.value a) (c.value role.roleKey) role := ⟨hmem, rfl, app, happ, happId⟩
    have hpof : db.PermOf (c.value a) (c.value perm.permKey) perm := ⟨hperm, rfl, app, happ, hown⟩
    exact ⟨_, ur.info, _, perm.info,
      ⟨ur, ⟨hur, (c.same_iff_value _ _).mp huser, role, hrof, hid.trans happId.symm, hrid.symm⟩, rfl⟩,
      ⟨rp, hrp, role, hrof, hrole.trans hrid.symm, perm, hpof, hpid⟩, ⟨perm, hpof, rfl⟩, rfl⟩
  · rintro ⟨r, m, q, i, ⟨ur, ⟨hur, huser, role, hrof, hid, hrid⟩, -⟩,
      ⟨rp, hrp, role', hrof', hrole, perm', hpof', hpid⟩, ⟨perm, hpof, rfl⟩, rfl⟩
    obtain rfl := RoleOf.unique hrof hrof'
    obtain rfl := PermOf.unique hpof hpof'
    obtain ⟨-, -, app', happ', happId⟩ := hrof
    obtain rfl := happ.unique happ'
    exact ⟨app, happ.1, happ.same, perm, ⟨hpof.1, ur, hur, hid.trans happId,
      (c.same_iff_value _ _).mpr huser, rp, hrp, hrole.trans hrid.symm, hpid⟩, rfl⟩

namespace View

/-- Replies about other apps, and replies that are no success, cannot be seen. -/
theorem run_reply_of_ne {k : c.Value} {ys : List DaoReply}
    (h : ∀ y ∈ ys, y.result = true → c.value y.op.storedCode ≠ k) (v : View c) :
    run View.reply v ys k = v k := by
  induction ys generalizing v with
  | nil => rfl
  | cons y ys ih =>
      rw [run_cons, ih fun z hz => h z (List.mem_cons_of_mem y hz)]
      cases hr : y.result with
      | true => exact reply_of_ne (h y List.mem_cons_self hr)
      | false => simp [reply, hr]

end View

namespace Server
variable {cfg : Config} {s : Server c} {k : c.Value}

/-- No edit of the app has succeeded in the run. -/
def Unedited (cfg : Config) (s : Server c) (l : List Call) (k : c.Value) : Prop :=
  ∀ y ∈ s.editReplies cfg l, y.result = true → c.value y.op.storedCode ≠ k

/-- An app that no edit has succeeded for looks the same. -/
theorem view_run_eq (hs : s.db.Reachable) {l : List Call} (h : Unedited cfg s l k) :
    (run (step cfg) s l).db.view k = s.db.view k := by
  rw [view_run hs l]
  exact View.run_reply_of_ne h _

theorem Unedited.left {l m : List Call} (h : Unedited cfg s (l ++ m) k) : Unedited cfg s l k := by
  intro y hy
  refine h y ?_
  rw [editReplies, outputs_append]
  exact List.mem_append_left _ hy

end Server

/-- A check under the key of the pair is for the pair, and its read gets through. -/
def Call.LoadsPair (a u : String) (x : Call) : Prop :=
  match x.rpc with
  | .check req => cacheKey req.appCode req.userId = cacheKey a u →
      req.appCode = a ∧ req.userId = u ∧ readsThrough x.env.outcomes = true
  | _ => True

instance (a u : String) (x : Call) : Decidable (x.LoadsPair a u) := by
  obtain ⟨rpc, env⟩ := x
  induction rpc using Rpc.casesOn <;> dsimp only [Call.LoadsPair] <;> infer_instance

/-- While no edit of an enabled app succeeds, the keys that are loaded for a user stay those that
the user holds. -/
theorem Server.mem_permKeys_settled {cfg : Config} {installed : ℤ} {s : Server c}
    (hs : s.db = Db.initial installed) {l m : List Call} {a u p : String}
    (hl : Meets (step cfg) (fun t x => x.SparesGrants cfg t) s (l ++ m))
    (hquiet : Unedited cfg (run (step cfg) s l) m (c.value a))
    (henabled : ∃ i, ((run (step cfg) s l).db.view (c.value a)).info i ∧ i.status = 1) :
    p ∈ (run (step cfg) s (l ++ m)).db.permKeys a u ↔
      Spells ((run (step cfg) s l).db.view (c.value a)) u p := by
  obtain ⟨o, ho, hk⟩ := rolesKept_run hs hl
  have hview : (run (step cfg) s (l ++ m)).db.view (c.value a) =
      (run (step cfg) s l).db.view (c.value a) := by
    rw [run_append]
    exact view_run_eq (reachable_run cfg (.initial hs) l) hquiet
  rw [← hview] at henabled ⊢
  exact Db.mem_permKeys_iff_spells ho hk henabled

/-- An entry that outlives what was cached at the end of `l` was loaded after it. -/
theorem Server.loaded_after {cfg : Config} {s : Server c} (hcache : s.cache = .empty)
    {l m : List Call} {k : String} {e : Entry (Finset String)}
    (hfind : (run (step cfg) s (l ++ m)).cache.find k = some e)
    (htime : (run (step cfg) s l).now + seconds cfg.cacheTtl < e.expireAt) :
    ∃ m₁ y q m₂, m = m₁ ++ y :: m₂ ∧ y.rpc = .check q ∧ k = cacheKey q.appCode q.userId ∧
      e.value = loaded ((run (step cfg) s (l ++ m₁)).facing y.env) q.appCode q.userId := by
  obtain ⟨l₁, y, q, l₂, hlast, rfl⟩ := exists_lastLoad hcache (l ++ m) hfind
  have htime : (run (step cfg) s l).now < (run (step cfg) s (l₁ ++ [y])).now := by
    simp only at htime
    omega
  have hafter : ∃ m₁, l₁ = l ++ m₁ ∧ m = m₁ ++ y :: l₂ := by
    rcases List.append_eq_append_iff.mp hlast.run_eq with ⟨m₁, hl₁, hm⟩ | ⟨m₁, hl, hm⟩
    · exact ⟨m₁, hl₁, hm⟩
    · cases m₁ with
      | nil => exact ⟨[], by simpa using hl.symm, by simpa using hm.symm⟩
      | cons z m₁ =>
          -- Then it was loaded in `l`, and the clock does not go back.
          obtain ⟨rfl, -⟩ := List.cons_eq_cons.mp hm
          have hle := now_le_now_run cfg (run (step cfg) s (l₁ ++ [y])) m₁
          rw [← run_append, ← List.append_cons, ← hl] at hle
          omega
  obtain ⟨m₁, rfl, hm⟩ := hafter
  exact ⟨m₁, y, q, l₂, hm, hlast.misses.1, hlast.key_eq, rfl⟩

/-- **One `cache_ttl` after the last edit of an app that has succeeded, `Check` answers for the
app by what the console's replies add up to**, if edits spare grants, the app is enabled, and the
reads for the user get through. -/
theorem check_converges (cfg : Config) {installed : ℤ} {s : Server c}
    (hs : s.db = Db.initial installed) (hcache : s.cache = .empty) {l₁ l₂ : List Call}
    (hl : Meets (Server.step cfg) (fun t x => x.SparesGrants cfg t) s (l₁ ++ l₂))
    {req : CheckRequest} {env : Env} (hreq : req.Complete)
    (hquiet : Server.Unedited cfg (run (Server.step cfg) s l₁) l₂ (c.value req.appCode))
    (hreads : ∀ x ∈ l₂ ++ [⟨.check req, env⟩], x.LoadsPair req.appCode req.userId)
    (htime : (run (Server.step cfg) s l₁).now + seconds cfg.cacheTtl <
      ((run (Server.step cfg) s (l₁ ++ l₂)).facing env).nextNow)
    (henabled : ∃ i, (run View.reply s.db.view (s.editReplies cfg l₁) (c.value req.appCode)).info i ∧
      i.status = 1) :
    ∃ r b, (run (Server.step cfg) s (l₁ ++ l₂)).reply cfg ⟨.check req, env⟩ = .check r ∧
      r.allowed = some b ∧ (b = true ↔
        Spells (run View.reply s.db.view (s.editReplies cfg l₁) (c.value req.appCode)) req.userId
          req.permKey) := by
  let t := run (Server.step cfg) s (l₁ ++ l₂)
  rw [← Server.view_run (.initial hs)] at henabled ⊢
  -- From the end of `l₁` on, the tables say the same of the user.
  have hkeys : ∀ m m' p, l₂ = m ++ m' →
      (p ∈ (run (Server.step cfg) s (l₁ ++ m)).db.permKeys req.appCode req.userId ↔
        Spells ((run (Server.step cfg) s l₁).db.view (c.value req.appCode)) req.userId p) := by
    rintro m m' p rfl
    rw [← List.append_assoc, meets_append] at hl
    exact Server.mem_permKeys_settled hs hl.1 hquiet.left henabled
  generalize hrun : (check cfg req).run (t.facing env) = out
  obtain ⟨r, s'⟩ := out
  have hr : t.reply cfg ⟨.check req, env⟩ = .check r :=
    congrArg (fun out : _ × Server c => Reply.check out.1) hrun
  cases check_spec hrun with
  | incomplete hnot => exact absurd hreq hnot
  | miss _ _ hallowed =>
      have hloads := hreads _ (List.mem_append_right _ (List.mem_singleton_self _)) rfl
      refine ⟨r, _, hr, hallowed, ?_⟩
      rw [decide_eq_true_iff, loaded_eq hloads.2.2]
      exact hkeys l₂ [] _ (List.append_nil l₂).symm
  | hit _ hpeek hallowed =>
      obtain ⟨e, hfind, hlive, rfl⟩ := LocalCache.peek_eq_some.mp hpeek
      obtain ⟨m, y, q, m', rfl, hrpc, hkey, hvalue⟩ :=
        Server.loaded_after hcache hfind (htime.trans_le hlive)
      have hloads := hreads y (by simp)
      simp only [Call.LoadsPair, hrpc] at hloads
      obtain ⟨happ, huser, hthrough⟩ := hloads hkey.symm
      refine ⟨r, _, hr, hallowed, ?_⟩
      rw [decide_eq_true_iff, hvalue, loaded_eq hthrough, happ, huser]
      exact hkeys m _ _ rfl

/-- A permission is taken from a role right after `Check` has loaded it, and asked for two minutes
later; in between another app is edited. -/
theorem check_converges_unbound :
    let cfg : Config := { crypt := fun _ hash => some hash }
    let s : Server .binary := Server.start 0
    let req : CheckRequest := ⟨"qq_bot", "100001", "member:kick", ""⟩
    let l₁ : List Call := [⟨.login "admin" "pw" "t", {}⟩, ⟨.check req, {}⟩,
      ⟨.edit (.removePermissionFromRole "qq_bot" "admin" "member:kick") (some "Bearer t"), {}⟩]
    let l₂ : List Call := [⟨.check req, {}⟩,
      ⟨.edit (.createRole "admin_panel" "Ops" "ops" "" false) (some "Bearer t"), {}⟩]
    let v := run View.reply s.db.view (s.editReplies cfg l₁)
    ∃ r b, (run (Server.step cfg) s (l₁ ++ l₂)).reply cfg
        ⟨.check req, { ticks := [120000000000] }⟩ = .check r ∧ r.allowed = some b ∧
      (b = true ↔ Spells (v (Collation.binary.value "qq_bot")) "100001" "member:kick") := by
  intro cfg s req l₁ l₂ v
  have hs : s.db = Db.initial 0 := Server.db_start 0
  have hl : Meets (Server.step cfg) (fun t x => x.SparesGrants cfg t) s (l₁ ++ l₂) := by
    simp only [s, Server.start_eq_seeded]
    decide +kernel
  have hcache : s.cache = .empty := by simp only [s, Server.start_eq_seeded]
  have hother : ∀ y ∈ (run (Server.step cfg) s l₁).editReplies cfg l₂, y.result = true →
      ¬ Collation.binary.same y.op.storedCode "qq_bot" = true := by
    simp only [s, Server.start_eq_seeded]
    decide +kernel
  have hquiet : Server.Unedited cfg (run (Server.step cfg) s l₁) l₂
      (Collation.binary.value "qq_bot") :=
    fun y hy hr h => hother y hy hr ((Collation.binary.same_iff_value _ _).mpr h)
  have htime : (run (Server.step cfg) s l₁).now + seconds cfg.cacheTtl <
      ((run (Server.step cfg) s (l₁ ++ l₂)).facing { ticks := [120000000000] }).nextNow := by
    simp only [s, Server.start_eq_seeded]
    decide +kernel
  have henabled : ∃ i, (run View.reply s.db.view (s.editReplies cfg l₁)
      (Collation.binary.value req.appCode)).info i ∧ i.status = 1 := by
    have happ : ∃ app ∈ (run (Server.step cfg) s l₁).db.sysApps, app.appCode = "qq_bot" ∧
        app.status = 1 := by
      simp only [s, Server.start_eq_seeded]
      decide +kernel
    obtain ⟨app, happ, hcode, hst⟩ := happ
    rw [← Server.view_run (.initial hs) l₁]
    exact ⟨app.info, ⟨app, ⟨happ, congrArg _ hcode⟩, rfl⟩, hst⟩
  have hreq : req.Complete := ⟨by decide, by decide, by decide⟩
  exact check_converges cfg hs hcache hl hreq hquiet (by decide) htime henabled

end SiqiAuth
