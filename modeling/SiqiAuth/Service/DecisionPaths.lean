import SiqiAuth.Service.Rpc

/-!
# The three ways to decide

The agent and `BatchCheck` ask `checkPermission`, which wants the app enabled and
compares keys as the column does.  `Check` asks `getUserPermissions`, which takes any
app, and compares keys as strings.  They agree about an item exactly if, for every
permission with such a key that the user reaches, the app is enabled if and only if
the key is spelled the same.

## Main definitions

* `Db.PathsAgree` — that condition, on the tables.
* `Server.Cold` — the cache has nothing live for the user.
* `decision_paths_agree_iff` — what the three answer about the items of a batch.
-/

namespace SiqiAuth
open Lib AuthService

variable {c : Collation}

/-- Of a user's permissions with a key equal to `p`, the app is enabled exactly if the
key is `p`. -/
def Db.PathsAgree (db : Db c) (a u p : String) : Prop :=
  ∀ app ∈ db.sysApps, c.same app.appCode a = true → ∀ perm, db.Reaches app u perm →
    c.same perm.permKey p = true → (app.status = 1 ↔ perm.permKey = p)

/-- The cache has nothing live for the user when a check asks it. -/
def Server.Cold (s : Server c) (a u : String) : Prop :=
  s.cache.peek s.nextNow (cacheKey a u) = none

/-! ## What each of them answers -/

theorem checkPermission_iff {σ : DaoState c} (hσ : σ.Healthy) (a u p res : String) :
    ((PermissionDAO.checkPermission a u p res).run σ).1 = true ↔ ∃ app ∈ σ.db.sysApps,
      c.same app.appCode a = true ∧ app.status = 1 ∧
        ∃ perm, σ.db.Reaches app u perm ∧ c.same perm.permKey p = true := by
  rw [(PermissionDAO.checkPermission_reads a u p res).result hσ]
  exact Db.exists_selectCheckPermission_iff

/-- The agent answers a complete request as `checkPermission` does. -/
theorem agent_allowed {s s' : Server c} {req : CheckRequest} {query : AuthAgent.Query}
    {r : CheckResponse × Option String} (hreq : req.Complete)
    (h : (AuthAgent.check req query).run s = (r, s')) :
    r.1.allowed = some ((PermissionDAO.checkPermission req.appCode req.userId req.permKey "").run
      (s.dao .authAgent)).1 := by
  have hfield : ∀ {x : String} (y : Option String), x ≠ "" → AuthAgent.field x y = x :=
    fun y hx => if_neg hx
  have hallowed := (AuthAgent.check_spec h).2
  rw [hfield _ hreq.1, hfield _ hreq.2.1, hfield _ hreq.2.2] at hallowed
  rw [hallowed, Option.some_inj, Bool.eq_iff_iff, decide_eq_true_iff]
  exact and_iff_right hreq

/-- A check that finds nothing in the cache answers by what the user reaches. -/
theorem cold_check_allowed {cfg : Config} {s s' : Server c} {req : CheckRequest} {r : CheckResponse}
    (hreq : req.Complete) (hs : s.Healthy) (hcold : s.Cold req.appCode req.userId)
    (h : (check cfg req).run s = (r, s')) :
    r.allowed = some (decide (req.permKey ∈ s.db.permKeys req.appCode req.userId)) := by
  cases check_spec h with
  | incomplete hincomplete => exact absurd hreq hincomplete
  | hit _ hpeek =>
      rw [hcold] at hpeek
      cases hpeek
  | miss _ _ hallowed => rw [hallowed, loaded_eq (readsThrough_of_succeeds hs)]

/-- The two questions have one answer exactly if the paths agree. -/
theorem Db.pathsAgree_iff {o : Owners} {db : Db c} (ho : o.Consistent db) {a u p : String} :
    ((∃ app ∈ db.sysApps, c.same app.appCode a = true ∧ app.status = 1 ∧
        ∃ perm, db.Reaches app u perm ∧ c.same perm.permKey p = true) ↔ p ∈ db.permKeys a u) ↔
      db.PathsAgree a u p := by
  rw [Db.mem_permKeys]
  constructor
  · intro h app happ hcode perm hperm hkey
    constructor
    · intro hst
      -- The permission spelled `p` and this one are rows of one app, with equal keys.
      obtain ⟨app', happ', hcode', perm', hperm', rfl⟩ :=
        h.mp ⟨app, happ, hcode, hst, perm, hperm, hkey⟩
      obtain rfl := db.app_unique happ' happ hcode' hcode
      have hclash : (sysPermissionsSchema c).clash perm perm' = true := by
        simp [sysPermissionsSchema, hperm.appId ho, hperm'.appId ho, hkey]
      rw [Table.eq_of_clash hperm.1 hperm'.1 hclash]
    · rintro rfl
      obtain ⟨app', happ', hcode', hst, -⟩ := h.mpr ⟨app, happ, hcode, perm, hperm, rfl⟩
      rwa [db.app_unique happ happ' hcode hcode']
  · intro h
    constructor
    · rintro ⟨app, happ, hcode, hst, perm, hperm, hkey⟩
      exact ⟨app, happ, hcode, perm, hperm, (h app happ hcode perm hperm hkey).mp hst⟩
    · rintro ⟨app, happ, hcode, perm, hperm, rfl⟩
      have hkey := c.same_refl perm.permKey
      exact ⟨app, happ, hcode, (h app happ hcode perm hperm hkey).mpr rfl, perm, hperm, hkey⟩

/-! ## A batch -/

/-- The results in a response, of which a failed RPC has none. -/
def BatchCheck.results : Except Failed (List ResultItem) → List ResultItem
  | .ok results => results
  | .error _ => []

/-- An undisturbed batch has one result for each item, in order, and that is the answer of
`checkPermission`. -/
theorem results_forall₂ {s s' : Server c} {req : BatchCheckRequest}
    {r : Except Failed (List ResultItem)} (hs : s.Healthy) (hreq : req.appCode ≠ "")
    (h : (batchCheck req).run s = (r, s')) :
    List.Forall₂ (fun res item => res.userId = item.userId ∧ res.permKey = item.permKey ∧
      ∃ b, res.allowed = some b ∧ (b = true ↔ ∃ app ∈ s.db.sysApps,
        c.same app.appCode req.appCode = true ∧ app.status = 1 ∧ ∃ perm,
          s.db.Reaches app item.userId perm ∧ c.same perm.permKey item.permKey = true))
      (BatchCheck.results r) req.items := by
  obtain ⟨-, ⟨hempty, rfl⟩ | ⟨answers, hanswers, rfl⟩⟩ := batchCheck_spec h
  · rw [hempty.resolve_left hreq]
    exact .nil
  · have hreads := (PermissionDAO.batchCheckPermissions_reads req.appCode
      (req.items.map fun item => (item.userId, item.permKey))).result
        (Server.healthy_dao hs .authService)
    rw [← hanswers, List.forall₂_map_right_iff] at hreads
    clear hanswers h
    simp only [BatchCheck.results]
    generalize req.items = items at hreads
    induction hreads with
    | nil => exact .nil
    | cons hhead _ ih =>
        refine .cons ⟨rfl, rfl, _, rfl, ?_⟩ ih
        rw [hhead]
        exact Db.exists_selectCheckPermission_iff

/-- The result is about the item; on the same tables the agent answers the same, and a
check that finds nothing in the cache answers the same exactly if the paths agree. -/
structure AnswersItem (cfg : Config) (db : Db c) (appCode : String) (res : ResultItem)
    (item : CheckItem) : Prop where
  userId_eq : res.userId = item.userId
  permKey_eq : res.permKey = item.permKey
  agent : ∀ (s : Server c) query, s.db = db → s.Healthy →
    ((AuthAgent.check ⟨appCode, item.userId, item.permKey, item.resourceId⟩ query).run s).1.1.allowed =
      res.allowed
  check : ∀ s : Server c, s.db = db → s.Healthy → s.Cold appCode item.userId →
    (((AuthService.check cfg ⟨appCode, item.userId, item.permKey, item.resourceId⟩).run s).1.allowed =
      res.allowed ↔ db.PathsAgree appCode item.userId item.permKey)

/-- **A batch has one result for each item, in order; the agent agrees with each, and a
cold check does exactly where the paths agree.** -/
theorem decision_paths_agree_iff (cfg : Config) {installed : ℤ} {s₀ s : Server c}
    (h₀ : s₀.db = Db.initial installed) (l : List Call)
    (hdb : s.db = (run (Server.step cfg) s₀ l).db) (hs : s.Healthy) {req : BatchCheckRequest}
    (happ : req.appCode ≠ "") (hitems : ∀ item ∈ req.items, item.userId ≠ "" ∧ item.permKey ≠ "") :
    List.Forall₂ (AnswersItem cfg s.db req.appCode)
      (BatchCheck.results ((batchCheck req).run s).1) req.items := by
  obtain ⟨o, ho⟩ := Server.exists_owners cfg h₀ l
  rw [← hdb] at ho
  obtain ⟨hlength, hresults⟩ := List.forall₂_iff_zip.mp
    (results_forall₂ hs happ (Prod.mk.eta (p := (batchCheck req).run s)).symm)
  refine List.forall₂_iff_zip.mpr ⟨hlength, fun {res item} hmem => ?_⟩
  obtain ⟨huser, hkey, b, hallowed, hb⟩ := hresults hmem
  obtain ⟨huser', hkey'⟩ := hitems item (List.of_mem_zip hmem).2
  have hcomplete : ∀ resourceId : String,
      (⟨req.appCode, item.userId, item.permKey, resourceId⟩ : CheckRequest).Complete :=
    fun _ => ⟨happ, huser', hkey'⟩
  refine ⟨huser, hkey, fun t query ht hhealthy => ?_, fun t ht hhealthy hcold => ?_⟩
  · rw [agent_allowed (hcomplete item.resourceId) (Prod.mk.eta).symm, hallowed, Option.some_inj,
      Bool.eq_iff_iff, hb, ← ht]
    exact checkPermission_iff (Server.healthy_dao hhealthy .authAgent) _ _ _ _
  · rw [cold_check_allowed (hcomplete item.resourceId) hhealthy hcold (Prod.mk.eta).symm, hallowed,
      Option.some_inj, eq_comm, Bool.eq_iff_iff, decide_eq_true_iff, hb, ht]
    exact Db.pathsAgree_iff ho

/-- A batch about a user with a permission, and about one without. -/
theorem decision_paths_agree_iff_qq_bot :
    List.Forall₂ (AnswersItem { crypt := fun _ _ => none } (Db.initial 0 : Db .binary) "qq_bot")
      [⟨"100001", "member:kick", some true, ""⟩, ⟨"42", "member:kick", some false, "用户没有该权限"⟩]
      [⟨"100001", "member:kick", ""⟩, ⟨"42", "member:kick", ""⟩] := by
  let req : BatchCheckRequest :=
    ⟨"qq_bot", [⟨"100001", "member:kick", ""⟩, ⟨"42", "member:kick", ""⟩]⟩
  have hbatch : BatchCheck.results ((batchCheck req).run (Server.start 0 : Server .binary)).1 =
      [⟨"100001", "member:kick", some true, ""⟩,
        ⟨"42", "member:kick", some false, "用户没有该权限"⟩] := by
    rw [Server.start_eq_seeded]
    decide +kernel
  have happ : req.appCode ≠ "" := by decide
  have hitems : ∀ item ∈ req.items, item.userId ≠ "" ∧ item.permKey ≠ "" := by decide
  rw [← hbatch, ← Server.db_start]
  exact decision_paths_agree_iff _ (s := Server.start 0) (Server.db_start 0) [] rfl
    (fun o ho => absurd ho List.not_mem_nil) happ hitems

/-- The app is disabled: the batch and the agent deny what a cold check allows. -/
theorem disabled_app_parts_the_paths :
    let cfg : Config := { crypt := fun _ hash => some hash }
    let s := run (Server.step cfg) (.start 0 : Server .binary) [⟨.login "admin" "pw" "t", {}⟩,
      ⟨.edit (.updateApp "qq_bot" none none (some 0)) (some "Bearer t"), {}⟩]
    let req : CheckRequest := ⟨"qq_bot", "100001", "member:kick", ""⟩
    BatchCheck.results ((batchCheck ⟨"qq_bot", [⟨"100001", "member:kick", ""⟩]⟩).run s).1 =
        [⟨"100001", "member:kick", some false, "用户没有该权限"⟩] ∧
      ((AuthAgent.check req {}).run s).1.1.allowed = some false ∧
      s.cache.find (cacheKey "qq_bot" "100001") = none ∧
      ((check cfg req).run s).1.allowed = some true := by
  rw [Server.start_eq_seeded]
  decide +kernel

end SiqiAuth
