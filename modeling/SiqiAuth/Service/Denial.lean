import SiqiAuth.Service.Rpc
import SiqiAuth.Store.Existence

/-!
# What a denial says

`Check` explains a denial by four queries, whose conditions differ: only `getUserRoles` asks
for the status of the app.  So in an app that is not enabled, a user with roles is told to
have none; in every other state what the explanation says is the case.

## Main definitions

* `Db.AssignedRole` — the roles that an explanation is about.
* `Explains` — what `explainDenial` says when nothing fails.
* `Db.Truthful`, `Db.Explicable` — that it is the case, and when it is.
* `denial_reason_exact` — the reasons of both implementations of `Check`.
-/

namespace SiqiAuth
open Lib

variable {c : Collation}

/-! ## The roles of a user -/

namespace Db
variable (db : Db c) (a u k : String)

/-- The user is assigned a role in the app, and the role exists and has the key `k`. -/
def AssignedRole : Prop := ∃ app ∈ db.sysApps, c.same app.appCode a = true ∧
  ∃ ur ∈ db.sysUserRoles, ur.appId = app.id ∧ c.same ur.appUserId u = true ∧
    ∃ role ∈ db.sysRoles, role.id = ur.roleId ∧ role.roleKey = k

instance : Decidable (db.AssignedRole a u k) := inferInstanceAs (Decidable (∃ app ∈ db.sysApps, _))

variable {db a u k}

/-- `getUserRoles` lists the roles assigned, if the app is enabled. -/
theorem mem_userRoles : k ∈ (db.snapshot.selectUserRoles a u).map (fun x => x.2.roleKey) ↔
    db.AssignedRole a u k ∧ ∃ app ∈ db.sysApps, c.same app.appCode a = true ∧ app.status = 1 := by
  simp only [Snapshot.selectUserRoles, List.mem_map, List.mem_filter, mem_join, Bool.and_eq_true,
    beq_iff_eq]
  constructor
  · rintro ⟨x, ⟨⟨⟨hur, happ, hid⟩, hrole, hrid⟩, ⟨hcode, huser⟩, hst⟩, rfl⟩
    exact ⟨⟨x.1.2, happ, hcode, x.1.1, hur, hid, huser, x.2, hrole, hrid.symm, rfl⟩, x.1.2, happ,
      hcode, hst⟩
  · rintro ⟨⟨app, happ, hcode, ur, hur, hid, huser, role, hrole, hrid, rfl⟩,
      app', happ', hcode', hst⟩
    obtain rfl := db.app_unique happ happ' hcode hcode'
    exact ⟨((ur, app), role), ⟨⟨⟨hur, happ, hid⟩, hrole, hrid.symm⟩, ⟨hcode, huser⟩, hst⟩, rfl⟩

/-- And none of them twice. -/
theorem nodup_userRoles (hdb : db.Linked) :
    ((db.snapshot.selectUserRoles a u).map fun x => x.2.roleKey).Nodup := by
  have hjoin : (db.snapshot.selectUserRoles a u).Nodup :=
    (nodup_join (nodup_join db.sysUserRoles.nodup_rows db.sysApps.nodup_rows _)
      db.sysRoles.nodup_rows _).filter _
  refine hjoin.map_on ?_
  rintro ⟨⟨ur, app⟩, role⟩ hx ⟨⟨ur', app'⟩, role'⟩ hx' hkey
  simp only [Snapshot.selectUserRoles, List.mem_filter, mem_join, Bool.and_eq_true,
    beq_iff_eq] at hx hx' hkey
  obtain ⟨⟨⟨hur, happ, hid⟩, hrole, hrid⟩, ⟨hcode, huser⟩, -⟩ := hx
  obtain ⟨⟨⟨hur', happ', hid'⟩, hrole', hrid'⟩, ⟨hcode', huser'⟩, -⟩ := hx'
  obtain rfl := db.app_unique happ happ' hcode hcode'
  have hown := hdb.assignment ur hur role hrole hrid.symm
  have hown' := hdb.assignment ur' hur' role' hrole' hrid'.symm
  obtain rfl := Table.eq_of_clash hrole hrole'
    (by simp [sysRolesSchema, hown, hown', hid, hid', hkey])
  have hsame := c.same_trans _ _ _ huser (c.same_comm huser')
  obtain rfl := Table.eq_of_clash hur hur'
    (by simp [sysUserRolesSchema, hid, hid', hrid, hrid', hsame])
  rfl

end Db

/-! ## What is said when nothing fails -/

/-- What an undisturbed explanation says. -/
inductive Explains (db : Db c) (a u p suffix : String) : CheckResponse → Prop
  | appMissing (happ : ¬ db.AppExists a) :
      Explains db a u p suffix { allowed := some false, reason := "应用不存在" ++ suffix }
  | permissionMissing (happ : db.AppExists a) (hperm : ¬ db.PermissionExists a p) :
      Explains db a u p suffix { allowed := some false, reason := "权限不存在" ++ suffix }
  | roles (hperm : db.PermissionExists a p) {current required : List String}
      (hcurrent : current.Perm ((db.snapshot.selectUserRoles a u).map fun x => x.2.roleKey))
      (hrequired : required.Perm (((db.snapshot.selectAppId a).head?.toList.flatMap fun n =>
        db.snapshot.selectRolesWithPermission n p).map fun x => x.1.1.roleKey)) :
      Explains db a u p suffix {
        allowed := some false
        reason := (if current.isEmpty then "用户不存在或未分配任何角色" else "用户没有该权限") ++ suffix
        currentRoles := if current.isEmpty then "无" else ",".intercalate current
        suggestRoles := ",".intercalate required }

theorem appExists_reads (a : String) : Reads (c := c) (PermissionDAO.appExists a) fun db r =>
    r = true ↔ db.AppExists a := by
  refine (PermissionDAO.getAppId_reads a).bind fun found => .pure fun db hfound => ?_
  rw [hfound, Db.isSome_head?_selectAppId]

theorem explainDenial_reads (a u p suffix : String) :
    Reads (c := c) (explainDenial a u p suffix) fun db r => Explains db a u p suffix r := by
  refine (appExists_reads a).bind fun found => ?_
  cases found with
  | false => exact .pure fun db happ => .appMissing (by simp [← happ])
  | true =>
      refine (PermissionDAO.permissionExists_reads a p).bind fun found => ?_
      cases found with
      | false =>
          refine .pure fun db hperm happ => .permissionMissing (happ.mp rfl) ?_
          rw [Db.permissionExists_iff, ← hperm]
          simp
      | true =>
          refine (PermissionDAO.getUserRoles_reads a u).bind fun current => ?_
          refine (PermissionDAO.getRolesWithPermission_reads a p).bind fun required => ?_
          refine .pure fun db hrequired hcurrent hperm _ => .roles ?_ hcurrent hrequired
          rw [Db.permissionExists_iff, ← hperm]

/-! ## Where the explanation is asked for -/

/-- What a function of a DAO left is what the next one works on. -/
theorem Server.dao_left (s : Server c) (h : Holder) (σ : DaoState c) : (s.left h σ).dao h = σ := by
  simp [left, dao]

namespace AuthService
variable {cfg : Config} {req : CheckRequest} {s : Server c}

/-- A check that misses loads the permissions, and explains a denial after that. -/
theorem check_of_miss (hreq : req.Complete)
    (hpeek : s.cache.peek s.nextNow (cacheKey req.appCode req.userId) = none) :
    ((check cfg req).run s).1 =
      if req.permKey ∈ loaded s req.appCode req.userId then { allowed := some true } else
        ((explainDenial req.appCode req.userId req.permKey "").run
          ((loadPermissions req.appCode req.userId).run (s.dao .authService)).2).1 := by
  have hfields : ¬ (req.appCode = "" ∨ req.userId = "" ∨ req.permKey = "") := by
    simp only [CheckRequest.Complete] at hreq
    tauto
  simp only [check, if_neg hfields, userPermissions, run_bind, run_cacheGet, LocalCache.fst_get,
    hpeek]
  by_cases hp : req.permKey ∈ loaded s req.appCode req.userId
  · rw [if_pos hp]
    exact congrArg (fun x : Service c CheckResponse => (x.run _).1) (if_pos hp)
  · rw [if_neg hp]
    refine (congrArg (fun x : Service c CheckResponse => (x.run _).1) (if_neg hp)).trans ?_
    exact congrArg (fun σ => ((explainDenial req.appCode req.userId req.permKey "").run σ).1)
      (Server.dao_left s .authService _)

/-- A check that hits explains a denial at once. -/
theorem check_of_hit {perms : Finset String} (hreq : req.Complete)
    (hpeek : s.cache.peek s.nextNow (cacheKey req.appCode req.userId) = some perms) :
    ((check cfg req).run s).1 = if req.permKey ∈ perms then { allowed := some true } else
      ((explainDenial req.appCode req.userId req.permKey " (Cache)").run
        (s.dao .authService)).1 := by
  have hfields : ¬ (req.appCode = "" ∨ req.userId = "" ∨ req.permKey = "") := by
    simp only [CheckRequest.Complete] at hreq
    tauto
  simp only [check, if_neg hfields, userPermissions, run_bind, run_cacheGet, LocalCache.fst_get,
    hpeek]
  by_cases hp : req.permKey ∈ perms
  · rw [if_pos hp]
    exact congrArg (fun x : Service c CheckResponse => (x.run _).1) (if_pos hp)
  · rw [if_neg hp]
    exact congrArg (fun x : Service c CheckResponse => (x.run _).1) (if_neg hp)

end AuthService

namespace AuthAgent

/-- The agent explains a denial after it has asked `checkPermission`. -/
theorem check_of_complete {req : CheckRequest} {query : Query} {s : Server c} {a u p : String}
    (ha : field req.appCode query.appCode = a) (hu : field req.userId query.userId = u)
    (hp : field req.permKey query.permKey = p) (hfields : a ≠ "" ∧ u ≠ "" ∧ p ≠ "") :
    ((check req query).run s).1.1 =
      if ((PermissionDAO.checkPermission a u p "").run (s.dao .authAgent)).1 = true
      then { allowed := some true } else ((explainDenial a u p "").run
        ((PermissionDAO.checkPermission a u p "").run (s.dao .authAgent)).2).1 := by
  have hfields : ¬ (a = "" ∨ u = "" ∨ p = "") := by tauto
  simp only [check, ha, hu, hp, if_neg hfields, run_bind, run_call]
  by_cases hallowed : ((PermissionDAO.checkPermission a u p "").run (s.dao .authAgent)).1 = true
  · simp only [hallowed, if_true]
    rfl
  · rw [Bool.not_eq_true] at hallowed
    simp only [hallowed, Bool.false_eq_true, if_false, run_bind, run_call]
    exact congrArg (fun σ => ((explainDenial a u p "").run σ).1) (Server.dao_left s .authAgent _)

end AuthAgent

/-! ## Whether what is said is the case -/

/-- The roles that a response shows are those whose keys satisfy `K`. -/
def CheckResponse.Shows (r : CheckResponse) (K : String → Prop) : Prop :=
  ∃ keys : List String, keys.Nodup ∧ (∀ k, k ∈ keys ↔ K k) ∧
    r.currentRoles = ",".intercalate keys

/-- A denial says what is the case. -/
structure Db.Truthful (db : Db c) (a u p : String) (r : CheckResponse) : Prop where
  app : r.reason = "应用不存在" ↔ ¬ db.AppExists a
  permission : r.reason = "权限不存在" ↔ db.AppExists a ∧ ¬ db.PermissionExists a p
  unassigned : r.reason = "用户不存在或未分配任何角色" ∧ r.currentRoles = "无" ↔
    db.PermissionExists a p ∧ ¬ ∃ k, db.AssignedRole a u k
  lacking : r.reason = "用户没有该权限" ∧ r.Shows (db.AssignedRole a u) ↔
    db.PermissionExists a p ∧ ∃ k, db.AssignedRole a u k

/-- The app, if it is there and has the permission, is enabled, or the user has no roles in
it. -/
def Db.Explicable (db : Db c) (a u p : String) : Prop :=
  ∀ app ∈ db.sysApps, c.same app.appCode a = true →
    app.status = 1 ∨ ¬ db.PermissionExists a p ∨ ¬ ∃ k, db.AssignedRole a u k

theorem Db.explicable_of_missing {db : Db c} {a u p : String} (h : ¬ db.PermissionExists a p) :
    db.Explicable a u p :=
  fun _ _ _ => Or.inr (Or.inl h)

/-- In an enabled app the roles are shown; in any other the user is told to have none. -/
theorem Explains.truthful_iff {db : Db c} {a u p : String} {r : CheckResponse}
    (h : Explains db a u p "" r) (hdb : db.Linked) :
    db.Truthful a u p r ↔ db.Explicable a u p := by
  cases h with
  | appMissing happ =>
      have hperm : ¬ db.PermissionExists a p := fun h => happ h.appExists
      refine iff_of_true ?_ (Db.explicable_of_missing hperm)
      constructor <;> simp [happ, hperm]
  | permissionMissing happ hperm =>
      refine iff_of_true ?_ (Db.explicable_of_missing hperm)
      constructor <;> simp [happ, hperm]
  | @roles hperm current required hcurrent =>
      have happ := hperm.appExists
      have hmem : ∀ k, k ∈ current ↔ db.AssignedRole a u k ∧
          ∃ app ∈ db.sysApps, c.same app.appCode a = true ∧ app.status = 1 := by
        intro k
        rw [hcurrent.mem_iff, Db.mem_userRoles]
      cases current with
      | nil =>
          constructor
          · intro htrue
            exact fun _ _ _ => Or.inr (Or.inr (htrue.unassigned.mp ⟨rfl, rfl⟩).2)
          · intro hexplicable
            obtain ⟨app, hmemApp, hcode⟩ := happ
            have hnone : ¬ ∃ k, db.AssignedRole a u k := by
              rintro ⟨k, hk⟩
              rcases hexplicable app hmemApp hcode with hst | hmissing | hnone
              · exact List.not_mem_nil ((hmem k).mpr ⟨hk, app, hmemApp, hcode, hst⟩)
              · exact hmissing hperm
              · exact hnone ⟨k, hk⟩
            constructor <;> simp [hperm, hperm.appExists, hnone]
      | cons key keys =>
          obtain ⟨hkey, app, hmemApp, hcode, hst⟩ := (hmem key).mp List.mem_cons_self
          have hshown : ∀ k, k ∈ key :: keys ↔ db.AssignedRole a u k := by
            intro k
            rw [hmem, and_iff_left ⟨app, hmemApp, hcode, hst⟩]
          have hassigned : ∃ k, db.AssignedRole a u k := ⟨key, hkey⟩
          refine iff_of_true ?_ fun app' happ' hcode' => ?_
          · constructor
            · simp [happ]
            · simp [hperm]
            · simp [hassigned]
            · refine iff_of_true ⟨rfl, key :: keys, ?_, hshown, rfl⟩ ⟨hperm, hassigned⟩
              exact hcurrent.nodup_iff.mpr (Db.nodup_userRoles hdb)
          · obtain rfl := db.app_unique happ' hmemApp hcode' hcode
            exact Or.inl hst

/-- **When the reason of a denial is the case**: exactly if the app is enabled or the user
has no roles in it, for the agent as for a check that finds nothing in the cache. -/
theorem denial_reason_exact (cfg : Config) {s : Server c} (hdb : s.db.Reachable) (hs : s.Healthy) :
    (∀ req query a u p, AuthAgent.field req.appCode query.appCode = a →
      AuthAgent.field req.userId query.userId = u → AuthAgent.field req.permKey query.permKey = p →
      a ≠ "" ∧ u ≠ "" ∧ p ≠ "" → ((AuthAgent.check req query).run s).1.1.allowed = some false →
        (s.db.Truthful a u p ((AuthAgent.check req query).run s).1.1 ↔
          s.db.Explicable a u p)) ∧
    ∀ req : CheckRequest, req.Complete →
      s.cache.peek s.nextNow (AuthService.cacheKey req.appCode req.userId) = none →
      ((AuthService.check cfg req).run s).1.allowed = some false →
        (s.db.Truthful req.appCode req.userId req.permKey ((AuthService.check cfg req).run s).1 ↔
          s.db.Explicable req.appCode req.userId req.permKey) := by
  have hexplain : ∀ (σ : DaoState c) a u p, σ.Healthy → σ.db = s.db →
      (s.db.Truthful a u p ((explainDenial a u p "").run σ).1 ↔ s.db.Explicable a u p) := by
    intro σ a u p hσ hdbσ
    have hsays := (explainDenial_reads a u p "").result hσ
    rw [hdbσ] at hsays
    exact hsays.truthful_iff hdb.linked
  constructor
  · intro req query a u p ha hu hp hfields hdenied
    have hquiet := (PermissionDAO.checkPermission_reads a u p "").quiet (s.dao .authAgent)
    have hrun := AuthAgent.check_of_complete (s := s) ha hu hp hfields
    rw [hrun] at hdenied ⊢
    split at hdenied
    case isTrue => cases hdenied
    case isFalse hnot =>
      rw [if_neg hnot]
      exact hexplain _ a u p (hquiet.healthy (Server.healthy_dao hs _)) hquiet.db_eq
  · intro req hreq hpeek hdenied
    have hquiet := AuthService.loadPermissions_quiet req.appCode req.userId (s.dao .authService)
    have hrun : ((AuthService.check cfg req).run s).1 = _ := AuthService.check_of_miss hreq hpeek
    rw [hrun] at hdenied ⊢
    split at hdenied
    case isTrue => cases hdenied
    case isFalse hnot =>
      rw [if_neg hnot]
      exact hexplain _ _ _ _ (hquiet.healthy (Server.healthy_dao hs _)) hquiet.db_eq

/-- The agent tells a user without roles so. -/
theorem denial_reason_exact_agent :
    let s : Server .binary := .start 0
    s.db.Truthful "qq_bot" "42" "member:kick"
      ((AuthAgent.check ⟨"qq_bot", "42", "member:kick", ""⟩ {}).run s).1.1 := by
  have htruthful : ∀ s : Server .binary, s.db = Db.initial 0 → s.Healthy →
      (∀ app ∈ s.db.sysApps, app.status = 1) ∧
        ((AuthAgent.check ⟨"qq_bot", "42", "member:kick", ""⟩ {}).run s).1.1.allowed =
          some false →
      s.db.Truthful "qq_bot" "42" "member:kick"
        ((AuthAgent.check ⟨"qq_bot", "42", "member:kick", ""⟩ {}).run s).1.1 := by
    intro s hs hhealthy h
    obtain ⟨henabled, hdenied⟩ := h
    obtain ⟨hagent, -⟩ := denial_reason_exact { crypt := fun _ hash => some hash }
      (.initial hs) hhealthy
    refine (hagent _ {} "qq_bot" "42" "member:kick" rfl rfl rfl (by decide) hdenied).mpr ?_
    exact fun app happ _ => Or.inl (henabled app happ)
  refine htruthful (.start 0) (Server.db_start 0) (fun o ho => by cases ho) ?_
  rw [Server.start_eq_seeded]
  decide +kernel

/-- The app is disabled, and the agent tells a user who is assigned a role that there is
none. -/
theorem roles_hidden_in_disabled_app :
    let cfg : Config := { crypt := fun _ hash => some hash }
    let s : Server .binary := run (Server.step cfg) (.start 0)
      [⟨.login "admin" "pw" "t", {}⟩,
        ⟨.edit (.updateApp "qq_bot" none none (some 0)) (some "Bearer t"), {}⟩]
    let r := ((AuthAgent.check ⟨"qq_bot", "100001", "member:kick", ""⟩ {}).run (s.facing {})).1.1
    s.db.Reachable ∧ r.allowed = some false ∧ s.db.PermissionExists "qq_bot" "member:kick" ∧
      s.db.AssignedRole "qq_bot" "100001" "admin" ∧
      r.reason = "用户不存在或未分配任何角色" ∧ r.currentRoles = "无" := by
  intro cfg s
  refine ⟨Server.reachable_run cfg (.initial (Server.db_start 0)) _, ?_⟩
  simp only [s, Server.start_eq_seeded]
  decide +kernel

end SiqiAuth
