import SiqiAuth.Service.LostInvalidation
import SiqiAuth.Store.PageBorders

/-!
# The arithmetic of pages

The listing handlers replace a page or a page size that is not positive, and pass the rest on as
it is.  The position that a page starts at is computed in 32 bits, where it may wrap around: a
page far beyond the last may show the first one again.

## Main definitions

* `AdminService.slice` — the page that should be shown.
* `AdminService.sortedApps` and its siblings — the entries, in the order of one answer.
* `Lists.page_eq_iff` — when a listing function returns the right page.
* `paging_exact_iff` — when the handlers do.
-/

namespace SiqiAuth
open Lib

variable {c : Collation} {α β γ : Type}

namespace AdminService

/-- The entries at positions `(page - 1) * size` up to `page * size - 1`. -/
def slice (page size : ℤ) (xs : List α) : List α :=
  (xs.drop ((page - 1) * size).toNat).take size.toNat

section Sorted
variable (σ : DaoState c)

/-- The apps that match, in the order in which the statement to come sorts them. -/
def sortedApps (n : Option String) (st : Option ℤ) : List SysApp :=
  orderByDesc (fun a => (a.id : ℤ)) (arrange (σ.picks 2) (σ.db.snapshot.selectApps n st))

/-- The users of a role, likewise. -/
def sortedRoleUsers (a k : String) : List UserInfo :=
  (orderByDesc (fun x => x.1.createdAt) ((σ.db.snapshot.selectAppId a).head?.elim [] fun n =>
    arrange (σ.picks 4) (σ.db.snapshot.selectRoleUsers n k))).map
      fun x => ⟨x.1.appUserId, x.1.createdAt⟩

/-- The users with their roles, likewise. -/
def sortedUserRoles (a : String) (userId : Option String) : List PermissionDAO.UserRoleData :=
  (orderByDesc (fun g => PermissionDAO.firstCreated g.1 g.2)
    ((σ.db.snapshot.selectAppId a).head?.elim [] fun n =>
      groups (sameUser c)
        (arrange (σ.picks 4) (σ.db.snapshot.selectUserRoleData n (userId.filter (· ≠ "")))))).map
    (PermissionDAO.userRoleData (c := c))

/-- The audit log, likewise. -/
def sortedAuditLogs (f : Db.AuditFilter) : List SysAuditLog :=
  orderByDesc (fun l => l.createdAt) (arrange (σ.picks 2) (σ.db.selectAuditLogs f))

end Sorted

theorem one_le_positiveOr {dflt : ℤ} (h : 1 ≤ dflt) (n : ℤ) : 1 ≤ positiveOr dflt n := by
  unfold positiveOr
  split <;> omega

end AdminService

open AdminService

/-! ## A listing function -/

section Combinator
variable {list : ℤ → ℤ → Dao c (List β × ℕ)} {rows : Db c → List ℕ → List α} {key : α → ℤ}
  {entry : α → β} {total : Db c → ℕ} {i : ℕ}

/-- **When a page is the right one**: its position fits, or it is beyond the last entry, and so is
the position that comes of it. -/
theorem Lists.page_eq_iff (h : Lists list rows key entry total i) {σ : DaoState c}
    (hσ : σ.Healthy) {page size : ℤ} (hpage : 1 ≤ page) (hsize : 1 ≤ size) {n : ℕ}
    (hn : (rows σ.db (σ.picks i)).length = n)
    (hnodup : ((orderByDesc key (rows σ.db (σ.picks i))).map entry).Nodup) :
    ((list page size).run σ).1.1 =
        slice page size ((orderByDesc key (rows σ.db (σ.picks i))).map entry) ↔
      OffsetFits n ((page - 1) * size) := by
  have hstart : 0 ≤ (page - 1) * size := mul_nonneg (by omega) (by omega)
  have hpositive : 0 < size.toNat := by omega
  have hlength : ((orderByDesc key (rows σ.db (σ.picks i))).map entry).length = n := by
    rw [List.length_map, (orderByDesc_perm _ _).length_eq, hn]
  rw [← fetches_iff_offsetFits hstart, ← hlength, ← pageOffset_eq,
    ← pageAt_eq_iff hnodup hpositive, h page size σ (by omega) hσ, map_pageAt]
  rfl

end Combinator

/-! ## The handlers -/

/-- In a session, a request with all its parameters is answered by the DAO. -/
theorem Server.reply_view (cfg : Config) {s : Server c} {req : ViewRequest} {header : Option String}
    {env : Env} (hsession : ((s.facing env).session header).isSome = true)
    (hreq : "" ∉ (req.view : View c).required) : s.reply cfg ⟨.view req header, env⟩ =
      .view ((req.view : View c).body.run ((s.facing env).dao .adminService)).1 := by
  obtain ⟨session, hsession⟩ := Option.isSome_iff_exists.mp hsession
  have hrun : (view (req.view : View c) header).run (s.facing env) =
      (call .adminService (req.view : View c).body).run ((s.facing env).gated header) := by
    rw [run_view_some hsession, viewAuthorized, if_neg hreq]
  have hdao : ((s.facing env).gated header).dao .adminService = (s.facing env).dao .adminService :=
    dao_gated _ _ _
  refine congrArg Reply.view ((congrArg Prod.fst hrun).trans ?_)
  rw [run_call, hdao]

section Handlers
variable {σ : DaoState c} (hσ : σ.Healthy) {page size : ℤ} (hpage : 1 ≤ page) (hsize : 1 ≤ size)
include hσ hpage hsize

theorem listApps_page_iff (n : Option String) (st : Option ℤ) :
    ((PermissionDAO.listApps page size n st).run σ).1.1 = slice page size (sortedApps σ n st) ↔
      OffsetFits (σ.db.snapshot.selectApps n st).length ((page - 1) * size) := by
  have hnodup : (sortedApps σ n st).Nodup := by
    refine ((orderByDesc_perm _ _).trans (arrange_perm _ _)).nodup_iff.mpr ?_
    exact σ.db.sysApps.nodup_rows.filter _
  have hiff := (PermissionDAO.listApps_lists n st).page_eq_iff hσ hpage hsize
    (length_arrange _ _) (by rwa [List.map_id])
  rwa [List.map_id] at hiff

theorem listAuditLogs_page_iff (a action operatorId targetId : Option String)
    (startTime endTime : Option ℤ) :
    let f : Db.AuditFilter := ⟨a.filter (· ≠ ""), action.filter (· ≠ ""),
      operatorId.filter (· ≠ ""), targetId.filter (· ≠ ""), startTime, endTime⟩
    ((PermissionDAO.listAuditLogs page size a action operatorId targetId startTime
        endTime).run σ).1.1 = slice page size (sortedAuditLogs σ f) ↔
      OffsetFits (σ.db.selectAuditLogs f).length ((page - 1) * size) := by
  intro f
  have hnodup : (sortedAuditLogs σ f).Nodup := by
    refine ((orderByDesc_perm _ _).trans (arrange_perm _ _)).nodup_iff.mpr ?_
    exact σ.db.sysAuditLogs.nodup_rows.filter _
  have hiff := (PermissionDAO.listAuditLogs_lists a action operatorId targetId startTime
    endTime).page_eq_iff hσ hpage hsize (length_arrange _ _) (by rwa [List.map_id])
  rwa [List.map_id] at hiff

theorem getRoleUsers_page_iff (hdb : σ.db.Linked) (a k : String) :
    (((PermissionDAO.getRoleUsers a k page size).run σ).1.1.map fun u => ⟨u.1, u.2⟩) =
        slice page size (sortedRoleUsers σ a k) ↔
      OffsetFits (σ.db.roleUsers a k).length ((page - 1) * size) := by
  have hrows := roleUsers_arrange σ.db a k (σ.picks 4)
  have hnodup : ((orderByDesc (fun x : SysUserRole × SysRole => x.1.createdAt)
      ((σ.db.snapshot.selectAppId a).head?.elim [] fun n =>
        arrange (σ.picks 4) (σ.db.snapshot.selectRoleUsers n k))).map fun x =>
          (x.1.appUserId, x.1.createdAt)).Nodup := by
    refine ((orderByDesc_perm _ _).map _).nodup_iff.mpr ?_
    rw [hrows]
    exact (arrange_perm _ _).nodup_iff.mpr (nodup_roleUsers hdb a k)
  have hlength := congrArg List.length hrows
  rw [List.length_map, length_arrange] at hlength
  have hinj : Function.Injective fun u : String × DateTime => UserInfo.mk u.1 u.2 := by
    rintro ⟨u, t⟩ ⟨u', t'⟩ h
    simpa using h
  have hiff := (PermissionDAO.getRoleUsers_lists a k).page_eq_iff hσ hpage hsize hlength hnodup
  rw [← hiff, ← (List.map_injective_iff.mpr hinj).eq_iff]
  simp only [slice, sortedRoleUsers, List.map_take, List.map_drop, List.map_map]
  rfl

theorem listUserRoles_page_iff (a : String) (userId : Option String) :
    ((PermissionDAO.listUserRoles a page size userId).run σ).1.1 =
        slice page size (sortedUserRoles σ a userId) ↔
      OffsetFits (σ.db.listedUsers a userId).length ((page - 1) * size) := by
  have hrows := listedUsers_perm σ.db a userId (σ.picks 4)
  have hperm : ((sortedUserRoles σ a userId).map fun e => (c.value e.userId, e.createdAt)).Perm
      (σ.db.listedUsers a userId) := by
    rw [sortedUserRoles, List.map_map]
    exact ((orderByDesc_perm _ _).map _).trans hrows
  have hlength := hrows.length_eq
  rw [List.length_map] at hlength
  exact (PermissionDAO.listUserRoles_lists a userId).page_eq_iff hσ hpage hsize hlength
    (List.Nodup.of_map _ (hperm.nodup_iff.mpr (nodup_listedUsers σ.db a userId)))

end Handlers
/-- **When a listing handler shows the right page**, of whatever page and page size it is asked
for: the position of the page fits in 32 bits, or it is beyond the last entry, and so is the
position that it wraps around to, unless that is refused. -/
theorem paging_exact_iff (cfg : Config) {s : Server c} {header : Option String} {env : Env}
    (hsession : ((s.facing env).session header).isSome = true) (hs : (s.facing env).Healthy)
    (page pageSize : ℤ) :
    let σ := (s.facing env).dao .adminService
    let p := positiveOr 1 page
    (∀ n st, let size := positiveOr 20 pageSize
      ∃ apps total, s.reply cfg ⟨.view (.listApps page pageSize n st) header, env⟩ =
          .view (.ok (.apps apps total p size)) ∧
        (apps = slice p size (sortedApps σ n st) ↔
          OffsetFits (s.db.snapshot.selectApps n st).length ((p - 1) * size))) ∧
    (∀ a k, s.db.Reachable → a ≠ "" → k ≠ "" → let size := positiveOr 10 pageSize
      ∃ users total, s.reply cfg ⟨.view (.getRoleUsers a k page pageSize) header, env⟩ =
          .view (.ok (.roleUsers users total p size)) ∧
        (users = slice p size (sortedRoleUsers σ a k) ↔
          OffsetFits (s.db.roleUsers a k).length ((p - 1) * size))) ∧
    (∀ a userId, a ≠ "" → let size := positiveOr 20 pageSize
      ∃ users total, s.reply cfg ⟨.view (.listUserRoles a page pageSize userId) header, env⟩ =
          .view (.ok (.userRoles users total p size)) ∧
        (users = slice p size (sortedUserRoles σ a userId) ↔
          OffsetFits (s.db.listedUsers a userId).length ((p - 1) * size))) ∧
    ∀ a action operatorId targetId startTime endTime, let size := positiveOr 20 pageSize
      let f : Db.AuditFilter := ⟨a.filter (· ≠ ""), action.filter (· ≠ ""),
        operatorId.filter (· ≠ ""), targetId.filter (· ≠ ""), startTime, endTime⟩
      ∃ logs total, s.reply cfg ⟨.view (.listAuditLogs page pageSize a action operatorId targetId
          startTime endTime) header, env⟩ = .view (.ok (.auditLogs logs total p size)) ∧
        (logs = slice p size (sortedAuditLogs σ f) ↔
          OffsetFits (s.db.selectAuditLogs f).length ((p - 1) * size)) := by
  intro σ p
  have hσ : σ.Healthy := Server.healthy_dao hs _
  have hpage : 1 ≤ p := one_le_positiveOr (by decide) page
  have hten : 1 ≤ positiveOr 10 pageSize := one_le_positiveOr (by decide) pageSize
  have htwenty : 1 ≤ positiveOr 20 pageSize := one_le_positiveOr (by decide) pageSize
  refine ⟨fun n st => ?_, fun a k hdb ha hk => ?_, fun a userId ha => ?_,
    fun a action operatorId targetId startTime endTime => ?_⟩
  · exact ⟨_, _, Server.reply_view cfg hsession List.not_mem_nil,
      listApps_page_iff hσ hpage htwenty n st⟩
  · have hreq : "" ∉ (ViewRequest.view (c := c) (.getRoleUsers a k page pageSize)).required := by
      simp [ViewRequest.view, getRoleUsers, ha.symm, hk.symm]
    exact ⟨_, _, Server.reply_view cfg hsession hreq,
      getRoleUsers_page_iff hσ hpage hten hdb.linked a k⟩
  · have hreq :
        "" ∉ (ViewRequest.view (c := c) (.listUserRoles a page pageSize userId)).required := by
      simp [ViewRequest.view, listUserRoles, ha.symm]
    exact ⟨_, _, Server.reply_view cfg hsession hreq,
      listUserRoles_page_iff hσ hpage htwenty a userId⟩
  · exact ⟨_, _, Server.reply_view cfg hsession List.not_mem_nil,
      listAuditLogs_page_iff hσ hpage htwenty a action operatorId targetId startTime endTime⟩

/-- The second page of two apps each is the third app. -/
theorem paging_exact_iff_listApps :
    let cfg : Config := { crypt := fun _ _ => none }
    let s := Server.loggedIn
    let σ := (s.facing {}).dao .adminService
    ∃ apps total, s.reply cfg ⟨.view (.listApps 2 2 none none) (some "Bearer t"), {}⟩ =
        .view (.ok (.apps apps total 2 2)) ∧
      apps = slice 2 2 (sortedApps σ none none) := by
  intro cfg s σ
  have hsession : ((s.facing {}).session (some "Bearer t")).isSome = true := by
    simp only [s, Server.loggedIn_eq_seeded]
    decide +kernel
  obtain ⟨happs, -⟩ := paging_exact_iff cfg hsession s.healthy_facing 2 2
  obtain ⟨apps, total, hreply, hiff⟩ := happs none none
  exact ⟨apps, total, hreply, hiff.mpr (Or.inl (by decide))⟩

/-- Three apps, on pages of four: page 1073741825 starts at position 2 ^ 32, and shows them all. -/
theorem far_page_shows_the_first :
    let cfg : Config := { crypt := fun _ _ => none }
    let s := Server.loggedIn
    let σ := (s.facing {}).dao .adminService
    ∃ apps, s.reply cfg ⟨.view (.listApps 1073741825 4 none none) (some "Bearer t"), {}⟩ =
        .view (.ok (.apps apps 3 1073741825 4)) ∧ apps.length = 3 ∧
      slice 1073741825 4 (sortedApps σ none none) = [] := by
  intro cfg s σ
  refine ⟨sortedApps σ none none, ?_⟩
  simp only [σ, s, Server.loggedIn_eq_seeded]
  decide +kernel

end SiqiAuth
