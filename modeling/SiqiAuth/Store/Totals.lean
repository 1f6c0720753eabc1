import SiqiAuth.Store.ListedKeys

/-!
# Totals

The total of a listing is counted by a statement of its own.  Three listings count the rows that
they page.  `listUserRoles` counts the users that have an assignment, and pages those that have
one of a role that exists.

## Main definitions

* `pageOf` — a page, counted from zero.
* `ReadsToEnd` — pages are read up to the first empty one.
* `Db.EachHasRole` — every user who is counted has a role that exists.
* `totals_match_iff` — when the total is the number of entries on the pages.
-/

namespace SiqiAuth
open Lib

variable {c : Collation} {α β : Type}

/-- What `list` returns for page `p`, counted from zero. -/
def pageOf (list : ℤ → ℤ → Dao c (List β × ℕ)) (size : ℤ) (σ : DaoState c) (p : ℕ) : List β × ℕ :=
  ((list (p + 1) size).run σ).1

/-- On tables that stay as they are, and with nothing failing, page `m` is the first empty one. -/
structure ReadsToEnd (list : ℤ → ℤ → Dao c (List β × ℕ)) (db : Db c) (size : ℤ)
    (σ : ℕ → DaoState c) (m : ℕ) : Prop where
  same : ∀ p, (σ p).db = db
  healthy : ∀ p, (σ p).Healthy
  inRange : m * size < 2 ^ 31
  empty : (pageOf list size (σ m) m).1 = []
  nonempty : ∀ p < m, (pageOf list size (σ p) p).1 ≠ []

/-- Each page reports as the total what the pages before page `m` have entries. -/
def TotalMatches (list : ℤ → ℤ → Dao c (List β × ℕ)) (size : ℤ) (σ : ℕ → DaoState c) (m : ℕ) :
    Prop :=
  ∀ p ≤ m, (pageOf list size (σ p) p).2 =
    ((List.range m).map fun p => (pageOf list size (σ p) p).1.length).sum

section Combinators
variable {list : ℤ → ℤ → Dao c (List β × ℕ)} {rows : Db c → List ℕ → List α} {key : α → ℤ}
  {entry : α → β} {total : Db c → ℕ} {i : ℕ} {db : Db c} {size : ℤ} {σ : ℕ → DaoState c} {m : ℕ}

theorem Lists.pageOf_eq (h : Lists list rows key entry total i) (hsize : 0 < size)
    {τ : DaoState c} (hτ : τ.Healthy) {p : ℕ} (hp : p * size < 2 ^ 31) : pageOf list size τ p =
      ((pageAt size.toNat (orderByDesc key (rows τ.db (τ.picks i)))
        (some (p * size.toNat))).map entry, total τ.db) := by
  rw [pageOf, h _ _ τ hsize hτ, sqlOffset_pageOffset hsize hp]

/-- If the order of the answers has no bearing on how many rows there are, the pages up to the
first empty one have them all. -/
theorem Lists.totalMatches_iff (h : Lists list rows key entry total i) {n : ℕ}
    (hn : ∀ picks, (rows db picks).length = n) (hsize : 0 < size)
    (hread : ReadsToEnd list db size σ m) : TotalMatches list size σ m ↔ total db = n := by
  have hrange : ∀ p ≤ m, p * size < 2 ^ 31 := by
    intro p hp
    have hmul : (p : ℤ) * size ≤ m * size :=
      mul_le_mul_of_nonneg_right (by omega) (by omega)
    have hm := hread.inRange
    omega
  have hpage : ∀ p ≤ m, pageOf list size (σ p) p =
      ((pageAt size.toNat (orderByDesc key (rows db ((σ p).picks i)))
        (some (p * size.toNat))).map entry, total db) := by
    intro p hp
    rw [h.pageOf_eq hsize (hread.healthy p) (hrange p hp), hread.same]
  have hlength : ∀ p, (orderByDesc key (rows db ((σ p).picks i))).length = n := by
    intro p
    rw [(orderByDesc_perm _ _).length_eq, hn]
  have hend : n ≤ m * size.toNat := by
    have hempty := hread.empty
    rw [hpage m (le_refl m), List.map_eq_nil_iff, pageAt_eq_nil_iff (by omega), hlength] at hempty
    exact hempty _ rfl
  have hsum : ((List.range m).map fun p => (pageOf list size (σ p) p).1.length).sum = n := by
    have hlengths := sum_length_pageAt hlength size.toNat m
    rw [min_eq_right hend] at hlengths
    rw [← hlengths]
    refine congrArg List.sum (List.map_congr_left fun p hp => ?_)
    have hp := List.mem_range.mp hp
    rw [hpage p (by omega), List.length_map]
  rw [TotalMatches, hsum]
  constructor
  · intro hall
    have hlast := hall m (le_refl m)
    rwa [hpage m (le_refl m)] at hlast
  · intro heq p hp
    rw [hpage p hp]
    exact heq

end Combinators

/-! ## Users without a role that exists -/

/-- Every user who has an assignment in the app, and whom the filter lets through, has one of a
role that exists. -/
def Db.EachHasRole (db : Db c) (a : String) (userId : Option String) : Prop :=
  ∀ app ∈ db.sysApps, c.same app.appCode a = true → ∀ ur ∈ db.sysUserRoles, ur.appId = app.id →
    (userId.filter (· ≠ "")).all (fun u => c.same ur.appUserId u) = true →
      db.rolesOf app ur.appUserId ≠ []

instance (db : Db c) (a : String) (userId : Option String) : Decidable (db.EachHasRole a userId) :=
  inferInstanceAs (Decidable (∀ app ∈ db.sysApps, _ → ∀ ur ∈ db.sysUserRoles, _ → _ → _))

section Users
variable {db : Db c} {userId : Option String}

theorem mem_selectUsers {n : ℕ} {ur : SysUserRole} : ur ∈ db.snapshot.selectUsers n userId ↔
    ur ∈ db.sysUserRoles ∧ ur.appId = n ∧ userId.all (fun u => c.same ur.appUserId u) = true := by
  simp [Snapshot.selectUsers]

theorem mem_counted {n : ℕ} {k : c.Value} :
    k ∈ (distinct c.same ((db.snapshot.selectUsers n userId).map SysUserRole.appUserId)).map
      c.value ↔ ∃ ur ∈ db.snapshot.selectUsers n userId, c.value ur.appUserId = k := by
  rw [mem_map_distinct c.same_iff_value]
  simp

/-- Rows are of one user if the column takes their users to be equal. -/
theorem sameUser_iff (x y : Snapshot.UserRoleJoin) :
    sameUser c x y = true ↔ c.value x.ur.appUserId = c.value y.ur.appUserId :=
  c.same_iff_value _ _

/-- A user who is listed is counted, and has a role. -/
theorem counted_of_listed {app : SysApp} {x : Snapshot.UserRoleJoin}
    (hx : x ∈ db.snapshot.selectUserRoleData app.id userId) :
    x.ur ∈ db.snapshot.selectUsers app.id userId ∧ x.role ∈ db.rolesOf app x.ur.appUserId := by
  obtain ⟨ur, r, p⟩ := x
  obtain ⟨⟨hur, hr, hid⟩, happ, hall⟩ := Snapshot.exists_mem_selectUserRoleData.mp ⟨p, hx⟩
  exact ⟨mem_selectUsers.mpr ⟨hur, happ, hall⟩,
    Db.mem_rolesOf.mpr ⟨hr, ur, hur, happ, c.same_refl _, hid⟩⟩

variable (db userId) in
theorem listed_subset_counted (app : SysApp) :
    (distinct (sameUser c)
      (db.snapshot.selectUserRoleData app.id userId)).map (fun x => c.value x.ur.appUserId) ⊆
        (distinct c.same ((db.snapshot.selectUsers app.id userId).map SysUserRole.appUserId)).map
          c.value := by
  intro k hk
  obtain ⟨x, hx, rfl⟩ := List.mem_map.mp hk
  exact mem_counted.mpr ⟨x.ur, (counted_of_listed (mem_of_mem_distinct hx)).1, rfl⟩

theorem length_listed_le (app : SysApp) :
    (distinct (sameUser c)
      (db.snapshot.selectUserRoleData app.id userId)).length ≤
        PermissionDAO.countUsers c (db.snapshot.selectUsers app.id userId) := by
  have hle := (List.subperm_of_subset (nodup_map_distinct sameUser_iff _)
    (listed_subset_counted db userId app)).length_le
  rwa [List.length_map, List.length_map] at hle

/-- The users counted are no more than those listed exactly if each has a role. -/
theorem countUsers_eq_iff (app : SysApp) : PermissionDAO.countUsers c
      (db.snapshot.selectUsers app.id userId) =
        (distinct (sameUser c)
          (db.snapshot.selectUserRoleData app.id userId)).length ↔
    ∀ ur ∈ db.snapshot.selectUsers app.id userId, db.rolesOf app ur.appUserId ≠ [] := by
  have hlength := length_eq_iff_subset (nodup_map_distinct sameUser_iff _)
    (listed_subset_counted db userId app)
    (nodup_map_distinct c.same_iff_value _)
  rw [List.length_map, List.length_map] at hlength
  refine hlength.trans ⟨fun h ur hur => ?_, fun h k hk => ?_⟩
  · obtain ⟨x, hx, hsame⟩ := List.mem_map.mp (h (mem_counted.mpr ⟨ur, hur, rfl⟩))
    obtain ⟨hr, ur', hur', happ, hsame', hid⟩ :=
      Db.mem_rolesOf.mp (counted_of_listed (mem_of_mem_distinct hx)).2
    refine List.ne_nil_of_mem (a := x.role) (Db.mem_rolesOf.mpr ⟨hr, ur', hur', happ, ?_, hid⟩)
    exact c.same_trans _ _ _ hsame' ((c.same_iff_value _ _).mpr hsame)
  · obtain ⟨ur, hur, rfl⟩ := mem_counted.mp hk
    obtain ⟨r, hr⟩ := List.exists_mem_of_ne_nil _ (h ur hur)
    obtain ⟨hr, ur', hur', happ, hsame, hid⟩ := Db.mem_rolesOf.mp hr
    obtain ⟨-, -, hall⟩ := mem_selectUsers.mp hur
    have hall' : userId.all (fun u => c.same ur'.appUserId u) = true := by
      simpa only [c.same_congr_left hsame] using hall
    obtain ⟨p, hmem⟩ := (Snapshot.exists_mem_selectUserRoleData (s := db.snapshot)).mpr
      ⟨⟨hur', hr, hid⟩, happ, hall'⟩
    refine (mem_map_distinct sameUser_iff).mpr (List.mem_map.mpr ⟨⟨ur', r, p⟩, hmem, ?_⟩)
    exact (c.same_iff_value _ _).mp hsame

/-- However its rows are delivered, `listUserRoles` lists the same number of users. -/
theorem length_groups_arrange (picks : List ℕ) (rows : List Snapshot.UserRoleJoin) :
    (groups (sameUser c) (arrange picks rows)).length =
      (distinct (sameUser c) rows).length := by
  have hperm := map_distinct_perm (sameUser_iff (c := c)) (arrange_perm picks rows)
  simpa [groups] using hperm.length_eq

variable (userId) in
theorem eachHasRole_iff {a : String} {n : ℕ} (hn : (db.snapshot.selectAppId a).head? = some n) :
    ∃ app : SysApp, app.id = n ∧ (db.EachHasRole a userId ↔
      ∀ ur ∈ db.snapshot.selectUsers app.id (userId.filter (· ≠ "")),
        db.rolesOf app ur.appUserId ≠ []) := by
  obtain ⟨app, happ, hcode, rfl⟩ := DaoOp.exists_app_of_head? hn
  refine ⟨app, rfl, ?_⟩
  simp only [mem_selectUsers]
  constructor
  · intro h ur hur
    exact h app happ hcode ur hur.1 hur.2.1 hur.2.2
  · intro h app' happ' hcode' ur hur hid hall
    obtain rfl := db.app_unique happ happ' hcode hcode'
    exact h ur ⟨hur, hid, hall⟩

/-- Of an app that does not exist nothing is asked. -/
theorem eachHasRole_of_none {a : String} (h : (db.snapshot.selectAppId a).head? = none) :
    db.EachHasRole a userId := by
  intro app happ hcode
  rw [db.head?_selectAppId happ hcode] at h
  cases h

end Users

/-! ## The four functions -/

/-- **When the total is the number of entries on the pages**: for the apps, the users of a role
and the audit log it is; for the roles of the users exactly if every user counted has a role that
exists. -/
theorem totals_match_iff {db : Db c} {size : ℤ} (hsize : 1 ≤ size) {σ : ℕ → DaoState c} {m : ℕ} :
    (∀ n st, let list := fun page size => PermissionDAO.listApps page size n st
      ReadsToEnd list db size σ m → TotalMatches list size σ m) ∧
    (∀ a k, let list := fun page size => PermissionDAO.getRoleUsers a k page size
      ReadsToEnd list db size σ m → TotalMatches list size σ m) ∧
    (∀ a action operatorId targetId startTime endTime,
      let list := fun page size =>
        PermissionDAO.listAuditLogs page size a action operatorId targetId startTime endTime
      ReadsToEnd list db size σ m → TotalMatches list size σ m) ∧
    ∀ a userId, let list := fun page size => PermissionDAO.listUserRoles a page size userId
      ReadsToEnd list db size σ m → (TotalMatches list size σ m ↔ db.EachHasRole a userId) := by
  refine ⟨?_, ?_, ?_, ?_⟩
  · intro n st list hread
    exact ((PermissionDAO.listApps_lists n st).totalMatches_iff
      (fun picks => length_arrange picks _) hsize hread).mpr rfl
  · intro a k list hread
    refine ((PermissionDAO.getRoleUsers_lists a k).totalMatches_iff ?_ hsize hread).mpr rfl
    intro picks
    cases (db.snapshot.selectAppId a).head? with
    | none => rfl
    | some n => exact length_arrange picks _
  · intro a action operatorId targetId startTime endTime list hread
    exact ((PermissionDAO.listAuditLogs_lists a action operatorId targetId startTime
      endTime).totalMatches_iff (fun picks => length_arrange picks _) hsize hread).mpr rfl
  · intro a userId list hread
    cases hhead : (db.snapshot.selectAppId a).head? with
    | none =>
        refine ((PermissionDAO.listUserRoles_lists a userId).totalMatches_iff (n := 0) ?_ hsize
          hread).trans ?_
        · simp [hhead]
        · simp [hhead, eachHasRole_of_none hhead]
    | some n =>
        obtain ⟨app, rfl, hiff⟩ := eachHasRole_iff userId hhead
        rw [hiff, ← countUsers_eq_iff]
        have hlength : ∀ picks, ((db.snapshot.selectAppId a).head?.elim [] fun n =>
            groups (sameUser c)
              (arrange picks (db.snapshot.selectUserRoleData n (userId.filter (· ≠ ""))))).length =
            (distinct (sameUser c)
              (db.snapshot.selectUserRoleData app.id (userId.filter (· ≠ "")))).length := by
          intro picks
          rw [hhead]
          exact length_groups_arrange picks _
        have hmatches :=
          (PermissionDAO.listUserRoles_lists a userId).totalMatches_iff hlength hsize hread
        rw [hhead] at hmatches
        exact hmatches

/-- Eight users are counted and listed, on two pages. -/
theorem totals_match_iff_course_bot :
    let list := fun page size =>
      PermissionDAO.listUserRoles (c := .binary) "course_bot" page size none
    ReadsToEnd list (.initial 0) 5 (fun _ => .start 0) 2 ∧
      TotalMatches list 5 (fun _ => .start 0) 2 := by
  intro list
  have hpages : (pageOf list 5 (.start 0) 2).1 = [] ∧
      (∀ p < 2, (pageOf list 5 (.start 0) p).1 ≠ []) ∧
      (Db.initial 0 : Db .binary).EachHasRole "course_bot" none := by
    rw [DaoState.start_eq_seeded, Db.initial_eq_seeded]
    decide +kernel
  obtain ⟨hempty, hnonempty, heach⟩ := hpages
  have hhealthy : (DaoState.start 0 : DaoState .binary).Healthy := fun o ho => by cases ho
  have hread : ReadsToEnd list (.initial 0) 5 (fun _ => .start 0) 2 :=
    ⟨fun _ => DaoState.db_start 0, fun _ => hhealthy, by decide, hempty, hnonempty⟩
  exact ⟨hread, (totals_match_iff (by decide)).2.2.2 "course_bot" none hread |>.mpr heach⟩

/-- After a role has been deleted its users are counted, and not listed. -/
theorem totals_match_broken :
    let σ : DaoState .binary := run DaoState.call (.start 0)
      [⟨.deleteRole "course_bot" "student", [], 0⟩]
    let list := fun page size =>
      PermissionDAO.listUserRoles (c := .binary) "course_bot" page size none
    σ.db.Reachable ∧ ReadsToEnd list σ.db 5 (fun _ => σ) 1 ∧
      ¬ TotalMatches list 5 (fun _ => σ) 1 := by
  intro σ list
  have hpages : σ.Healthy ∧ (pageOf list 5 σ 1).1 = [] ∧ (pageOf list 5 σ 0).1.length = 4 ∧
      (pageOf list 5 σ 0).2 = 8 := by
    simp only [σ, DaoState.start_eq_seeded]
    decide +kernel
  obtain ⟨hσ, hempty, hlength, htotal⟩ := hpages
  refine ⟨.run_calls (.initial (DaoState.db_start 0)) _,
    ⟨fun _ => rfl, fun _ => hσ, by decide, hempty, fun p hp => ?_⟩, fun hall => ?_⟩
  · obtain rfl : p = 0 := by omega
    intro hnil
    simp [hnil] at hlength
  · have hsum := hall 0 (by omega)
    simp [hlength, htotal] at hsum

end SiqiAuth
