import SiqiAuth.Service.Denial

/-!
# The roles that a denial suggests

A denial comes from one query and the roles it shows from two others.  In every state that
operations can reach, the suggested roles of an enabled app are those that help: the user has
none of them, each can be assigned and then the check is allowed, and no other role does as
much.

## Main definitions

* `Db.getUserRoles`, `Db.getRolesWithPermission` — what these functions answer on some tables.
* `Db.Useful` — what is to be expected of the roles that a denial suggests.
* `suggestions_exact` — they are as expected.
-/

namespace SiqiAuth
open Lib

variable {c : Collation}

namespace Db

/-- What `getUserRoles` answers on these tables when nothing fails. -/
def getUserRoles (db : Db c) (a u : String) : List String :=
  ((PermissionDAO.getUserRoles a u).run ⟨db, "", [], 0⟩).1

/-- What `getRolesWithPermission` answers on these tables when nothing fails. -/
def getRolesWithPermission (db : Db c) (a p : String) : List String :=
  ((PermissionDAO.getRolesWithPermission a p).run ⟨db, "", [], 0⟩).1

variable {db : Db c} {a u p k : String} {app : SysApp} {role : SysRole} {perm : SysPermission}

theorem getUserRoles_perm (db : Db c) (a u : String) :
    (db.getUserRoles a u).Perm ((db.snapshot.selectUserRoles a u).map fun x => x.2.roleKey) :=
  (PermissionDAO.getUserRoles_reads a u).result fun _ ho => absurd ho List.not_mem_nil

theorem getRolesWithPermission_perm (db : Db c) (a p : String) :
    (db.getRolesWithPermission a p).Perm
      (((db.snapshot.selectAppId a).head?.toList.flatMap fun n =>
        db.snapshot.selectRolesWithPermission n p).map fun x => x.1.1.roleKey) :=
  (PermissionDAO.getRolesWithPermission_reads a p).result fun _ ho => absurd ho List.not_mem_nil

/-- `getRolesWithPermission` lists the roles of the app that are bound to a permission with
the key. -/
theorem mem_getRolesWithPermission : k ∈ db.getRolesWithPermission a p ↔
    ∃ app role, db.NamesRole a k app role ∧ role.roleKey = k ∧ ∃ perm ∈ db.sysPermissions,
      db.Has (.binding role.id perm.id) ∧ c.same perm.permKey p = true := by
  rw [(getRolesWithPermission_perm db a p).mem_iff]
  simp only [Snapshot.selectRolesWithPermission, List.mem_map, List.mem_flatMap,
    Option.mem_toList, List.mem_filter, mem_join, Bool.and_eq_true, beq_iff_eq]
  constructor
  · rintro ⟨x, ⟨n, hn, ⟨⟨hrole, hrp, hrid⟩, hperm, hpid⟩, happId, hkey⟩, rfl⟩
    obtain ⟨app, happ, hcode, rfl⟩ := (Snapshot.mem_selectAppId _).mp (List.mem_of_head? hn)
    exact ⟨app, x.1.1, ⟨happ, hcode, hrole, happId, c.same_refl _⟩, rfl, x.2, hperm,
      ⟨x.1.2, hrp, hrid.symm, hpid⟩, hkey⟩
  · rintro ⟨app, role, h, rfl, perm, hperm, ⟨rp, hrp, hrid, hpid⟩, hkey⟩
    exact ⟨((role, rp), perm), ⟨app.id, db.head?_selectAppId h.app_mem h.code,
      ⟨⟨h.role_mem, hrp, hrid.symm⟩, hperm, hpid⟩, h.appId, hkey⟩, rfl⟩

/-- A user who is assigned a role bound to the permission is not denied it. -/
theorem checkPermission_of_links (happ : app ∈ db.sysApps) (hcode : c.same app.appCode a = true)
    (hst : app.status = 1) (hperm : perm ∈ db.sysPermissions)
    (hkey : c.same perm.permKey p = true) {n : ℕ} (hassigned : db.Has (.assignment app.id u n))
    (hbound : db.Has (.binding n perm.id)) : db.checkPermission a u p = true :=
  checkPermission_iff.mpr ⟨app, happ, hcode, hst, n, hassigned, perm, hperm, hbound, hkey⟩

/-- What is to be expected of the roles suggested: the user has none of them; each can be
assigned, and then the check is allowed; and a role that does as much is among them. -/
structure Useful (db : Db c) (a u p : String) (current required : List String) : Prop where
  disjoint : ∀ k ∈ current, ∀ k' ∈ required, c.same k k' = false
  helps : ∀ k ∈ required, ∀ σ : DaoState c, σ.db = db → σ.Healthy →
    ((PermissionDAO.assignRoleToUser a u k).run σ).1 = true ∧
      ((PermissionDAO.assignRoleToUser a u k).run σ).2.db.checkPermission a u p = true
  complete : ∀ k, ∀ σ : DaoState c, σ.db = db →
    ((PermissionDAO.assignRoleToUser a u k).run σ).1 = true →
      ((PermissionDAO.assignRoleToUser a u k).run σ).2.db.checkPermission a u p = true →
        ∃ app role, db.NamesRole a k app role ∧ role.roleKey ∈ required

/-- In linked tables, the roles with a permission are of use to a user who is denied it. -/
theorem useful_of_denied (hdb : db.Linked)
    (hst : ∃ app ∈ db.sysApps, c.same app.appCode a = true ∧ app.status = 1)
    (hfits : u.length ≤ 128) (hdenied : db.checkPermission a u p = false) :
    db.Useful a u p (db.getUserRoles a u) (db.getRolesWithPermission a p) := by
  have hkept : varchar 128 u = u := varchar_of_le hfits
  obtain ⟨app, happ, hcode, hst⟩ := hst
  constructor
  · intro k hk k' hk'
    rw [(getUserRoles_perm db a u).mem_iff, mem_userRoles] at hk
    obtain ⟨⟨app₁, happ₁, hcode₁, ur, hur, hid, huser, role, hrole, hrid, rfl⟩, -⟩ := hk
    obtain ⟨app₂, role', hrole', rfl, perm, hperm, hbound, hkey⟩ :=
      mem_getRolesWithPermission.mp hk'
    obtain rfl := db.app_unique happ happ₁ hcode hcode₁
    obtain rfl := db.app_unique happ hrole'.app_mem hcode hrole'.code
    by_contra hsame
    have hown := hdb.assignment ur hur role hrole hrid
    obtain rfl := Table.eq_of_clash hrole hrole'.role_mem
      (by simpa [sysRolesSchema, hown, hid, hrole'.appId] using hsame)
    have hallowed := checkPermission_of_links happ hcode hst hperm hkey
      ⟨ur, hur, hid, huser, hrid.symm⟩ hbound
    simp [hdenied] at hallowed
  · rintro k hk σ rfl hσ
    obtain ⟨app₁, role, hrole, -, perm, hperm, hbound, hkey⟩ := mem_getRolesWithPermission.mp hk
    obtain rfl := σ.db.app_unique happ hrole.app_mem hcode hrole.code
    have hfree : ¬ σ.db.Has (.assignment app.id u role.id) := by
      intro hassigned
      have hallowed := checkPermission_of_links happ hcode hst hperm hkey hassigned hbound
      simp [hdenied] at hallowed
    have hnames : (DaoOp.assignRoleToUser a u k).Names σ.db (.assignment app.id u role.id) :=
      ⟨app, role, hrole, by rw [hkept]⟩
    have hdone : ((DaoOp.assignRoleToUser a u k).run.run σ).1 = true :=
      DaoOp.run_of_names hσ hnames hfits (by simp [hfree, DaoOp.creates])
    obtain ⟨x, hx⟩ := DaoOp.run_edits rfl hdb hdone
    have hassigns := hx.assigns
    rw [hkept] at hassigns
    refine ⟨hdone, (hassigns a u p).mpr (Or.inr ⟨c.same_refl _, c.same_refl _,
      ⟨app, happ, hcode, hst⟩, perm.permKey, ?_, hkey⟩)⟩
    exact mem_getRolePermissions.mpr ⟨app, role, hrole, perm, hperm, hbound, rfl⟩
  · rintro k σ rfl hdone hallowed
    have hrun : ((DaoOp.assignRoleToUser a u k).run.run σ).1 = true := hdone
    obtain ⟨x, hx⟩ := DaoOp.run_edits rfl hdb hrun
    rcases (hx.assigns a u p).mp hallowed with hbefore | ⟨-, -, -, key, hkey, hsame⟩
    · simp [hdenied] at hbefore
    · obtain ⟨app₁, role, hrole, perm, hperm, hbound, rfl⟩ := mem_getRolePermissions.mp hkey
      refine ⟨app₁, role, hrole, mem_getRolesWithPermission.mpr
        ⟨app₁, role, ?_, rfl, perm, hperm, hbound, hsame⟩⟩
      exact { hrole with key := c.same_refl _ }

end Db
/-! ## The agent -/

namespace AuthAgent
variable {req : CheckRequest} {query : Query} {a u p : String} {s t : Server c}

/-- An undisturbed check of the agent answers by the tables. -/
theorem allowed_of_checkPermission (ha : field req.appCode query.appCode = a)
    (hu : field req.userId query.userId = u) (hp : field req.permKey query.permKey = p)
    (hfields : a ≠ "" ∧ u ≠ "" ∧ p ≠ "") (ht : t.Healthy) :
    ((check req query).run t).1.1.allowed = some (t.db.checkPermission a u p) := by
  have hanswer := checkPermission_of_healthy (Server.healthy_dao ht .authAgent) a u p ""
  rw [(check_spec (Prod.mk.eta (p := (check req query).run t)).symm).2, ha, hu, hp, hanswer]
  simp [hfields]

/-- No failure makes it allow. -/
theorem checkPermission_of_allowed (ha : field req.appCode query.appCode = a)
    (hu : field req.userId query.userId = u) (hp : field req.permKey query.permKey = p)
    (h : ((check req query).run t).1.1.allowed = some true) :
    t.db.checkPermission a u p = true := by
  rw [(check_spec (Prod.mk.eta (p := (check req query).run t)).symm).2, ha, hu, hp] at h
  have hallowed := of_decide_eq_true (Option.some_inj.mp h)
  have hquiet : (⟨t.db, "", [], 0⟩ : DaoState c).Healthy := fun o ho => by cases ho
  obtain ⟨g, hg⟩ := PermissionDAO.checkPermission_sound hallowed.2
  exact ((PermissionDAO.checkPermission_reads a u p "").result hquiet).mpr ⟨g, hg⟩

/-- **The suggested roles are exactly the useful ones**, in every state that operations can
reach: of an enabled app and a permission that exists, a denial shows the roles that the user
has and those with the permission; no role is among both; each suggested one can be assigned,
and the same check is allowed then; and whenever a role could be assigned and the same check
is allowed then, it is among those suggested. -/
theorem suggestions_exact (hdb : s.db.Reachable) (hs : s.Healthy)
    (ha : field req.appCode query.appCode = a) (hu : field req.userId query.userId = u)
    (hp : field req.permKey query.permKey = p) (hfields : a ≠ "" ∧ u ≠ "" ∧ p ≠ "")
    (hst : ∃ app ∈ s.db.sysApps, c.same app.appCode a = true ∧ app.status = 1)
    (hperm : s.db.PermissionExists a p) (hfits : u.length ≤ 128)
    (hdenied : ((check req query).run s).1.1.allowed = some false) :
    ∃ current required : List String, current.Perm (s.db.getUserRoles a u) ∧
      required.Perm (s.db.getRolesWithPermission a p) ∧
      ((check req query).run s).1.1.currentRoles =
        (if current.isEmpty then "无" else ",".intercalate current) ∧
      ((check req query).run s).1.1.suggestRoles = ",".intercalate required ∧
      (∀ k ∈ current, ∀ k' ∈ required, c.same k k' = false) ∧
      (∀ k ∈ required, ∀ σ : DaoState c, σ.db = s.db → σ.Healthy →
        ((PermissionDAO.assignRoleToUser a u k).run σ).1 = true ∧
          ∀ t : Server c, t.db = ((PermissionDAO.assignRoleToUser a u k).run σ).2.db →
            t.Healthy → ((check req query).run t).1.1.allowed = some true) ∧
      ∀ k, ∀ σ : DaoState c, σ.db = s.db →
        ((PermissionDAO.assignRoleToUser a u k).run σ).1 = true →
          ∀ t : Server c, t.db = ((PermissionDAO.assignRoleToUser a u k).run σ).2.db →
            ((check req query).run t).1.1.allowed = some true →
              ∃ app role, s.db.NamesRole a k app role ∧ role.roleKey ∈ required := by
  have hanswer := allowed_of_checkPermission ha hu hp hfields hs
  have hno : s.db.checkPermission a u p = false := by
    rw [hdenied] at hanswer
    exact (Option.some_inj.mp hanswer).symm
  have huseful := Db.useful_of_denied hdb.linked hst hfits hno
  have hquiet := (PermissionDAO.checkPermission_reads a u p "").quiet (s.dao .authAgent)
  have hsays := (explainDenial_reads a u p "").result
    (hquiet.healthy (Server.healthy_dao hs .authAgent))
  have hrun := check_of_complete (s := s) ha hu hp hfields
  rw [checkPermission_of_healthy (Server.healthy_dao hs .authAgent), Server.db_dao, hno,
    if_neg Bool.false_ne_true] at hrun
  rw [hquiet.db_eq, Server.db_dao, ← hrun] at hsays
  generalize ((check req query).run s).1.1 = r at hsays
  cases hsays with
  | appMissing happ => exact absurd hperm.appExists happ
  | permissionMissing _ hnone => exact absurd hperm hnone
  | @roles _ current required hcurrent hrequired =>
      have hcurrent := hcurrent.trans (Db.getUserRoles_perm s.db a u).symm
      have hrequired := hrequired.trans (Db.getRolesWithPermission_perm s.db a p).symm
      refine ⟨current, required, hcurrent, hrequired, rfl, rfl, fun k hk k' hk' => ?_,
        fun k hk σ hσ hσ' => ?_, fun k σ hσ hdone t ht hallowed => ?_⟩
      · exact huseful.disjoint k (hcurrent.mem_iff.mp hk) k' (hrequired.mem_iff.mp hk')
      · obtain ⟨hdone, hallowed⟩ := huseful.helps k (hrequired.mem_iff.mp hk) σ hσ hσ'
        refine ⟨hdone, fun t ht ht' => ?_⟩
        rw [allowed_of_checkPermission ha hu hp hfields ht', ht, hallowed]
      · have hallowed := checkPermission_of_allowed ha hu hp hallowed
        rw [ht] at hallowed
        obtain ⟨app, role, hrole, hmem⟩ := huseful.complete k σ hσ hdone hallowed
        exact ⟨app, role, hrole, hrequired.mem_iff.mpr hmem⟩

/-- A user without roles is denied, and each role suggested can be assigned. -/
theorem suggestions_exact_qq_bot :
    let s : Server .binary := .start 0
    ∃ required : List String, "admin" ∈ required ∧
      ((check ⟨"qq_bot", "42", "member:kick", ""⟩ {}).run s).1.1.suggestRoles =
        ",".intercalate required ∧
      ∀ k ∈ required, ∀ σ : DaoState .binary, σ.db = s.db → σ.Healthy →
        ((PermissionDAO.assignRoleToUser "qq_bot" "42" k).run σ).1 = true := by
  have hsuggested : ∀ s : Server .binary, s.db = Db.initial 0 → s.Healthy →
      ((∃ app ∈ s.db.sysApps,
          Collation.binary.same app.appCode "qq_bot" = true ∧ app.status = 1) ∧
        s.db.PermissionExists "qq_bot" "member:kick" ∧
        "admin" ∈ s.db.getRolesWithPermission "qq_bot" "member:kick" ∧
        ((check ⟨"qq_bot", "42", "member:kick", ""⟩ {}).run s).1.1.allowed = some false) →
      ∃ required : List String, "admin" ∈ required ∧
        ((check ⟨"qq_bot", "42", "member:kick", ""⟩ {}).run s).1.1.suggestRoles =
          ",".intercalate required ∧
        ∀ k ∈ required, ∀ σ : DaoState .binary, σ.db = s.db → σ.Healthy →
          ((PermissionDAO.assignRoleToUser "qq_bot" "42" k).run σ).1 = true := by
    intro s hs hhealthy h
    obtain ⟨hst, hperm, hadmin, hdenied⟩ := h
    obtain ⟨-, required, -, hrequired, -, hshown, -, hhelps, -⟩ :=
      suggestions_exact (a := "qq_bot") (u := "42") (p := "member:kick") (.initial hs) hhealthy
        rfl rfl rfl (by decide) hst hperm (by decide) hdenied
    exact ⟨required, hrequired.mem_iff.mpr hadmin, hshown, fun k hk σ hσ hσ' =>
      (hhelps k hk σ hσ hσ').1⟩
  refine hsuggested (.start 0) (Server.db_start 0) (fun o ho => by cases ho) ?_
  rw [Server.start_eq_seeded]
  decide +kernel

end AuthAgent
end SiqiAuth
