import SiqiAuth.Store.View

/-!
# Apps, roles and permissions in the view

What the statements that write to `sys_apps`, `sys_roles` and `sys_permissions` do to the
view.  A row that is new is reached by no link, for no link can have its number; a row that
is deleted takes along whatever was reached through it, though the links stay in their
tables; and a statement for the number of an app that is gone does nothing that can be seen.

## Main definitions

* `Db.view_insertApp`, `Db.view_setApp`, `Db.view_dropApp` — apps.
* `Db.view_insertRole`, `Db.view_setRole`, `Db.view_dropRole` — roles.
* `Db.view_insertPermission`, `Db.view_setPermission`, `Db.view_dropPermission` —
  permissions.
-/

namespace SiqiAuth
open Lib

variable {c : Collation}

namespace Db
variable {db : Db c} {k : c.Value} {a : String} {n d : Option String} {app : SysApp}
  {now : DateTime} {appId : ℕ}

/-! ## Apps -/

/-- A new app has no roles, no permissions and no members, for none can have its number. -/
theorem view_insertApp (hdb : db.Founded) {name secret descr : String}
    {t : Table (sysAppsSchema c)}
    (ht : db.sysApps.insert (fun id => ⟨id, name, a, secret, descr, 1, now, now⟩) (fun _ => rfl) =
      some t) : ({ db with sysApps := t } : Db c).view =
        Rbac.perform db.view (c.value a, .create ⟨0, name, a, secret, descr, 1, now, now⟩) := by
  have happ : ∀ k x, AppOf t k x ↔ AppOf db.sysApps k x ∨
      x = ⟨db.sysApps.next, name, a, secret, descr, 1, now, now⟩ ∧ c.value a = k := by
    intro k x
    rw [AppOf, Table.mem_insert_iff ht, or_and_right]
    refine or_congr Iff.rfl (and_congr_right ?_)
    rintro rfl
    exact Iff.rfl
  have hold : ∀ {n}, n < db.sysApps.next → ∀ k, (∃ x, AppOf t k x ∧ n = x.id) ↔
      ∃ x, AppOf db.sysApps k x ∧ n = x.id := by
    intro n hn k
    refine exists_congr fun x => and_congr_left fun hid => (happ k x).trans (or_iff_left ?_)
    rintro ⟨rfl, -⟩
    exact absurd hn (by rw [hid]; exact lt_irrefl _)
  have hrole : ∀ k r x, ({ db with sysApps := t } : Db c).RoleOf k r x ↔ db.RoleOf k r x :=
    fun k r x => named_congr fun x hx => hold (hdb.role_lt x hx) k
  have hperm : ∀ k p x, ({ db with sysApps := t } : Db c).PermOf k p x ↔ db.PermOf k p x :=
    fun k p x => named_congr fun x hx => hold (hdb.perm_lt x hx) k
  funext k
  by_cases hk : k = c.value a
  · subst hk
    rw [Rbac.perform_self]
    -- The unique key says that there was no such app.
    have hnew : ∀ x, ¬ AppOf db.sysApps (c.value a) x := by
      intro x hx
      have hclash := (Table.insert_eq_some ht).2.2 x hx.1
      simp [sysAppsSchema, hx.same] at hclash
    ext <;> simp [Rbac.after, happ, hrole, hperm, hnew, MemberOf, BoundOf, SysApp.info]
    exact eq_comm
  · rw [Rbac.perform_of_ne hk]
    exact view_congr (fun x => (happ k x).trans (or_iff_left fun h => hk h.2.symm)) (hrole k)
      (hperm k) (memberOf_congr rfl (hrole k)) (boundOf_congr rfl (hrole k) (hperm k))

theorem view_setApp {st : Option ℤ} : (db.setApp now a n d st).view =
    Rbac.perform db.view (c.value a, .update fun i => some (i.set now n d st)) := by
  have happ : ∀ k x', AppOf (db.setApp now a n d st).sysApps k x' ↔
      ∃ x, AppOf db.sysApps k x ∧ (if c.same x.appCode a then x.set now n d st else x) = x' := by
    intro k x'
    rw [AppOf, mem_setApp]
    constructor
    · rintro ⟨⟨x, hx, rfl⟩, hk⟩
      refine ⟨x, ⟨hx, ?_⟩, rfl⟩
      split at hk
      · rwa [SysApp.appCode_set] at hk
      · exact hk
    · rintro ⟨x, ⟨hx, hk⟩, rfl⟩
      refine ⟨⟨x, hx, rfl⟩, ?_⟩
      split
      · rwa [SysApp.appCode_set]
      · exact hk
  have hid : ∀ (x : SysApp) (s : String),
      (if c.same x.appCode s then x.set now n d st else x).id = x.id := by
    intro x s
    split
    · exact SysApp.id_set _ _ _ _ _
    · rfl
  have hold : ∀ k m, (∃ x, AppOf (db.setApp now a n d st).sysApps k x ∧ m = x.id) ↔
      ∃ x, AppOf db.sysApps k x ∧ m = x.id := by
    intro k m
    simp only [happ]
    constructor
    · rintro ⟨_, ⟨x, hx, rfl⟩, rfl⟩
      exact ⟨x, hx, hid x a⟩
    · rintro ⟨x, hx, rfl⟩
      exact ⟨_, ⟨x, hx, rfl⟩, (hid x a).symm⟩
  have hrole : ∀ k r x, (db.setApp now a n d st).RoleOf k r x ↔ db.RoleOf k r x :=
    fun k r x => named_congr fun x _ => hold k x.appId
  have hperm : ∀ k p x, (db.setApp now a n d st).PermOf k p x ↔ db.PermOf k p x :=
    fun k p x => named_congr fun x _ => hold k x.appId
  funext k
  by_cases hk : k = c.value a
  · subst hk
    rw [Rbac.perform_self]
    refine Rbac.ext (funext fun i => propext ?_) ?_ ?_ ?_ ?_
    · simp only [view_info, happ, Rbac.after, Rbac.update_info, Option.getD_some]
      constructor
      · rintro ⟨_, ⟨x, hx, rfl⟩, rfl⟩
        rw [if_pos hx.same, SysApp.info_set]
        exact ⟨_, ⟨x, hx, rfl⟩, rfl⟩
      · rintro ⟨_, ⟨x, hx, rfl⟩, rfl⟩
        refine ⟨_, ⟨x, hx, rfl⟩, ?_⟩
        rw [if_pos hx.same, SysApp.info_set]
    · ext; simp only [view_role, hrole]; rfl
    · ext; simp only [view_perm, hperm]; rfl
    · ext; simp only [view_member, MemberOf, hrole]; rfl
    · ext; simp only [view_bound, BoundOf, hrole, hperm]; rfl
  · rw [Rbac.perform_of_ne hk]
    refine view_congr (fun x' => ?_) (hrole k) (hperm k) (memberOf_congr rfl (hrole k))
      (boundOf_congr rfl (hrole k) (hperm k))
    have hother : ∀ x, AppOf db.sysApps k x → ¬ c.same x.appCode a = true :=
      fun x hx hsame => hk (hx.2.symm.trans ((c.same_iff_value _ _).mp hsame))
    rw [happ]
    constructor
    · rintro ⟨x, hx, rfl⟩
      rw [if_neg (hother x hx)]
      exact hx
    · exact fun hx => ⟨x', hx, if_neg (hother x' hx)⟩

/-- Whatever belonged to an app that is deleted can no longer be reached. -/
theorem view_dropApp : (db.dropApp a).view = Rbac.perform db.view (c.value a, .delete) := by
  have happ : ∀ k x, AppOf (db.dropApp a).sysApps k x ↔ AppOf db.sysApps k x ∧ k ≠ c.value a := by
    intro k x
    rw [AppOf, dropApp, Table.mem_delete, Bool.eq_false_iff, Ne, c.same_iff_value, AppOf]
    constructor
    · rintro ⟨⟨hx, hne⟩, rfl⟩
      exact ⟨⟨hx, rfl⟩, hne⟩
    · rintro ⟨⟨hx, rfl⟩, hne⟩
      exact ⟨⟨hx, hne⟩, rfl⟩
  funext k
  by_cases hk : k = c.value a
  · subst hk
    rw [Rbac.perform_self]
    exact view_eq_absent fun x hx => ((happ _ x).mp hx).2 rfl
  · rw [Rbac.perform_of_ne hk]
    have hsame : ∀ x, AppOf (db.dropApp a).sysApps k x ↔ AppOf db.sysApps k x :=
      fun x => (happ k x).trans (and_iff_left hk)
    have hrole : ∀ r x, (db.dropApp a).RoleOf k r x ↔ db.RoleOf k r x :=
      fun r x => named_congr fun x _ => by simp only [hsame]
    have hperm : ∀ p x, (db.dropApp a).PermOf k p x ↔ db.PermOf k p x :=
      fun p x => named_congr fun x _ => by simp only [hsame]
    exact view_congr hsame hrole hperm (memberOf_congr rfl hrole) (boundOf_congr rfl hrole hperm)

/-! ## Roles -/

section Roles
variable {r : c.Value} {name key descr : String} {isDefault : Bool} {df : Option Bool}
  {t : Table (sysRolesSchema c)}

theorem roleOf_insert (ht : db.sysRoles.insert
    (fun id => ⟨id, appId, name, key, descr, isDefault, now⟩) (fun _ => rfl) = some t)
    {x : SysRole} : ({ db with sysRoles := t } : Db c).RoleOf k r x ↔ db.RoleOf k r x ∨
      x = ⟨db.sysRoles.next, appId, name, key, descr, isDefault, now⟩ ∧ c.value key = r ∧
        ∃ a, AppOf db.sysApps k a ∧ appId = a.id := by
  rw [RoleOf, named_insert ht]
  refine or_congr Iff.rfl (and_congr_right ?_)
  rintro rfl
  exact Iff.rfl

/-- A new role is nobody's, for no assignment can have its number. -/
theorem memberOf_insertRole (hdb : db.Founded) (ht : db.sysRoles.insert
    (fun id => ⟨id, appId, name, key, descr, isDefault, now⟩) (fun _ => rfl) = some t)
    (u r : c.Value) (ur : SysUserRole) :
    ({ db with sysRoles := t } : Db c).MemberOf k u r ur ↔ db.MemberOf k u r ur := by
  refine and_congr_right fun hur => and_congr_right fun _ => ?_
  constructor
  · rintro ⟨x, hx, hid, hrid⟩
    rcases (roleOf_insert ht).mp hx with hx | ⟨rfl, -⟩
    · exact ⟨x, hx, hid, hrid⟩
    · exact absurd (hdb.assignment_lt ur hur) (by rw [hrid]; exact lt_irrefl _)
  · rintro ⟨x, hx, hid, hrid⟩
    exact ⟨x, (roleOf_insert ht).mpr (Or.inl hx), hid, hrid⟩

/-- Nor is it bound to a permission. -/
theorem boundOf_insertRole (hdb : db.Founded) (ht : db.sysRoles.insert
    (fun id => ⟨id, appId, name, key, descr, isDefault, now⟩) (fun _ => rfl) = some t)
    (r p : c.Value) : ({ db with sysRoles := t } : Db c).BoundOf k r p ↔ db.BoundOf k r p := by
  constructor
  · rintro ⟨rp, hrp, x, hx, hrid, y, hy, hpid⟩
    rcases (roleOf_insert ht).mp hx with hx | ⟨rfl, -⟩
    · exact ⟨rp, hrp, x, hx, hrid, y, hy, hpid⟩
    · exact absurd (hdb.binding_lt rp hrp).1 (by rw [hrid]; exact lt_irrefl _)
  · rintro ⟨rp, hrp, x, hx, hrid, y, hy, hpid⟩
    exact ⟨rp, hrp, x, (roleOf_insert ht).mpr (Or.inl hx), hrid, y, hy, hpid⟩

theorem view_insertRole (hdb : db.Founded) (happ : app ∈ db.sysApps) (ht : db.sysRoles.insert
    (fun id => ⟨id, app.id, name, key, descr, isDefault, now⟩) (fun _ => rfl) = some t) :
    ({ db with sysRoles := t } : Db c).view = Rbac.perform db.view (c.value app.appCode,
      .createRole (c.value key) ⟨0, 0, name, key, descr, isDefault, now⟩) := by
  have hself : AppOf db.sysApps (c.value app.appCode) app := ⟨happ, rfl⟩
  funext k
  by_cases hk : k = c.value app.appCode
  · subst hk
    rw [Rbac.perform_self]
    -- The unique key says that the app had no such role.
    have hnew : ∀ x, ¬ db.RoleOf (c.value app.appCode) (c.value key) x := by
      intro x hx
      have hclash := (Table.insert_eq_some ht).2.2 x hx.1
      have htaken := (hx.taken_iff hself).mpr ⟨rfl, rfl⟩
      simp only [sysRolesSchema] at hclash
      rw [htaken] at hclash
      exact Bool.false_ne_true hclash.symm
    refine Rbac.ext rfl (funext₂ fun r j => propext ?_) rfl ?_ ?_
    · simp only [view_role, roleOf_insert ht, Rbac.after, Rbac.createRole_role]
      constructor
      · rintro ⟨x, hx | ⟨rfl, rfl, -⟩, rfl⟩
        · exact Or.inl ⟨x, hx, rfl⟩
        · exact Or.inr ⟨⟨⟨_, app, hself, rfl⟩, fun j hj => hj.elim fun x hx => hnew x hx.1⟩, rfl, rfl⟩
      · rintro (⟨x, hx, rfl⟩ | ⟨-, rfl, rfl⟩)
        · exact ⟨x, Or.inl hx, rfl⟩
        · exact ⟨_, Or.inr ⟨rfl, rfl, app, hself, rfl⟩, rfl⟩
    · ext; simp only [view_member, memberOf_insertRole hdb ht]; rfl
    · ext; simp only [view_bound, boundOf_insertRole hdb ht]; rfl
  · rw [Rbac.perform_of_ne hk]
    refine view_congr (fun _ => Iff.rfl) (fun r x => (roleOf_insert ht).trans (or_iff_left ?_))
      (fun _ _ => Iff.rfl) (memberOf_insertRole hdb ht) (boundOf_insertRole hdb ht)
    rintro ⟨-, -, a, ha, hid⟩
    obtain rfl : app = a := Table.eq_of_id happ ha.1 hid
    exact hk ha.2.symm

/-- A role for the number of no app cannot be reached. -/
theorem view_insertRole_dead (hdb : db.Founded) (hdead : ∀ a ∈ db.sysApps, a.id ≠ appId)
    (ht : db.sysRoles.insert (fun id => ⟨id, appId, name, key, descr, isDefault, now⟩)
      (fun _ => rfl) = some t) : ({ db with sysRoles := t } : Db c).view = db.view := by
  funext k
  refine view_congr (fun _ => Iff.rfl) (fun r x => (roleOf_insert ht).trans (or_iff_left ?_))
    (fun _ _ => Iff.rfl) (memberOf_insertRole hdb ht) (boundOf_insertRole hdb ht)
  rintro ⟨-, -, a, ha, hid⟩
  exact hdead a ha.1 hid.symm

theorem roleOf_set {x' : SysRole} : (db.setRole now appId key n d df).RoleOf k r x' ↔
    ∃ x, db.RoleOf k r x ∧
      (if x.appId == appId && c.same x.roleKey key then x.set now n d df else x) = x' :=
  named_update (SysRole.id_set now n d df) (SysRole.clash_set now n d df) (fun _ => rfl) fun _ => rfl

theorem id_setRole_row (x : SysRole) (b : Bool) : (if b then x.set now n d df else x).id = x.id ∧
    (if b then x.set now n d df else x).appId = x.appId := by
  cases b <;> exact ⟨rfl, rfl⟩

/-- The links of a role do not see what else is known of it. -/
theorem memberOf_setRole (u r : c.Value) (ur : SysUserRole) :
    (db.setRole now appId key n d df).MemberOf k u r ur ↔ db.MemberOf k u r ur := by
  refine and_congr_right fun _ => and_congr_right fun _ => ?_
  constructor
  · rintro ⟨_, hset, hid, hrid⟩
    obtain ⟨x, hx, rfl⟩ := roleOf_set.mp hset
    rw [(id_setRole_row x _).1] at hrid
    rw [(id_setRole_row x _).2] at hid
    exact ⟨x, hx, hid, hrid⟩
  · rintro ⟨x, hx, hid, hrid⟩
    refine ⟨_, roleOf_set.mpr ⟨x, hx, rfl⟩, ?_, ?_⟩
    · rw [(id_setRole_row x _).2]
      exact hid
    · rw [(id_setRole_row x _).1]
      exact hrid

theorem boundOf_setRole (r p : c.Value) :
    (db.setRole now appId key n d df).BoundOf k r p ↔ db.BoundOf k r p := by
  refine exists_congr fun rp => and_congr_right fun _ => ?_
  constructor
  · rintro ⟨_, hset, hrid, hrest⟩
    obtain ⟨x, hx, rfl⟩ := roleOf_set.mp hset
    rw [(id_setRole_row x _).1] at hrid
    exact ⟨x, hx, hrid, hrest⟩
  · rintro ⟨x, hx, hrid, hrest⟩
    refine ⟨_, roleOf_set.mpr ⟨x, hx, rfl⟩, ?_, hrest⟩
    rw [(id_setRole_row x _).1]
    exact hrid

theorem view_setRole (happ : app ∈ db.sysApps) : (db.setRole now app.id key n d df).view =
    Rbac.perform db.view (c.value app.appCode,
      .updateRole (c.value key) fun j => some (j.set now n d df)) := by
  have hself : AppOf db.sysApps (c.value app.appCode) app := ⟨happ, rfl⟩
  funext k
  by_cases hk : k = c.value app.appCode
  · subst hk
    rw [Rbac.perform_self]
    refine Rbac.ext rfl (funext₂ fun r j => propext ?_) rfl ?_ ?_
    · simp only [view_role, roleOf_set, Rbac.after, Rbac.updateRole_role, Option.getD_some]
      constructor
      · rintro ⟨_, ⟨x, hx, rfl⟩, rfl⟩
        refine ⟨x.info, ⟨x, hx, rfl⟩, ?_⟩
        by_cases hr : r = c.value key
        · rw [if_pos ((hx.taken_iff hself).mpr ⟨rfl, hr⟩)]
          exact Or.inl ⟨hr, rfl⟩
        · rw [if_neg fun h => hr ((hx.taken_iff hself).mp h).2]
          exact Or.inr ⟨hr, rfl⟩
      · rintro ⟨_, ⟨x, hx, rfl⟩, ⟨hr, rfl⟩ | ⟨hr, rfl⟩⟩
        · refine ⟨_, ⟨x, hx, rfl⟩, ?_⟩
          rw [if_pos ((hx.taken_iff hself).mpr ⟨rfl, hr⟩)]
          rfl
        · refine ⟨_, ⟨x, hx, rfl⟩, ?_⟩
          rw [if_neg fun h => hr ((hx.taken_iff hself).mp h).2]
    · ext; simp only [view_member, memberOf_setRole]; rfl
    · ext; simp only [view_bound, boundOf_setRole]; rfl
  · rw [Rbac.perform_of_ne hk]
    refine view_congr (fun _ => Iff.rfl) (fun r x' => ?_) (fun _ _ => Iff.rfl) memberOf_setRole
      boundOf_setRole
    have hother : ∀ x, db.RoleOf k r x → ¬ (x.appId == app.id && c.same x.roleKey key) = true :=
      fun x hx h => hk ((hx.taken_iff hself).mp h).1
    rw [roleOf_set]
    constructor
    · rintro ⟨x, hx, rfl⟩
      rw [if_neg (hother x hx)]
      exact hx
    · exact fun hx => ⟨x', hx, if_neg (hother x' hx)⟩

theorem view_setRole_dead (hdead : ∀ a ∈ db.sysApps, a.id ≠ appId) :
    (db.setRole now appId key n d df).view = db.view := by
  funext k
  refine view_congr (fun _ => Iff.rfl) (fun r x' => ?_) (fun _ _ => Iff.rfl) memberOf_setRole
    boundOf_setRole
  rw [roleOf_set]
  constructor
  · rintro ⟨x, hx, rfl⟩
    rw [if_neg (Bool.eq_false_iff.mp (hx.not_taken hdead))]
    exact hx
  · exact fun hx => ⟨x', hx, if_neg (Bool.eq_false_iff.mp (hx.not_taken hdead))⟩

/-- Whatever referred to a role that is deleted can no longer be reached. -/
theorem view_dropRole (happ : app ∈ db.sysApps) : (db.dropRole app.id key).view =
    Rbac.perform db.view (c.value app.appCode, .deleteRole (c.value key)) := by
  have hself : AppOf db.sysApps (c.value app.appCode) app := ⟨happ, rfl⟩
  have hrole : ∀ k r x, (db.dropRole app.id key).RoleOf k r x ↔
      db.RoleOf k r x ∧ ¬ (k = c.value app.appCode ∧ r = c.value key) := by
    intro k r x
    refine named_delete.trans (and_congr_right fun hx => ?_)
    rw [Bool.eq_false_iff, Ne, hx.taken_iff hself]
  funext k
  by_cases hk : k = c.value app.appCode
  · subst hk
    rw [Rbac.perform_self]
    refine Rbac.ext rfl (funext₂ fun r j => propext ?_) rfl (funext₃ fun u r m => propext ?_)
      (funext₂ fun r p => propext ?_)
    · simp only [view_role, hrole, true_and, Rbac.after, Rbac.deleteRole_role]
      constructor
      · rintro ⟨x, ⟨hx, hr⟩, rfl⟩
        exact ⟨⟨x, hx, rfl⟩, hr⟩
      · rintro ⟨⟨x, hx, rfl⟩, hr⟩
        exact ⟨x, ⟨hx, hr⟩, rfl⟩
    · simp only [view_member, MemberOf, hrole, true_and, Rbac.after, Rbac.deleteRole_member]
      constructor
      · rintro ⟨ur, ⟨hur, hu, x, ⟨hx, hr⟩, hlink⟩, rfl⟩
        exact ⟨⟨ur, ⟨hur, hu, x, hx, hlink⟩, rfl⟩, hr⟩
      · rintro ⟨⟨ur, ⟨hur, hu, x, hx, hlink⟩, rfl⟩, hr⟩
        exact ⟨ur, ⟨hur, hu, x, ⟨hx, hr⟩, hlink⟩, rfl⟩
    · simp only [view_bound, BoundOf, hrole, true_and, Rbac.after, Rbac.deleteRole_bound]
      constructor
      · rintro ⟨rp, hrp, x, ⟨hx, hr⟩, hlink⟩
        exact ⟨⟨rp, hrp, x, hx, hlink⟩, hr⟩
      · rintro ⟨⟨rp, hrp, x, hx, hlink⟩, hr⟩
        exact ⟨rp, hrp, x, ⟨hx, hr⟩, hlink⟩
  · rw [Rbac.perform_of_ne hk]
    have hsame : ∀ r x, (db.dropRole app.id key).RoleOf k r x ↔ db.RoleOf k r x :=
      fun r x => (hrole k r x).trans (and_iff_left fun h => hk h.1)
    exact view_congr (fun _ => Iff.rfl) hsame (fun _ _ => Iff.rfl) (memberOf_congr rfl hsame)
      (boundOf_congr rfl hsame fun _ _ => Iff.rfl)

theorem view_dropRole_dead (hdead : ∀ a ∈ db.sysApps, a.id ≠ appId) :
    (db.dropRole appId key).view = db.view := by
  have hsame : ∀ k r x, (db.dropRole appId key).RoleOf k r x ↔ db.RoleOf k r x :=
    fun k r x => named_delete.trans (and_iff_left_of_imp fun hx => hx.not_taken hdead)
  funext k
  exact view_congr (fun _ => Iff.rfl) (hsame k) (fun _ _ => Iff.rfl) (memberOf_congr rfl (hsame k))
    (boundOf_congr rfl (hsame k) fun _ _ => Iff.rfl)

end Roles

/-! ## Permissions -/

section Permissions
variable {p : c.Value} {name key descr : String} {t : Table (sysPermissionsSchema c)}

theorem permOf_insert (ht : db.sysPermissions.insert
    (fun id => ⟨id, appId, name, key, descr, now⟩) (fun _ => rfl) = some t) {x : SysPermission} :
    ({ db with sysPermissions := t } : Db c).PermOf k p x ↔ db.PermOf k p x ∨
      x = ⟨db.sysPermissions.next, appId, name, key, descr, now⟩ ∧ c.value key = p ∧
        ∃ a, AppOf db.sysApps k a ∧ appId = a.id := by
  rw [PermOf, named_insert ht]
  refine or_congr Iff.rfl (and_congr_right ?_)
  rintro rfl
  exact Iff.rfl

/-- No role has a new permission, for no binding can have its number. -/
theorem boundOf_insertPermission (hdb : db.Founded) (ht : db.sysPermissions.insert
    (fun id => ⟨id, appId, name, key, descr, now⟩) (fun _ => rfl) = some t) (r p : c.Value) :
    ({ db with sysPermissions := t } : Db c).BoundOf k r p ↔ db.BoundOf k r p := by
  constructor
  · rintro ⟨rp, hrp, x, hx, hrid, y, hy, hpid⟩
    rcases (permOf_insert ht).mp hy with hy | ⟨rfl, -⟩
    · exact ⟨rp, hrp, x, hx, hrid, y, hy, hpid⟩
    · exact absurd (hdb.binding_lt rp hrp).2 (by rw [hpid]; exact lt_irrefl _)
  · rintro ⟨rp, hrp, x, hx, hrid, y, hy, hpid⟩
    exact ⟨rp, hrp, x, hx, hrid, y, (permOf_insert ht).mpr (Or.inl hy), hpid⟩

theorem view_insertPermission (hdb : db.Founded) (happ : app ∈ db.sysApps)
    (ht : db.sysPermissions.insert (fun id => ⟨id, app.id, name, key, descr, now⟩) (fun _ => rfl) =
      some t) : ({ db with sysPermissions := t } : Db c).view =
        Rbac.perform db.view (c.value app.appCode,
          .createPerm (c.value key) ⟨0, 0, name, key, descr, now⟩) := by
  have hself : AppOf db.sysApps (c.value app.appCode) app := ⟨happ, rfl⟩
  funext k
  by_cases hk : k = c.value app.appCode
  · subst hk
    rw [Rbac.perform_self]
    have hnew : ∀ x, ¬ db.PermOf (c.value app.appCode) (c.value key) x := by
      intro x hx
      have hclash := (Table.insert_eq_some ht).2.2 x hx.1
      have htaken := (hx.taken_iff hself).mpr ⟨rfl, rfl⟩
      simp only [sysPermissionsSchema] at hclash
      rw [htaken] at hclash
      exact Bool.false_ne_true hclash.symm
    refine Rbac.ext rfl rfl (funext₂ fun p j => propext ?_) rfl ?_
    · simp only [view_perm, permOf_insert ht, Rbac.after, Rbac.createPerm_perm]
      constructor
      · rintro ⟨x, hx | ⟨rfl, rfl, -⟩, rfl⟩
        · exact Or.inl ⟨x, hx, rfl⟩
        · exact Or.inr ⟨⟨⟨_, app, hself, rfl⟩, fun j hj => hj.elim fun x hx => hnew x hx.1⟩, rfl, rfl⟩
      · rintro (⟨x, hx, rfl⟩ | ⟨-, rfl, rfl⟩)
        · exact ⟨x, Or.inl hx, rfl⟩
        · exact ⟨_, Or.inr ⟨rfl, rfl, app, hself, rfl⟩, rfl⟩
    · ext; simp only [view_bound, boundOf_insertPermission hdb ht]; rfl
  · rw [Rbac.perform_of_ne hk]
    refine view_congr (fun _ => Iff.rfl) (fun _ _ => Iff.rfl)
      (fun p x => (permOf_insert ht).trans (or_iff_left ?_)) (fun _ _ _ => Iff.rfl)
      (boundOf_insertPermission hdb ht)
    rintro ⟨-, -, a, ha, hid⟩
    obtain rfl : app = a := Table.eq_of_id happ ha.1 hid
    exact hk ha.2.symm

theorem view_insertPermission_dead (hdb : db.Founded) (hdead : ∀ a ∈ db.sysApps, a.id ≠ appId)
    (ht : db.sysPermissions.insert (fun id => ⟨id, appId, name, key, descr, now⟩) (fun _ => rfl) =
      some t) : ({ db with sysPermissions := t } : Db c).view = db.view := by
  funext k
  refine view_congr (fun _ => Iff.rfl) (fun _ _ => Iff.rfl)
    (fun p x => (permOf_insert ht).trans (or_iff_left ?_)) (fun _ _ _ => Iff.rfl)
    (boundOf_insertPermission hdb ht)
  rintro ⟨-, -, a, ha, hid⟩
  exact hdead a ha.1 hid.symm

theorem permOf_set {x' : SysPermission} : (db.setPermission now appId key n d).PermOf k p x' ↔
    ∃ x, db.PermOf k p x ∧
      (if x.appId == appId && c.same x.permKey key then x.set now n d else x) = x' :=
  named_update (SysPermission.id_set now n d) (SysPermission.clash_set now n d) (fun _ => rfl)
    fun _ => rfl

theorem boundOf_setPermission (r p : c.Value) :
    (db.setPermission now appId key n d).BoundOf k r p ↔ db.BoundOf k r p := by
  have hid : ∀ (x : SysPermission) (b : Bool), (if b then x.set now n d else x).id = x.id := by
    intro x b
    cases b <;> rfl
  refine exists_congr fun rp => and_congr_right fun _ => exists_congr fun x =>
    and_congr_right fun _ => and_congr_right fun _ => ?_
  constructor
  · rintro ⟨_, hset, hpid⟩
    obtain ⟨y, hy, rfl⟩ := permOf_set.mp hset
    rw [hid] at hpid
    exact ⟨y, hy, hpid⟩
  · rintro ⟨y, hy, hpid⟩
    refine ⟨_, permOf_set.mpr ⟨y, hy, rfl⟩, ?_⟩
    rw [hid]
    exact hpid

theorem view_setPermission (happ : app ∈ db.sysApps) :
    (db.setPermission now app.id key n d).view = Rbac.perform db.view (c.value app.appCode,
      .updatePerm (c.value key) fun j => some (j.set now n d)) := by
  have hself : AppOf db.sysApps (c.value app.appCode) app := ⟨happ, rfl⟩
  funext k
  by_cases hk : k = c.value app.appCode
  · subst hk
    rw [Rbac.perform_self]
    refine Rbac.ext rfl rfl (funext₂ fun p j => propext ?_) rfl ?_
    · simp only [view_perm, permOf_set, Rbac.after, Rbac.updatePerm_perm, Option.getD_some]
      constructor
      · rintro ⟨_, ⟨x, hx, rfl⟩, rfl⟩
        refine ⟨x.info, ⟨x, hx, rfl⟩, ?_⟩
        by_cases hp : p = c.value key
        · rw [if_pos ((hx.taken_iff hself).mpr ⟨rfl, hp⟩)]
          exact Or.inl ⟨hp, rfl⟩
        · rw [if_neg fun h => hp ((hx.taken_iff hself).mp h).2]
          exact Or.inr ⟨hp, rfl⟩
      · rintro ⟨_, ⟨x, hx, rfl⟩, ⟨hp, rfl⟩ | ⟨hp, rfl⟩⟩
        · refine ⟨_, ⟨x, hx, rfl⟩, ?_⟩
          rw [if_pos ((hx.taken_iff hself).mpr ⟨rfl, hp⟩)]
          rfl
        · refine ⟨_, ⟨x, hx, rfl⟩, ?_⟩
          rw [if_neg fun h => hp ((hx.taken_iff hself).mp h).2]
    · ext; simp only [view_bound, boundOf_setPermission]; rfl
  · rw [Rbac.perform_of_ne hk]
    refine view_congr (fun _ => Iff.rfl) (fun _ _ => Iff.rfl) (fun p x' => ?_)
      (fun _ _ _ => Iff.rfl) boundOf_setPermission
    have hother : ∀ x, db.PermOf k p x → ¬ (x.appId == app.id && c.same x.permKey key) = true :=
      fun x hx h => hk ((hx.taken_iff hself).mp h).1
    rw [permOf_set]
    constructor
    · rintro ⟨x, hx, rfl⟩
      rw [if_neg (hother x hx)]
      exact hx
    · exact fun hx => ⟨x', hx, if_neg (hother x' hx)⟩

theorem view_setPermission_dead (hdead : ∀ a ∈ db.sysApps, a.id ≠ appId) :
    (db.setPermission now appId key n d).view = db.view := by
  funext k
  refine view_congr (fun _ => Iff.rfl) (fun _ _ => Iff.rfl) (fun p x' => ?_)
    (fun _ _ _ => Iff.rfl) boundOf_setPermission
  rw [permOf_set]
  constructor
  · rintro ⟨x, hx, rfl⟩
    rw [if_neg (Bool.eq_false_iff.mp (hx.not_taken hdead))]
    exact hx
  · exact fun hx => ⟨x', hx, if_neg (Bool.eq_false_iff.mp (hx.not_taken hdead))⟩

theorem view_dropPermission (happ : app ∈ db.sysApps) : (db.dropPermission app.id key).view =
    Rbac.perform db.view (c.value app.appCode, .deletePerm (c.value key)) := by
  have hself : AppOf db.sysApps (c.value app.appCode) app := ⟨happ, rfl⟩
  have hperm : ∀ k p x, (db.dropPermission app.id key).PermOf k p x ↔
      db.PermOf k p x ∧ ¬ (k = c.value app.appCode ∧ p = c.value key) := by
    intro k p x
    refine named_delete.trans (and_congr_right fun hx => ?_)
    rw [Bool.eq_false_iff, Ne, hx.taken_iff hself]
  funext k
  by_cases hk : k = c.value app.appCode
  · subst hk
    rw [Rbac.perform_self]
    refine Rbac.ext rfl rfl (funext₂ fun p j => propext ?_) rfl (funext₂ fun r p => propext ?_)
    · simp only [view_perm, hperm, true_and, Rbac.after, Rbac.deletePerm_perm]
      constructor
      · rintro ⟨x, ⟨hx, hp⟩, rfl⟩
        exact ⟨⟨x, hx, rfl⟩, hp⟩
      · rintro ⟨⟨x, hx, rfl⟩, hp⟩
        exact ⟨x, ⟨hx, hp⟩, rfl⟩
    · simp only [view_bound, BoundOf, hperm, true_and, Rbac.after, Rbac.deletePerm_bound]
      constructor
      · rintro ⟨rp, hrp, x, hx, hrid, y, ⟨hy, hp⟩, hpid⟩
        exact ⟨⟨rp, hrp, x, hx, hrid, y, hy, hpid⟩, hp⟩
      · rintro ⟨⟨rp, hrp, x, hx, hrid, y, hy, hpid⟩, hp⟩
        exact ⟨rp, hrp, x, hx, hrid, y, ⟨hy, hp⟩, hpid⟩
  · rw [Rbac.perform_of_ne hk]
    have hsame : ∀ p x, (db.dropPermission app.id key).PermOf k p x ↔ db.PermOf k p x :=
      fun p x => (hperm k p x).trans (and_iff_left fun h => hk h.1)
    exact view_congr (fun _ => Iff.rfl) (fun _ _ => Iff.rfl) hsame (fun _ _ _ => Iff.rfl)
      (boundOf_congr rfl (fun _ _ => Iff.rfl) hsame)

theorem view_dropPermission_dead (hdead : ∀ a ∈ db.sysApps, a.id ≠ appId) :
    (db.dropPermission appId key).view = db.view := by
  have hsame : ∀ k p x, (db.dropPermission appId key).PermOf k p x ↔ db.PermOf k p x :=
    fun k p x => named_delete.trans (and_iff_left_of_imp fun hx => hx.not_taken hdead)
  funext k
  exact view_congr (fun _ => Iff.rfl) (fun _ _ => Iff.rfl) (hsame k) (fun _ _ _ => Iff.rfl)
    (boundOf_congr rfl (fun _ _ => Iff.rfl) (hsame k))

end Permissions

end Db
end SiqiAuth
