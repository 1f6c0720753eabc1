import SiqiAuth.Store.View

/-!
# Assignments and bindings in the view

What the statements that write to `sys_user_roles` and `sys_role_permissions` do to the
view.  The `DELETE`s look for the keys they are given and the `INSERT`s for nothing: what an
`INSERT` does can only be seen if the rows whose numbers it was given are still there.

## Main definitions

* `Db.view_insertUserRole`, `Db.view_dropUserRole` — assignments.
* `Db.view_insertRolePermission`, `Db.view_dropRolePermission` — bindings.
-/

namespace SiqiAuth
open Lib

variable {c : Collation}

namespace Db
variable {db : Db c} {k r p : c.Value} {a u key key' : String} {now : DateTime} {appId roleId : ℕ}
  {permId : ℕ} {x : SysRole} {y : SysPermission}

/-! ## Assignments -/

theorem view_insertUserRole (hx : db.RoleOf k r x) {t : Table (sysUserRolesSchema c)}
    (ht : db.sysUserRoles.insert (fun id => ⟨id, x.appId, u, x.id, now⟩) (fun _ => rfl) = some t) :
    ({ db with sysUserRoles := t } : Db c).view =
      Rbac.perform db.view (k, .assign (c.value u) r ⟨0, 0, u, 0, now⟩) := by
  have hmember : ∀ k' u' r' ur, ({ db with sysUserRoles := t } : Db c).MemberOf k' u' r' ur ↔
      db.MemberOf k' u' r' ur ∨ ur = ⟨db.sysUserRoles.next, x.appId, u, x.id, now⟩ ∧ k' = k ∧
        u' = c.value u ∧ r' = r := by
    intro k' u' r' ur
    rw [MemberOf, Table.mem_insert_iff ht, or_and_right]
    refine or_congr Iff.rfl (and_congr_right ?_)
    rintro rfl
    constructor
    · rintro ⟨rfl, x', hx', -, hid⟩
      obtain rfl : x = x' := Table.eq_of_id hx.1 hx'.1 hid
      obtain ⟨rfl, rfl⟩ := hx'.keys_eq hx
      exact ⟨rfl, rfl, rfl⟩
    · rintro ⟨rfl, rfl, rfl⟩
      exact ⟨rfl, x, hx, rfl, rfl⟩
  -- The unique key says that the user did not have the role.
  have hnew : ∀ ur, ¬ db.MemberOf k (c.value u) r ur := by
    rintro ur ⟨hur, hu, x', hx', hid, hrid⟩
    obtain rfl := RoleOf.unique hx hx'
    have hclash := (Table.insert_eq_some ht).2.2 ur hur
    have hsame := (c.same_iff_value _ _).mpr hu
    simp [sysUserRolesSchema, hid, hrid, hsame] at hclash
  funext k'
  by_cases hk : k' = k
  · subst hk
    rw [Rbac.perform_self]
    refine Rbac.ext rfl rfl rfl (funext₃ fun u' r' m => propext ?_) rfl
    simp only [view_member, hmember, true_and, Rbac.after, Rbac.assign_member]
    constructor
    · rintro ⟨ur, hur | ⟨rfl, hu, hr⟩, rfl⟩
      · exact Or.inl ⟨ur, hur, rfl⟩
      · exact Or.inr ⟨⟨⟨x.info, x, hx, rfl⟩, fun m hm => hm.elim fun ur hur => hnew ur hur.1⟩,
          hu, hr, rfl⟩
    · rintro (⟨ur, hur, rfl⟩ | ⟨-, hu, hr, rfl⟩)
      · exact ⟨ur, Or.inl hur, rfl⟩
      · exact ⟨_, Or.inr ⟨rfl, hu, hr⟩, rfl⟩
  · rw [Rbac.perform_of_ne hk]
    exact view_congr (fun _ => Iff.rfl) (fun _ _ => Iff.rfl) (fun _ _ => Iff.rfl)
      (fun u' r' ur => (hmember k' u' r' ur).trans (or_iff_left fun h => hk h.2.1))
      fun _ _ => Iff.rfl

/-- An assignment of a role that is gone, or whose app is, cannot be reached. -/
theorem view_insertUserRole_dead (hdead : ∀ k r x, db.RoleOf k r x → x.id ≠ roleId)
    {t : Table (sysUserRolesSchema c)} (ht : db.sysUserRoles.insert
      (fun id => ⟨id, appId, u, roleId, now⟩) (fun _ => rfl) = some t) :
    ({ db with sysUserRoles := t } : Db c).view = db.view := by
  funext k
  refine view_congr (fun _ => Iff.rfl) (fun _ _ => Iff.rfl) (fun _ _ => Iff.rfl) ?_
    fun _ _ => Iff.rfl
  intro u' r' ur
  rw [MemberOf, Table.mem_insert_iff ht, or_and_right]
  refine or_iff_left ?_
  rintro ⟨rfl, -, x, hx, -, hid⟩
  exact hdead k r' x hx hid.symm

/-- The `DELETE` compares the codes and keys of what an assignment is reached through. -/
theorem MemberOf.dropped_iff {u' : c.Value} {ur : SysUserRole} (h : db.MemberOf k u' r ur) :
    db.dropsUserRole a u key ur = true ↔ k = c.value a ∧ u' = c.value u ∧ r = c.value key := by
  obtain ⟨-, rfl, x, ⟨hx, rfl, b, ⟨hb, rfl⟩, hown⟩, hid, hrid⟩ := h
  simp only [dropsUserRole, Bool.and_eq_true, List.any_eq_true, beq_iff_eq, c.same_iff_value]
  constructor
  · rintro ⟨⟨⟨b', hb', hid', hcode⟩, hu⟩, x', hx', hrid', hkey⟩
    obtain rfl : b = b' := Table.eq_of_id hb hb' (hown.symm.trans (hid.symm.trans hid'))
    obtain rfl : x = x' := Table.eq_of_id hx hx' (hrid.symm.trans hrid')
    exact ⟨hcode, hu, hkey⟩
  · rintro ⟨hcode, hu, hkey⟩
    exact ⟨⟨⟨b, hb, hid.trans hown, hcode⟩, hu⟩, x, hx, hrid, hkey⟩

theorem view_dropUserRole : (db.dropUserRole a u key).view =
    Rbac.perform db.view (c.value a, .revoke (c.value u) (c.value key)) := by
  have hmember : ∀ k u' r ur, (db.dropUserRole a u key).MemberOf k u' r ur ↔
      db.MemberOf k u' r ur ∧ ¬ (k = c.value a ∧ u' = c.value u ∧ r = c.value key) := by
    intro k u' r ur
    have hmem : (db.dropUserRole a u key).MemberOf k u' r ur ↔
        db.MemberOf k u' r ur ∧ db.dropsUserRole a u key ur = false := by
      simp only [MemberOf, dropUserRole, Table.mem_delete, and_right_comm]
    refine hmem.trans (and_congr_right fun h => ?_)
    rw [Bool.eq_false_iff, Ne, h.dropped_iff]
  funext k
  by_cases hk : k = c.value a
  · subst hk
    rw [Rbac.perform_self]
    refine Rbac.ext rfl rfl rfl (funext₃ fun u' r m => propext ?_) rfl
    simp only [view_member, hmember, true_and, Rbac.after, Rbac.revoke_member]
    constructor
    · rintro ⟨ur, ⟨hur, hne⟩, rfl⟩
      exact ⟨⟨ur, hur, rfl⟩, hne⟩
    · rintro ⟨⟨ur, hur, rfl⟩, hne⟩
      exact ⟨ur, ⟨hur, hne⟩, rfl⟩
  · rw [Rbac.perform_of_ne hk]
    exact view_congr (fun _ => Iff.rfl) (fun _ _ => Iff.rfl) (fun _ _ => Iff.rfl)
      (fun u' r ur => (hmember k u' r ur).trans (and_iff_left fun h => hk h.1)) fun _ _ => Iff.rfl

/-! ## Bindings -/

theorem view_insertRolePermission (hx : db.RoleOf k r x) (hy : db.PermOf k p y)
    {t : Table sysRolePermissionsSchema}
    (ht : db.sysRolePermissions.insert (fun id => ⟨id, x.id, y.id⟩) (fun _ => rfl) = some t) :
    ({ db with sysRolePermissions := t } : Db c).view =
      Rbac.perform db.view (k, .bind r p) := by
  have hbound : ∀ k' r' p', ({ db with sysRolePermissions := t } : Db c).BoundOf k' r' p' ↔
      db.BoundOf k' r' p' ∨ k' = k ∧ r' = r ∧ p' = p := by
    intro k' r' p'
    simp only [BoundOf, Table.mem_insert_iff ht, or_and_right, exists_or, exists_eq_left]
    refine or_congr Iff.rfl ⟨?_, ?_⟩
    · rintro ⟨x', hx', hrid, y', hy', hpid⟩
      obtain rfl : x = x' := Table.eq_of_id hx.1 hx'.1 hrid
      obtain rfl : y = y' := Table.eq_of_id hy.1 hy'.1 hpid
      exact ⟨(hx'.keys_eq hx).1, (hx'.keys_eq hx).2, (hy'.keys_eq hy).2⟩
    · rintro ⟨rfl, rfl, rfl⟩
      exact ⟨x, hx, rfl, y, hy, rfl⟩
  funext k'
  by_cases hk : k' = k
  · subst hk
    rw [Rbac.perform_self]
    refine Rbac.ext rfl rfl rfl rfl (funext₂ fun r' p' => propext ?_)
    simp only [view_bound, hbound, true_and, Rbac.after, Rbac.bind_bound]
    refine or_congr Iff.rfl (Iff.symm (and_iff_right ?_))
    exact ⟨⟨x.info, x, hx, rfl⟩, y.info, y, hy, rfl⟩
  · rw [Rbac.perform_of_ne hk]
    exact view_congr (fun _ => Iff.rfl) (fun _ _ => Iff.rfl) (fun _ _ => Iff.rfl)
      (fun _ _ _ => Iff.rfl) fun r' p' => (hbound k' r' p').trans (or_iff_left fun h => hk h.1)

/-- A binding of a role and a permission of which one is gone, or the app, cannot be
reached. -/
theorem view_insertRolePermission_dead (hdead : ∀ k r x p y, db.RoleOf k r x → x.id = roleId →
      db.PermOf k p y → y.id ≠ permId) {t : Table sysRolePermissionsSchema}
    (ht : db.sysRolePermissions.insert (fun id => ⟨id, roleId, permId⟩) (fun _ => rfl) = some t) :
    ({ db with sysRolePermissions := t } : Db c).view = db.view := by
  funext k
  refine view_congr (fun _ => Iff.rfl) (fun _ _ => Iff.rfl) (fun _ _ => Iff.rfl)
    (fun _ _ _ => Iff.rfl) fun r p => ?_
  simp only [BoundOf, Table.mem_insert_iff ht, or_and_right, exists_or, exists_eq_left]
  refine or_iff_left ?_
  rintro ⟨x, hx, hrid, y, hy, hpid⟩
  exact hdead k r x p y hx hrid.symm hy hpid.symm

/-- The `DELETE` compares the codes and keys of what a binding is reached through. -/
theorem dropsRolePermission_of (hx : db.RoleOf k r x) (hy : db.PermOf k p y) {rp : SysRolePermission}
    (hrid : rp.roleId = x.id) (hpid : rp.permId = y.id) :
    db.dropsRolePermission a key key' rp = true ↔
      k = c.value a ∧ r = c.value key ∧ p = c.value key' := by
  obtain ⟨hx, rfl, b, ⟨hb, rfl⟩, hown⟩ := hx
  obtain ⟨hy, rfl, -⟩ := hy
  simp only [dropsRolePermission, Bool.and_eq_true, List.any_eq_true, beq_iff_eq,
    c.same_iff_value]
  constructor
  · rintro ⟨⟨x', hx', ⟨hrid', hkey⟩, b', hb', hown', hcode⟩, y', hy', hpid', hkey'⟩
    obtain rfl : x = x' := Table.eq_of_id hx hx' (hrid.symm.trans hrid')
    obtain rfl : b = b' := Table.eq_of_id hb hb' (hown.symm.trans hown')
    obtain rfl : y = y' := Table.eq_of_id hy hy' (hpid.symm.trans hpid')
    exact ⟨hcode, hkey, hkey'⟩
  · rintro ⟨hcode, hkey, hkey'⟩
    exact ⟨⟨x, hx, ⟨hrid, hkey⟩, b, hb, hown, hcode⟩, y, hy, hpid, hkey'⟩

theorem view_dropRolePermission : (db.dropRolePermission a key key').view =
    Rbac.perform db.view (c.value a, .unbind (c.value key) (c.value key')) := by
  have hbound : ∀ k r p, (db.dropRolePermission a key key').BoundOf k r p ↔
      db.BoundOf k r p ∧ ¬ (k = c.value a ∧ r = c.value key ∧ p = c.value key') := by
    intro k r p
    constructor
    · rintro ⟨rp, hrp, x, hx, hrid, y, hy, hpid⟩
      obtain ⟨hrp, hkept⟩ := Table.mem_delete.mp hrp
      change db.RoleOf k r x at hx
      change db.PermOf k p y at hy
      refine ⟨⟨rp, hrp, x, hx, hrid, y, hy, hpid⟩, fun h => ?_⟩
      rw [(dropsRolePermission_of hx hy hrid hpid).mpr h] at hkept
      cases hkept
    · rintro ⟨⟨rp, hrp, x, hx, hrid, y, hy, hpid⟩, hne⟩
      refine ⟨rp, Table.mem_delete.mpr ⟨hrp, ?_⟩, x, hx, hrid, y, hy, hpid⟩
      rw [Bool.eq_false_iff, Ne, dropsRolePermission_of hx hy hrid hpid]
      exact hne
  funext k
  by_cases hk : k = c.value a
  · subst hk
    rw [Rbac.perform_self]
    refine Rbac.ext rfl rfl rfl rfl (funext₂ fun r p => propext ?_)
    simp only [view_bound, hbound, true_and, Rbac.after, Rbac.unbind_bound]
  · rw [Rbac.perform_of_ne hk]
    exact view_congr (fun _ => Iff.rfl) (fun _ _ => Iff.rfl) (fun _ _ => Iff.rfl)
      (fun _ _ _ => Iff.rfl) fun r p => (hbound k r p).trans (and_iff_left fun h => hk h.1)

end Db
end SiqiAuth
