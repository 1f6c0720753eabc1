import SiqiAuth.Store.Operation

/-!
# The reading functions of the DAO

None of them writes, whatever happens.  When nothing fails, the functions that
decide return what their statements select, in some order.

## Main definitions

* `Reads x Q` — `x` writes nothing, and when nothing fails its result satisfies `Q`.
* `checkPermission_reads`, `getUserPermissions_reads`, `getUserRoles_reads`,
  `getRolePermissions_reads`, `getRolesWithPermission_reads`, `permissionExists_reads` —
  the functions that decide.
* `listRoles_reads` and its siblings — the functions that list.
-/

namespace SiqiAuth
open Lib Std.Do
set_option mvcgen.warning false

variable {c : Collation} {α β : Type}

/-- `x` writes nothing, and when nothing fails what it returns satisfies `Q`. -/
def Reads (x : Dao c α) (Q : Db c → α → Prop) : Prop :=
  ∀ σ : DaoState c, Quiet σ (x.run σ).2 ∧ (σ.Healthy → Q σ.db (x.run σ).1)

namespace Reads
variable {x : Dao c α} {Q : Db c → α → Prop}

theorem quiet (h : Reads x Q) (σ : DaoState c) : Quiet σ (x.run σ).2 := (h σ).1

theorem result (h : Reads x Q) {σ : DaoState c} (hσ : σ.Healthy) : Q σ.db (x.run σ).1 :=
  (h σ).2 hσ

theorem of_spec (h : ∀ σ₀ : DaoState c, ⦃fun σ => ⌜σ = σ₀⌝⦄ x
    ⦃⇓ r σ => ⌜Quiet σ₀ σ ∧ (σ₀.Healthy → Q σ₀.db r)⌝⦄) : Reads x Q :=
  fun σ => DaoOp.of_triple (h σ)

theorem pure {a : α} (h : ∀ db, Q db a) : Reads (pure a) Q :=
  fun σ => ⟨Quiet.refl σ, fun _ => h σ.db⟩

/-- The tables do not change in between, so what was read before still holds after. -/
theorem bind {f : α → Dao c β} {R : Db c → β → Prop} (hx : Reads x Q)
    (hf : ∀ a, Reads (f a) fun db b => Q db a → R db b) : Reads (x >>= f) R := by
  intro σ
  have hfx := hf (x.run σ).1 (x.run σ).2
  rw [(hx σ).1.db_eq] at hfx
  exact ⟨(hx σ).1.trans hfx.1, fun hh => hfx.2 ((hx σ).1.healthy hh) ((hx σ).2 hh)⟩

/-- Asking for a connection beforehand changes nothing in this. -/
theorem withConnection {dflt : α} (h : Reads x Q) : Reads (withConnection dflt x) Q := by
  intro σ
  have hnext := DaoOp.of_triple (nextOutcome_spec σ)
  have hσ := h (nextOutcome.run σ).2
  rw [hnext.1.db_eq] at hσ
  rw [withConnection_run]
  cases hout : σ.outcomes.headD (.answered []) with
  | refused what =>
      have hsick : ¬ σ.Healthy := fun hh => by
        have hsucceeds : (σ.outcomes.headD (.answered [])).succeeds = true := hnext.2 hh
        rw [hout] at hsucceeds
        cases hsucceeds
      cases what with
      | none => exact ⟨hnext.1, fun hh => (hsick hh).elim⟩
      | some what =>
          exact ⟨⟨hnext.1.db_eq, hnext.1.wallClock_eq, hnext.1.healthy⟩, fun hh => (hsick hh).elim⟩
  | _ => exact ⟨hnext.1.trans hσ.1, fun hh => hσ.2 (hnext.1.healthy hh)⟩

end Reads

namespace PermissionDAO

attribute [spec] DaoOp.getAppId_spec

@[spec] theorem report_spec (label : String) (raised : Option String) (σ₀ : DaoState c) :
    ⦃fun σ => ⌜σ = σ₀⌝⦄ (report label raised : Dao c Unit) ⦃⇓ _ σ => ⌜Quiet σ₀ σ⌝⦄ := by
  cases raised with
  | none =>
      mvcgen [report]
      subst_vars
      exact Quiet.refl _
  | some what => mvcgen [report]

/-- An undisturbed loop reads all the rows. -/
theorem deliver_of_succeeds {o : Outcome} (h : o.succeeds = true) (xs : List β) :
    deliver o (.ok xs) = (xs, none) := by
  cases o with
  | answered picks => rfl
  | refused what => cases h
  | raised picks fetched what => cases h

/-! ## Deciding -/

theorem checkPermission_reads (a u p res : String) :
    Reads (c := c) (checkPermission a u p res) fun db r =>
      r = true ↔ ∃ g, g ∈ db.snapshot.selectCheckPermission a u p := by
  refine .withConnection (.of_spec fun σ₀ => ?_)
  mvcgen [reporting, catchSql]
  all_goals subst_vars
  case vc1 counted σ₁ h₁ =>
    refine ⟨h₁.1, fun _ => ?_⟩
    rw [decide_eq_true_iff, ← h₁.2.length_eq.symm]
    exact List.length_pos_iff_exists_mem
  case vc2 _ σ₁ h₁ _ σ₂ h₂ =>
    exact ⟨h₁.1.trans h₂, fun hh => (h₁.2 hh).elim⟩

/-- The shape of a function that returns a column of its rows. -/
theorem reads_column (label : String) (rows : Db c → List α) (f : α → β) :
    Reads (do
      let (xs, raised) ← fetchRows rows
      report label raised
      return xs.map f) fun db r => r.Perm ((rows db).map f) := by
  refine .of_spec fun σ₀ => ?_
  mvcgen [fetchRows]
  all_goals subst_vars
  rename_i xs σ₁ h₁ _ σ₂ h₂
  obtain ⟨hq, o, ho, rfl⟩ := h₁
  refine ⟨hq.trans h₂, fun hh => ?_⟩
  rw [deliver_of_succeeds (ho hh)]
  exact (arrange_perm _ _).map f

theorem getUserRoles_reads (a u : String) :
    Reads (c := c) (getUserRoles a u) fun db r =>
      r.Perm ((db.snapshot.selectUserRoles a u).map fun x => x.2.roleKey) :=
  .withConnection (reads_column _ _ _)

theorem getUserPermissions_reads (a u : String) :
    Reads (c := c) (getUserPermissions a u) fun db r =>
      r.Perm ((db.snapshot.selectUserPermissions a u).map fun g =>
        (g.perm.permKey, g.perm.permName)) :=
  .withConnection (reads_column _ _ _)

/-- The shape of a function that looks up its app first. -/
theorem reads_column_of_app (a label : String) (rows : ℕ → Db c → List α) (f : α → β) :
    Reads (do
      let some appId ← getAppId a | return []
      let (xs, raised) ← fetchRows (rows appId)
      report label raised
      return xs.map f) fun db r =>
        r.Perm (((db.snapshot.selectAppId a).head?.toList.flatMap fun n => rows n db).map f) := by
  refine .of_spec fun σ₀ => ?_
  mvcgen [fetchRows]
  all_goals subst_vars
  case vc1 appId σ₁ h₁ xs σ₂ h₂ _ σ₃ h₃ =>
    obtain ⟨hq, o, ho, rfl⟩ := h₂
    obtain ⟨hq₁, happ | ⟨-, hnone⟩⟩ := h₁
    · refine ⟨(hq₁.trans hq).trans h₃, fun hh => ?_⟩
      rw [← happ, deliver_of_succeeds (ho (hq₁.healthy hh)), hq₁.db_eq]
      simpa using (arrange_perm _ _).map f
    · cases hnone
  case vc2 found hnot σ₁ h₁ =>
    refine ⟨h₁.1, fun hh => ?_⟩
    obtain ⟨-, happ | ⟨hσ, -⟩⟩ := h₁
    · rw [← happ, Option.eq_none_iff_forall_ne_some.mpr fun n hn => hnot n hn]
      exact List.Perm.refl _
    · exact (hσ hh).elim

theorem getRolePermissions_reads (a k : String) :
    Reads (c := c) (getRolePermissions a k) fun db r =>
      r.Perm (((db.snapshot.selectAppId a).head?.toList.flatMap fun n =>
        db.snapshot.selectRolePermissions n k).map fun x => x.2.permKey) :=
  .withConnection (reads_column_of_app _ _ _ _)

theorem getRolesWithPermission_reads (a k : String) :
    Reads (c := c) (getRolesWithPermission a k) fun db r =>
      r.Perm (((db.snapshot.selectAppId a).head?.toList.flatMap fun n =>
        db.snapshot.selectRolesWithPermission n k).map fun x => x.1.1.roleKey) :=
  .withConnection (reads_column_of_app _ _ _ _)

theorem permissionExists_reads (a k : String) :
    Reads (c := c) (permissionExists a k) fun db r =>
      r = true ↔ ∃ n ∈ (db.snapshot.selectAppId a).head?, ∃ p,
        p ∈ db.snapshot.selectPermissionOf n k := by
  refine .withConnection (.of_spec fun σ₀ => ?_)
  mvcgen [catchSql]
  all_goals subst_vars
  case vc1 appId σ₁ h₁ perms σ₂ h₂ =>
    obtain ⟨hq₁, happ | ⟨-, hnone⟩⟩ := h₁
    · refine ⟨hq₁.trans h₂.1, fun _ => ?_⟩
      have hperm := h₂.2
      rw [hq₁.db_eq] at hperm
      rw [← happ]
      cases hl : perms with
      | nil =>
          refine iff_of_false (by simp) ?_
          rintro ⟨n, hn, p, hp⟩
          cases hn
          exact List.not_mem_nil (hl ▸ hperm.symm.subset hp)
      | cons p rest =>
          exact iff_of_true rfl ⟨appId, rfl, p, hperm.subset (hl ▸ List.mem_cons_self)⟩
    · cases hnone
  case vc2 appId σ₁ h₁ _ σ₂ h₂ =>
    exact ⟨h₁.1.trans h₂.1, fun hh => (h₂.2 (h₁.1.healthy hh)).elim⟩
  case vc3 found hnot σ₁ h₁ =>
    refine ⟨h₁.1, fun hh => ?_⟩
    obtain ⟨-, happ | ⟨hσ, -⟩⟩ := h₁
    · rw [← happ, Option.eq_none_iff_forall_ne_some.mpr fun n hn => hnot n hn]
      simp
    · exact (hσ hh).elim

/-- The answers come in the order of the questions. -/
theorem batchCheckPermissions_reads (a : String) (requests : List (String × String)) :
    Reads (c := c) (batchCheckPermissions a requests) fun db r =>
      List.Forall₂ (fun b req => b = true ↔ ∃ g, g ∈ db.snapshot.selectCheckPermission a req.1 req.2)
        r requests := by
  simp only [batchCheckPermissions]
  induction requests with
  | nil => exact .pure fun _ => List.Forall₂.nil
  | cons req rest ih =>
      rw [List.mapM_cons]
      refine (checkPermission_reads a req.1 req.2 "").bind fun b => ih.bind fun r => ?_
      exact .pure fun _ hr hb => List.Forall₂.cons hb hr

/-! ## Deciding, whatever happens -/

/-- A loop over rows delivers rows. -/
theorem mem_of_mem_deliver {o : Outcome} {xs : List β} {x : β} (h : x ∈ (deliver o (.ok xs)).1) :
    x ∈ xs := by
  cases o with
  | raised picks fetched what => exact List.mem_of_mem_take h
  | _ => exact h

/-- No failure makes `checkPermission` answer true. -/
theorem checkPermission_sound {a u p res : String} {σ : DaoState c}
    (h : ((checkPermission a u p res).run σ).1 = true) :
    ∃ g, g ∈ σ.db.snapshot.selectCheckPermission a u p := by
  refine DaoOp.of_triple (x := checkPermission a u p res) (σ := σ) (Q := fun r _ => r = true →
    ∃ g, g ∈ σ.db.snapshot.selectCheckPermission a u p) ?_ h
  mvcgen [checkPermission, withConnection, reporting, catchSql]
  all_goals subst_vars
  case vc1 | vc2 | vc4 => exact fun h => (Bool.false_ne_true h).elim
  case vc3 σ₁ h₁ counted σ₂ h₂ =>
    intro hpos
    rw [h₁.1.db_eq] at h₂
    obtain ⟨g, hg⟩ := List.exists_mem_of_length_pos (of_decide_eq_true hpos)
    exact ⟨g, h₂.2.subset hg⟩

/-- Nor does any make a function that returns a column of its rows return another row. -/
theorem mem_of_mem_column {label : String} {rows : Db c → List α} {f : α → β} {σ : DaoState c}
    {y : β} (h : y ∈ ((withConnection [] (do
      let (xs, raised) ← fetchRows rows
      report label raised
      return xs.map f)).run σ).1) : ∃ x ∈ rows σ.db, f x = y := by
  refine DaoOp.of_triple (σ := σ) (Q := fun r _ => y ∈ r → ∃ x ∈ rows σ.db, f x = y) ?_ h
  mvcgen [withConnection, fetchRows]
  all_goals subst_vars
  case vc1 | vc2 => exact fun h => (List.not_mem_nil h).elim
  case vc3 σ₁ h₁ read σ₂ h₂ _ σ₃ h₃ =>
    intro hmem
    obtain ⟨x, hx, hy⟩ := List.mem_map.mp hmem
    obtain ⟨-, o, -, rfl⟩ := h₂
    rw [h₁.1.db_eq] at hx
    exact ⟨x, mem_arrange.mp (mem_of_mem_deliver hx), hy⟩

/-- Or a function that looks up its app first, a row of another app. -/
theorem mem_of_mem_column_of_app {a label : String} {rows : ℕ → Db c → List α} {f : α → β}
    {σ : DaoState c} {y : β} (h : y ∈ ((withConnection [] (do
      let some appId ← getAppId a | return []
      let (xs, raised) ← fetchRows (rows appId)
      report label raised
      return xs.map f)).run σ).1) :
    ∃ n ∈ σ.db.snapshot.selectAppId a, ∃ x ∈ rows n σ.db, f x = y := by
  refine DaoOp.of_triple (σ := σ) (Q := fun r _ => y ∈ r →
    ∃ n ∈ σ.db.snapshot.selectAppId a, ∃ x ∈ rows n σ.db, f x = y) ?_ h
  mvcgen [withConnection, fetchRows]
  all_goals subst_vars
  case vc1 | vc2 | vc4 => exact fun h => (List.not_mem_nil h).elim
  case vc3 σ₁ h₁ appId σ₂ h₂ read σ₃ h₃ _ σ₄ h₄ =>
    intro hmem
    obtain ⟨x, hx, hy⟩ := List.mem_map.mp hmem
    obtain ⟨-, o, -, rfl⟩ := h₃
    rw [h₂.1.db_eq, h₁.1.db_eq] at hx
    obtain ⟨-, happ | ⟨-, hnone⟩⟩ := h₂
    · rw [h₁.1.db_eq] at happ
      exact ⟨appId, List.mem_of_head? happ.symm, x, mem_arrange.mp (mem_of_mem_deliver hx), hy⟩
    · cases hnone

/-- What `getUserPermissions` returns, its query selects. -/
theorem getUserPermissions_sound {a u : String} {σ : DaoState c} {kn : String × String}
    (h : kn ∈ ((getUserPermissions a u).run σ).1) :
    ∃ g ∈ σ.db.snapshot.selectUserPermissions a u, (g.perm.permKey, g.perm.permName) = kn :=
  mem_of_mem_column h

theorem getUserRoles_sound {a u k : String} {σ : DaoState c}
    (h : k ∈ ((getUserRoles a u).run σ).1) :
    ∃ x ∈ σ.db.snapshot.selectUserRoles a u, x.2.roleKey = k :=
  mem_of_mem_column h

theorem getRolePermissions_sound {a k p : String} {σ : DaoState c}
    (h : p ∈ ((getRolePermissions a k).run σ).1) : ∃ n ∈ σ.db.snapshot.selectAppId a,
      ∃ x ∈ σ.db.snapshot.selectRolePermissions n k, x.2.permKey = p :=
  mem_of_mem_column_of_app h

theorem getRolesWithPermission_sound {a p k : String} {σ : DaoState c}
    (h : k ∈ ((getRolesWithPermission a p).run σ).1) : ∃ n ∈ σ.db.snapshot.selectAppId a,
      ∃ x ∈ σ.db.snapshot.selectRolesWithPermission n p, x.1.1.roleKey = k :=
  mem_of_mem_column_of_app h

/-- No failure makes `permissionExists` answer true. -/
theorem permissionExists_sound {a p : String} {σ : DaoState c}
    (h : ((permissionExists a p).run σ).1 = true) :
    ∃ n ∈ σ.db.snapshot.selectAppId a, ∃ q, q ∈ σ.db.snapshot.selectPermissionOf n p := by
  refine DaoOp.of_triple (x := permissionExists a p) (σ := σ) (Q := fun r _ => r = true →
    ∃ n ∈ σ.db.snapshot.selectAppId a, ∃ q, q ∈ σ.db.snapshot.selectPermissionOf n p) ?_ h
  mvcgen [permissionExists, withConnection, catchSql]
  all_goals subst_vars
  case vc1 | vc2 | vc4 | vc5 => exact fun h => (Bool.false_ne_true h).elim
  case vc3 σ₁ h₁ appId σ₂ h₂ perms σ₃ h₃ =>
    intro hsome
    have hperm := h₃.2
    rw [h₂.1.db_eq, h₁.1.db_eq] at hperm
    obtain ⟨-, happ | ⟨-, hnone⟩⟩ := h₂
    · rw [h₁.1.db_eq] at happ
      obtain ⟨q, hq⟩ := List.isEmpty_eq_false_iff_exists_mem.mp (by simpa using hsome)
      exact ⟨appId, List.mem_of_head? happ.symm, q, hperm.subset hq⟩
    · cases hnone

/-- An account that `getConsoleUser` returns is a row of its table. -/
theorem getConsoleUser_sound {u : String} {σ : DaoState c}
    (h : ((getConsoleUser u).run σ).1.id ≠ -1) :
    ∃ row ∈ σ.db.sysConsoleUsers, c.same row.username u = true ∧
      ((getConsoleUser u).run σ).1 = ⟨row.id, row.username, row.passwordHash, row.realName⟩ := by
  refine DaoOp.of_triple (x := getConsoleUser u) (σ := σ) (Q := fun r _ => r.id ≠ -1 →
    ∃ row ∈ σ.db.sysConsoleUsers, c.same row.username u = true ∧
      r = ⟨row.id, row.username, row.passwordHash, row.realName⟩) ?_ h
  mvcgen [getConsoleUser, withConnection, reporting, catchSql]
  all_goals subst_vars
  case vc3 σ₁ h₁ rows row hrow σ₂ h₂ =>
    intro _
    have hmem := h₂.2.subset (List.mem_of_head? hrow)
    rw [h₁.1.db_eq] at hmem
    obtain ⟨hmem, hsame⟩ := List.mem_filter.mp hmem
    exact ⟨row, hmem, hsame, rfl⟩
  all_goals exact fun h => (h rfl).elim

/-! ## Listing -/

theorem getAppId_reads (a : String) :
    Reads (c := c) (getAppId a) fun db r => r = (db.snapshot.selectAppId a).head? := by
  refine .of_spec fun σ₀ => ?_
  mvcgen
  subst_vars
  rintro hq (h | ⟨hσ, -⟩)
  · exact ⟨hq, fun _ => h⟩
  · exact ⟨hq, fun hh => (hσ hh).elim⟩

theorem getConsoleUser_reads (u : String) :
    Reads (c := c) (getConsoleUser u) fun db r =>
      r = ((db.selectConsoleUser u).head?.elim {} fun u =>
        ⟨u.id, u.username, u.passwordHash, u.realName⟩) := by
  refine .withConnection (.of_spec fun σ₀ => ?_)
  mvcgen [reporting, catchSql]
  all_goals subst_vars
  case vc1 rows user hrow σ₁ h₁ =>
    refine ⟨h₁.1, fun _ => ?_⟩
    rw [← head?_eq_of_perm h₁.2 (Db.selectConsoleUser_unique _ u), hrow]
    rfl
  case vc2 rows hrow σ₁ h₁ =>
    refine ⟨h₁.1, fun _ => ?_⟩
    rw [← head?_eq_of_perm h₁.2 (Db.selectConsoleUser_unique _ u), hrow]
    rfl
  case vc3 _ σ₁ h₁ _ σ₂ h₂ => exact ⟨h₁.1.trans h₂, fun hh => (h₁.2 hh).elim⟩

theorem listApps_reads (page pageSize : ℤ) (n : Option String) (st : Option ℤ) :
    Reads (c := c) (listApps page pageSize n st) fun _ _ => True := by
  refine .of_spec fun σ₀ => ?_
  mvcgen [listApps, SiqiAuth.withConnection] <;> grind [Quiet.trans]

theorem getApp_reads (a : String) : Reads (c := c) (getApp a) fun _ _ => True := by
  refine .of_spec fun σ₀ => ?_
  mvcgen [getApp, SiqiAuth.withConnection, reporting, catchSql] <;> grind [Quiet.trans]

theorem listRoles_reads (a : String) : Reads (c := c) (listRoles a) fun _ _ => True := by
  refine .of_spec fun σ₀ => ?_
  mvcgen [listRoles, SiqiAuth.withConnection] <;> grind [Quiet.trans]

theorem listPermissions_reads (a : String) :
    Reads (c := c) (listPermissions a) fun _ _ => True := by
  refine .of_spec fun σ₀ => ?_
  mvcgen [listPermissions, SiqiAuth.withConnection, fetchRows] <;> grind [Quiet.trans]

theorem getRoleUsers_reads (a k : String) (page pageSize : ℤ) :
    Reads (c := c) (getRoleUsers a k page pageSize) fun _ _ => True := by
  refine .of_spec fun σ₀ => ?_
  mvcgen [getRoleUsers, SiqiAuth.withConnection] <;> grind [Quiet.trans]

theorem listUserRoles_reads (a : String) (page pageSize : ℤ) (u : Option String) :
    Reads (c := c) (listUserRoles a page pageSize u) fun _ _ => True := by
  refine .of_spec fun σ₀ => ?_
  mvcgen [listUserRoles, SiqiAuth.withConnection] <;> grind [Quiet.trans]

theorem listAuditLogs_reads (page pageSize : ℤ) (a action operatorId targetId : Option String)
    (startTime endTime : Option ℤ) :
    Reads (c := c) (listAuditLogs page pageSize a action operatorId targetId startTime endTime)
      fun _ _ => True := by
  refine .of_spec fun σ₀ => ?_
  mvcgen [listAuditLogs, SiqiAuth.withConnection] <;> grind [Quiet.trans]

end PermissionDAO
end SiqiAuth
