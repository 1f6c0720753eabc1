import Mathlib.Logic.Function.Basic
import SiqiAuth.Lib.Run

/-!
# Role-based access control, abstractly

What one application has of roles, permissions, users who have roles and roles that have
permissions, keyed by whatever keys them: no row numbers, no leftovers.  A role or a
permission that is deleted takes along everything that refers to it, and an application
that is deleted takes along all it has.  Several applications are a function from their
keys; an edit is for one of them.

## Main definitions

* `Rbac` — the state of one application, or of one that does not exist.
* `Rbac.Edit`, `Rbac.Accepts`, `Rbac.after` — the edits, which of them are accepted, and
  what they do.
* `Rbac.Grants` — who holds what.
* `Rbac.after_of_refused`, `Rbac.not_accepts_after` — an edit that is refused does nothing,
  and one that is repeated is refused.
* `Rbac.not_accepts_after_of_not_reopens` — and it stays refused until it is reopened.
* `Rbac.perform` — an edit of one application among many.
-/

namespace SiqiAuth.Lib

universe u

/-- The state of one application.  `I`, `J`, `K` and `M` are what is known of it, of a role,
of a permission and of the having of a role. -/
@[ext] structure Rbac (R P U I J K M : Type u) where
  info : I → Prop
  role : R → J → Prop
  perm : P → K → Prop
  /-- A user has a role. -/
  member : U → R → M → Prop
  /-- A role has a permission. -/
  bound : R → P → Prop
  info_unique : ∀ {i i'}, info i → info i' → i = i'
  role_unique : ∀ {r j j'}, role r j → role r j' → j = j'
  perm_unique : ∀ {p k k'}, perm p k → perm p k' → k = k'
  member_unique : ∀ {x r m m'}, member x r m → member x r m' → m = m'
  info_of_role : ∀ {r j}, role r j → ∃ i, info i
  info_of_perm : ∀ {p k}, perm p k → ∃ i, info i
  role_of_member : ∀ {x r m}, member x r m → ∃ j, role r j
  role_of_bound : ∀ {r p}, bound r p → ∃ j, role r j
  perm_of_bound : ∀ {r p}, bound r p → ∃ k, perm p k

namespace Rbac
variable {R P U I J K M : Type u}

/-- The edits of an application.  An update says what it makes of what is known, unless it
is refused for that. -/
inductive Edit (R P U I J K M : Type u)
  /-- Answered without looking. -/
  | answer (yes : Bool)
  | create (i : I)
  | update (f : I → Option I)
  | delete
  | createRole (r : R) (j : J)
  | updateRole (r : R) (f : J → Option J)
  | deleteRole (r : R)
  | createPerm (p : P) (k : K)
  | updatePerm (p : P) (f : K → Option K)
  | deletePerm (p : P)
  | assign (x : U) (r : R) (m : M)
  | revoke (x : U) (r : R)
  | bind (r : R) (p : P)
  | unbind (r : R) (p : P)

variable (s : Rbac R P U I J K M)

/-- Which edits are accepted.  Updating a role or a permission that does not exist is. -/
def Accepts : Edit R P U I J K M → Prop
  | .answer yes => yes = true
  | .create _ => ∀ i, ¬ s.info i
  | .update f => ∃ i, s.info i ∧ ∃ i' ∈ f i, i' ≠ i
  | .delete => ∃ i, s.info i
  | .createRole r _ => (∃ i, s.info i) ∧ ∀ j, ¬ s.role r j
  | .updateRole r f => (∃ i, s.info i) ∧ ∀ j, s.role r j → (f j).isSome
  | .deleteRole r => ∃ j, s.role r j
  | .createPerm p _ => (∃ i, s.info i) ∧ ∀ k, ¬ s.perm p k
  | .updatePerm p f => (∃ i, s.info i) ∧ ∀ k, s.perm p k → (f k).isSome
  | .deletePerm p => ∃ k, s.perm p k
  | .assign x r _ => (∃ j, s.role r j) ∧ ∀ m, ¬ s.member x r m
  | .revoke x r => ∃ m, s.member x r m
  | .bind r p => (∃ j, s.role r j) ∧ (∃ k, s.perm p k) ∧ ¬ s.bound r p
  | .unbind r p => s.bound r p

/-! ## What the edits do -/

/-- The state of an application that does not exist. -/
@[simps] def absent : Rbac R P U I J K M where
  info _ := False
  role _ _ := False
  perm _ _ := False
  member _ _ _ := False
  bound _ _ := False
  info_unique := by simp
  role_unique := by simp
  perm_unique := by simp
  member_unique := by simp
  info_of_role := by simp
  info_of_perm := by simp
  role_of_member := by simp
  role_of_bound := by simp
  perm_of_bound := by simp

@[simps] def create (i : I) : Rbac R P U I J K M where
  __ := s
  info i' := s.info i' ∨ (∀ i, ¬ s.info i) ∧ i' = i
  info_unique := by
    rintro i₁ i₂ (h | ⟨h, rfl⟩) (h' | ⟨h', rfl⟩)
    · exact s.info_unique h h'
    · exact absurd h (h' i₁)
    · exact absurd h' (h i₂)
    · rfl
  info_of_role h := (s.info_of_role h).imp fun _ => Or.inl
  info_of_perm h := (s.info_of_perm h).imp fun _ => Or.inl

@[simps] def update (f : I → Option I) : Rbac R P U I J K M where
  __ := s
  info i' := ∃ i, s.info i ∧ (f i).getD i = i'
  info_unique := by
    rintro i₁ i₂ ⟨i, h, rfl⟩ ⟨i', h', rfl⟩
    rw [s.info_unique h h']
  info_of_role h := (s.info_of_role h).elim fun i h => ⟨_, i, h, rfl⟩
  info_of_perm h := (s.info_of_perm h).elim fun i h => ⟨_, i, h, rfl⟩

@[simps] def createRole (r : R) (j : J) : Rbac R P U I J K M where
  __ := s
  role r' j' := s.role r' j' ∨ ((∃ i, s.info i) ∧ ∀ j, ¬ s.role r j) ∧ r' = r ∧ j' = j
  role_unique := by
    rintro r' j₁ j₂ (h | ⟨h, rfl, rfl⟩) (h' | ⟨h', hr, rfl⟩)
    · exact s.role_unique h h'
    · exact absurd h (hr ▸ h'.2 j₁)
    · exact absurd h' (h.2 j₂)
    · rfl
  info_of_role := by
    rintro r' j' (h | ⟨h, -⟩)
    · exact s.info_of_role h
    · exact h.1
  role_of_member h := (s.role_of_member h).imp fun _ => Or.inl
  role_of_bound h := (s.role_of_bound h).imp fun _ => Or.inl

@[simps] def updateRole (r : R) (f : J → Option J) : Rbac R P U I J K M where
  __ := s
  role r' j' := ∃ j, s.role r' j ∧ (r' = r ∧ (f j).getD j = j' ∨ r' ≠ r ∧ j = j')
  role_unique := by
    rintro r' j₁ j₂ ⟨j, h, hj⟩ ⟨j', h', hj'⟩
    obtain rfl := s.role_unique h h'
    rcases hj with ⟨hr, rfl⟩ | ⟨hr, rfl⟩ <;> rcases hj' with ⟨hr', rfl⟩ | ⟨hr', rfl⟩
    · rfl
    · exact absurd hr hr'
    · exact absurd hr' hr
    · rfl
  info_of_role := by
    rintro r' j' ⟨j, h, -⟩
    exact s.info_of_role h
  role_of_member := by
    intro x r' m h
    obtain ⟨j, hj⟩ := s.role_of_member h
    by_cases hr : r' = r
    · exact ⟨_, j, hj, Or.inl ⟨hr, rfl⟩⟩
    · exact ⟨_, j, hj, Or.inr ⟨hr, rfl⟩⟩
  role_of_bound := by
    intro r' p h
    obtain ⟨j, hj⟩ := s.role_of_bound h
    by_cases hr : r' = r
    · exact ⟨_, j, hj, Or.inl ⟨hr, rfl⟩⟩
    · exact ⟨_, j, hj, Or.inr ⟨hr, rfl⟩⟩

@[simps] def deleteRole (r : R) : Rbac R P U I J K M where
  __ := s
  role r' j := s.role r' j ∧ r' ≠ r
  member x r' m := s.member x r' m ∧ r' ≠ r
  bound r' p := s.bound r' p ∧ r' ≠ r
  role_unique h h' := s.role_unique h.1 h'.1
  member_unique h h' := s.member_unique h.1 h'.1
  info_of_role h := s.info_of_role h.1
  role_of_member h := (s.role_of_member h.1).imp fun _ hj => ⟨hj, h.2⟩
  role_of_bound h := (s.role_of_bound h.1).imp fun _ hj => ⟨hj, h.2⟩
  perm_of_bound h := s.perm_of_bound h.1

@[simps] def createPerm (p : P) (k : K) : Rbac R P U I J K M where
  __ := s
  perm p' k' := s.perm p' k' ∨ ((∃ i, s.info i) ∧ ∀ k, ¬ s.perm p k) ∧ p' = p ∧ k' = k
  perm_unique := by
    rintro p' k₁ k₂ (h | ⟨h, rfl, rfl⟩) (h' | ⟨h', hp, rfl⟩)
    · exact s.perm_unique h h'
    · exact absurd h (hp ▸ h'.2 k₁)
    · exact absurd h' (h.2 k₂)
    · rfl
  info_of_perm := by
    rintro p' k' (h | ⟨h, -⟩)
    · exact s.info_of_perm h
    · exact h.1
  perm_of_bound h := (s.perm_of_bound h).imp fun _ => Or.inl

@[simps] def updatePerm (p : P) (f : K → Option K) : Rbac R P U I J K M where
  __ := s
  perm p' k' := ∃ k, s.perm p' k ∧ (p' = p ∧ (f k).getD k = k' ∨ p' ≠ p ∧ k = k')
  perm_unique := by
    rintro p' k₁ k₂ ⟨k, h, hk⟩ ⟨k', h', hk'⟩
    obtain rfl := s.perm_unique h h'
    rcases hk with ⟨hp, rfl⟩ | ⟨hp, rfl⟩ <;> rcases hk' with ⟨hp', rfl⟩ | ⟨hp', rfl⟩
    · rfl
    · exact absurd hp hp'
    · exact absurd hp' hp
    · rfl
  info_of_perm := by
    rintro p' k' ⟨k, h, -⟩
    exact s.info_of_perm h
  perm_of_bound := by
    intro r p' h
    obtain ⟨k, hk⟩ := s.perm_of_bound h
    by_cases hp : p' = p
    · exact ⟨_, k, hk, Or.inl ⟨hp, rfl⟩⟩
    · exact ⟨_, k, hk, Or.inr ⟨hp, rfl⟩⟩

@[simps] def deletePerm (p : P) : Rbac R P U I J K M where
  __ := s
  perm p' k := s.perm p' k ∧ p' ≠ p
  bound r p' := s.bound r p' ∧ p' ≠ p
  perm_unique h h' := s.perm_unique h.1 h'.1
  info_of_perm h := s.info_of_perm h.1
  role_of_bound h := s.role_of_bound h.1
  perm_of_bound h := (s.perm_of_bound h.1).imp fun _ hk => ⟨hk, h.2⟩

@[simps] def assign (x : U) (r : R) (m : M) : Rbac R P U I J K M where
  __ := s
  member x' r' m' := s.member x' r' m' ∨
    ((∃ j, s.role r j) ∧ ∀ m, ¬ s.member x r m) ∧ x' = x ∧ r' = r ∧ m' = m
  member_unique := by
    rintro x' r' m₁ m₂ (h | ⟨h, rfl, rfl, rfl⟩) (h' | ⟨h', hx, hr, rfl⟩)
    · exact s.member_unique h h'
    · exact absurd h (hx ▸ hr ▸ h'.2 m₁)
    · exact absurd h' (h.2 m₂)
    · rfl
  role_of_member := by
    rintro x' r' m' (h | ⟨h, -, rfl, -⟩)
    · exact s.role_of_member h
    · exact h.1

@[simps] def revoke (x : U) (r : R) : Rbac R P U I J K M where
  __ := s
  member x' r' m := s.member x' r' m ∧ ¬ (x' = x ∧ r' = r)
  member_unique h h' := s.member_unique h.1 h'.1
  role_of_member h := s.role_of_member h.1

@[simps] def bind (r : R) (p : P) : Rbac R P U I J K M where
  __ := s
  bound r' p' := s.bound r' p' ∨ ((∃ j, s.role r j) ∧ ∃ k, s.perm p k) ∧ r' = r ∧ p' = p
  role_of_bound := by
    rintro r' p' (h | ⟨h, rfl, -⟩)
    · exact s.role_of_bound h
    · exact h.1
  perm_of_bound := by
    rintro r' p' (h | ⟨h, -, rfl⟩)
    · exact s.perm_of_bound h
    · exact h.2

@[simps] def unbind (r : R) (p : P) : Rbac R P U I J K M where
  __ := s
  bound r' p' := s.bound r' p' ∧ ¬ (r' = r ∧ p' = p)
  role_of_bound h := s.role_of_bound h.1
  perm_of_bound h := s.perm_of_bound h.1

/-- The state after an edit; one that is refused leaves it as it is. -/
def after : Edit R P U I J K M → Rbac R P U I J K M
  | .answer _ => s
  | .create i => s.create i
  | .update f => s.update f
  | .delete => absent
  | .createRole r j => s.createRole r j
  | .updateRole r f => s.updateRole r f
  | .deleteRole r => s.deleteRole r
  | .createPerm p k => s.createPerm p k
  | .updatePerm p f => s.updatePerm p f
  | .deletePerm p => s.deletePerm p
  | .assign x r m => s.assign x r m
  | .revoke x r => s.revoke x r
  | .bind r p => s.bind r p
  | .unbind r p => s.unbind r p

/-- The user holds the permission in an application of which `enabled` is known. -/
def Grants (enabled : I → Prop) (x : U) (p : P) : Prop :=
  (∃ i, s.info i ∧ enabled i) ∧ ∃ r m, s.member x r m ∧ s.bound r p

/-! ## Edits that are refused, and edits that are repeated -/

variable {s} {e e' : Edit R P U I J K M}

/-- An update that makes nothing new of what is known. -/
theorem update_eq_self {f : I → Option I} (h : ∀ i, s.info i → (f i).getD i = i) :
    s.update f = s := by
  refine Rbac.ext (funext fun i' => propext ?_) rfl rfl rfl rfl
  constructor
  · rintro ⟨i, hi, rfl⟩
    rw [h i hi]
    exact hi
  · exact fun hi => ⟨i', hi, h i' hi⟩

theorem updateRole_eq_self {r : R} {f : J → Option J} (h : ∀ j, s.role r j → (f j).getD j = j) :
    s.updateRole r f = s := by
  refine Rbac.ext rfl (funext₂ fun r' j' => propext ?_) rfl rfl rfl
  constructor
  · rintro ⟨j, hj, ⟨rfl, rfl⟩ | ⟨-, rfl⟩⟩
    · rw [h j hj]
      exact hj
    · exact hj
  · intro hj
    by_cases hr : r' = r
    · subst hr
      exact ⟨j', hj, Or.inl ⟨rfl, h j' hj⟩⟩
    · exact ⟨j', hj, Or.inr ⟨hr, rfl⟩⟩

theorem updatePerm_eq_self {p : P} {f : K → Option K} (h : ∀ k, s.perm p k → (f k).getD k = k) :
    s.updatePerm p f = s := by
  refine Rbac.ext rfl rfl (funext₂ fun p' k' => propext ?_) rfl rfl
  constructor
  · rintro ⟨k, hk, ⟨rfl, rfl⟩ | ⟨-, rfl⟩⟩
    · rw [h k hk]
      exact hk
    · exact hk
  · intro hk
    by_cases hp : p' = p
    · subst hp
      exact ⟨k', hk, Or.inl ⟨rfl, h k' hk⟩⟩
    · exact ⟨k', hk, Or.inr ⟨hp, rfl⟩⟩

/-- **An edit that is refused does nothing.** -/
theorem after_of_refused (h : ¬ s.Accepts e) : s.after e = s := by
  cases e with
  | answer => rfl
  | create i =>
      refine Rbac.ext (funext fun i' => propext ?_) rfl rfl rfl rfl
      exact or_iff_left fun hnew => h hnew.1
  | update f =>
      refine update_eq_self fun i hi => ?_
      cases hf : f i with
      | none => rfl
      | some i' =>
          by_contra hne
          exact h ⟨i, hi, i', hf, hne⟩
  | delete =>
      have hinfo : ∀ i, ¬ s.info i := fun i hi => h ⟨i, hi⟩
      have hrole : ∀ r j, ¬ s.role r j := fun r j hj => (s.info_of_role hj).elim hinfo
      have hperm : ∀ p k, ¬ s.perm p k := fun p k hk => (s.info_of_perm hk).elim hinfo
      have hmember : ∀ x r m, ¬ s.member x r m := fun x r m hm => (s.role_of_member hm).elim (hrole r)
      have hbound : ∀ r p, ¬ s.bound r p := fun r p hb => (s.role_of_bound hb).elim (hrole r)
      simp only [after]
      ext <;> simp [hinfo, hrole, hperm, hmember, hbound]
  | createRole r j =>
      refine Rbac.ext rfl (funext₂ fun r' j' => propext ?_) rfl rfl rfl
      exact or_iff_left fun hnew => h hnew.1
  | updateRole r f =>
      refine updateRole_eq_self fun j hj => ?_
      cases hf : f j with
      | none => rfl
      | some j' =>
          refine absurd ⟨s.info_of_role hj, fun j₁ hj₁ => ?_⟩ h
          rw [s.role_unique hj₁ hj, hf, Option.isSome_some]
  | deleteRole r =>
      have hne : ∀ {r' j}, s.role r' j → r' ≠ r := by
        rintro r' j hj rfl
        exact h ⟨j, hj⟩
      have hmember : ∀ {x r' m}, s.member x r' m → r' ≠ r :=
        fun hm => (s.role_of_member hm).elim fun _ => hne
      have hbound : ∀ {r' p}, s.bound r' p → r' ≠ r := fun hb => (s.role_of_bound hb).elim fun _ => hne
      exact Rbac.ext rfl (funext₂ fun _ _ => propext (and_iff_left_of_imp hne)) rfl
        (funext₃ fun _ _ _ => propext (and_iff_left_of_imp hmember))
        (funext₂ fun _ _ => propext (and_iff_left_of_imp hbound))
  | createPerm p k =>
      refine Rbac.ext rfl rfl (funext₂ fun p' k' => propext ?_) rfl rfl
      exact or_iff_left fun hnew => h hnew.1
  | updatePerm p f =>
      refine updatePerm_eq_self fun k hk => ?_
      cases hf : f k with
      | none => rfl
      | some k' =>
          refine absurd ⟨s.info_of_perm hk, fun k₁ hk₁ => ?_⟩ h
          rw [s.perm_unique hk₁ hk, hf, Option.isSome_some]
  | deletePerm p =>
      have hne : ∀ {p' k}, s.perm p' k → p' ≠ p := by
        rintro p' k hk rfl
        exact h ⟨k, hk⟩
      have hbound : ∀ {r p'}, s.bound r p' → p' ≠ p := fun hb => (s.perm_of_bound hb).elim fun _ => hne
      exact Rbac.ext rfl rfl (funext₂ fun _ _ => propext (and_iff_left_of_imp hne)) rfl
        (funext₂ fun _ _ => propext (and_iff_left_of_imp hbound))
  | assign x r m =>
      refine Rbac.ext rfl rfl rfl (funext₃ fun x' r' m' => propext ?_) rfl
      exact or_iff_left fun hnew => h hnew.1
  | revoke x r =>
      refine Rbac.ext rfl rfl rfl (funext₃ fun x' r' m' => propext (and_iff_left_of_imp ?_)) rfl
      rintro hm ⟨rfl, rfl⟩
      exact h ⟨m', hm⟩
  | bind r p =>
      refine Rbac.ext rfl rfl rfl rfl (funext₂ fun r' p' => propext (or_iff_left_of_imp ?_))
      rintro ⟨⟨hr, hp⟩, rfl, rfl⟩
      by_contra hnot
      exact h ⟨hr, hp, hnot⟩
  | unbind r p =>
      refine Rbac.ext rfl rfl rfl rfl (funext₂ fun r' p' => propext (and_iff_left_of_imp ?_))
      rintro hb ⟨rfl, rfl⟩
      exact h hb

/-- An edit that asks once more for what another has asked for, whatever it says of it. -/
def Edit.Repeats : Edit R P U I J K M → Edit R P U I J K M → Prop
  | .create _, .create _ | .delete, .delete => True
  | .createRole r' _, .createRole r _ | .deleteRole r', .deleteRole r => r' = r
  | .createPerm p' _, .createPerm p _ | .deletePerm p', .deletePerm p => p' = p
  | .assign x' r' _, .assign x r _ | .revoke x' r', .revoke x r => x' = x ∧ r' = r
  | .bind r' p', .bind r p | .unbind r' p', .unbind r p => r' = r ∧ p' = p
  | _, _ => False

theorem Edit.Repeats.self (h : e'.Repeats e) : e'.Repeats e' := by
  cases e' with
  | answer | update | updateRole | updatePerm => cases e <;> cases h
  | _ => simp [Edit.Repeats]

/-- **What has been created or deleted is not created or deleted again.** -/
theorem not_accepts_after (h : e'.Repeats e) : ¬ (s.after e).Accepts e' := by
  cases e <;> cases e' <;> simp only [Edit.Repeats] at h
  case create i i' =>
    by_cases hinfo : ∃ i, s.info i
    · obtain ⟨i₁, hi⟩ := hinfo
      exact fun hnew => hnew i₁ (Or.inl hi)
    · exact fun hnew => hnew i (Or.inr ⟨fun i₁ hi => hinfo ⟨i₁, hi⟩, rfl⟩)
  case delete => simp [Accepts, after]
  case createRole r j r' j' =>
    subst h
    rintro ⟨hinfo, hnew⟩
    by_cases hrole : ∃ j, s.role r' j
    · obtain ⟨j₁, hj⟩ := hrole
      exact hnew j₁ (Or.inl hj)
    · exact hnew j (Or.inr ⟨⟨hinfo, fun j₁ hj => hrole ⟨j₁, hj⟩⟩, rfl, rfl⟩)
  case deleteRole r r' =>
    subst h
    rintro ⟨j, -, hne⟩
    exact hne rfl
  case createPerm p k p' k' =>
    subst h
    rintro ⟨hinfo, hnew⟩
    by_cases hperm : ∃ k, s.perm p' k
    · obtain ⟨k₁, hk⟩ := hperm
      exact hnew k₁ (Or.inl hk)
    · exact hnew k (Or.inr ⟨⟨hinfo, fun k₁ hk => hperm ⟨k₁, hk⟩⟩, rfl, rfl⟩)
  case deletePerm p p' =>
    subst h
    rintro ⟨k, -, hne⟩
    exact hne rfl
  case assign x r m x' r' m' =>
    obtain ⟨rfl, rfl⟩ := h
    rintro ⟨hrole, hnew⟩
    by_cases hmember : ∃ m, s.member x' r' m
    · obtain ⟨m₁, hm⟩ := hmember
      exact hnew m₁ (Or.inl hm)
    · exact hnew m (Or.inr ⟨⟨hrole, fun m₁ hm => hmember ⟨m₁, hm⟩⟩, rfl, rfl, rfl⟩)
  case revoke x r x' r' =>
    rintro ⟨m, -, hne⟩
    exact hne h
  case bind r p r' p' =>
    obtain ⟨rfl, rfl⟩ := h
    rintro ⟨hrole, hperm, hnew⟩
    exact hnew (Or.inr ⟨⟨hrole, hperm⟩, rfl, rfl⟩)
  case unbind r p r' p' =>
    rintro ⟨-, hne⟩
    exact hne h

/-! ## What an edit brings about, and what it leaves -/

section Frame
variable {x : U} {r : R} {p : P} {i : I} {j : J} {k : K} {m : M}

theorem info_of_after (h : (s.after e).info i) : (∃ i, s.info i) ∨ ∃ i, e = .create i := by
  cases e with
  | create i' => exact Or.inr ⟨i', rfl⟩
  | update f => exact Or.inl (h.imp fun _ => And.left)
  | delete => cases h
  | _ => exact Or.inl ⟨i, h⟩

theorem role_of_after (h : (s.after e).role r j) :
    (∃ j, s.role r j) ∨ ∃ j, e = .createRole r j := by
  cases e with
  | createRole r' j' =>
      rcases h with h | ⟨-, rfl, -⟩
      · exact Or.inl ⟨j, h⟩
      · exact Or.inr ⟨j', rfl⟩
  | updateRole r' f => exact Or.inl (h.imp fun _ => And.left)
  | deleteRole r' => exact Or.inl ⟨j, h.1⟩
  | delete => cases h
  | _ => exact Or.inl ⟨j, h⟩

theorem perm_of_after (h : (s.after e).perm p k) :
    (∃ k, s.perm p k) ∨ ∃ k, e = .createPerm p k := by
  cases e with
  | createPerm p' k' =>
      rcases h with h | ⟨-, rfl, -⟩
      · exact Or.inl ⟨k, h⟩
      · exact Or.inr ⟨k', rfl⟩
  | updatePerm p' f => exact Or.inl (h.imp fun _ => And.left)
  | deletePerm p' => exact Or.inl ⟨k, h.1⟩
  | delete => cases h
  | _ => exact Or.inl ⟨k, h⟩

theorem member_of_after (h : (s.after e).member x r m) : s.member x r m ∨ e = .assign x r m := by
  cases e with
  | assign x' r' m' =>
      rcases h with h | ⟨-, rfl, rfl, rfl⟩
      · exact Or.inl h
      · exact Or.inr rfl
  | deleteRole | revoke => exact Or.inl h.1
  | delete => cases h
  | _ => exact Or.inl h

theorem bound_of_after (h : (s.after e).bound r p) : s.bound r p ∨ e = .bind r p := by
  cases e with
  | bind r' p' =>
      rcases h with h | ⟨-, rfl, rfl⟩
      · exact Or.inl h
      · exact Or.inr rfl
  | deleteRole | deletePerm | unbind => exact Or.inl h.1
  | delete => cases h
  | _ => exact Or.inl h

theorem info_after (h : s.info i) : (∃ i, (s.after e).info i) ∨ e = .delete := by
  cases e with
  | create i' => exact Or.inl ⟨i, Or.inl h⟩
  | update f => exact Or.inl ⟨_, i, h, rfl⟩
  | delete => exact Or.inr rfl
  | _ => exact Or.inl ⟨i, h⟩

theorem role_after (h : s.role r j) :
    (∃ j, (s.after e).role r j) ∨ e = .deleteRole r ∨ e = .delete := by
  cases e with
  | createRole r' j' => exact Or.inl ⟨j, Or.inl h⟩
  | updateRole r' f =>
      by_cases hr : r = r'
      · exact Or.inl ⟨_, j, h, Or.inl ⟨hr, rfl⟩⟩
      · exact Or.inl ⟨_, j, h, Or.inr ⟨hr, rfl⟩⟩
  | deleteRole r' =>
      by_cases hr : r = r'
      · exact Or.inr (Or.inl (hr ▸ rfl))
      · exact Or.inl ⟨j, h, hr⟩
  | delete => exact Or.inr (Or.inr rfl)
  | _ => exact Or.inl ⟨j, h⟩

theorem perm_after (h : s.perm p k) :
    (∃ k, (s.after e).perm p k) ∨ e = .deletePerm p ∨ e = .delete := by
  cases e with
  | createPerm p' k' => exact Or.inl ⟨k, Or.inl h⟩
  | updatePerm p' f =>
      by_cases hp : p = p'
      · exact Or.inl ⟨_, k, h, Or.inl ⟨hp, rfl⟩⟩
      · exact Or.inl ⟨_, k, h, Or.inr ⟨hp, rfl⟩⟩
  | deletePerm p' =>
      by_cases hp : p = p'
      · exact Or.inr (Or.inl (hp ▸ rfl))
      · exact Or.inl ⟨k, h, hp⟩
  | delete => exact Or.inr (Or.inr rfl)
  | _ => exact Or.inl ⟨k, h⟩

theorem member_after (h : s.member x r m) : (s.after e).member x r m ∨ e = .revoke x r ∨
    e = .deleteRole r ∨ e = .delete := by
  cases e with
  | assign x' r' m' => exact Or.inl (Or.inl h)
  | deleteRole r' =>
      by_cases hr : r = r'
      · exact Or.inr (Or.inr (Or.inl (hr ▸ rfl)))
      · exact Or.inl ⟨h, hr⟩
  | revoke x' r' =>
      by_cases hx : x = x' ∧ r = r'
      · exact Or.inr (Or.inl (hx.1 ▸ hx.2 ▸ rfl))
      · exact Or.inl ⟨h, hx⟩
  | delete => exact Or.inr (Or.inr (Or.inr rfl))
  | _ => exact Or.inl h

theorem bound_after (h : s.bound r p) : (s.after e).bound r p ∨ e = .unbind r p ∨
    e = .deleteRole r ∨ e = .deletePerm p ∨ e = .delete := by
  cases e with
  | bind r' p' => exact Or.inl (Or.inl h)
  | deleteRole r' =>
      by_cases hr : r = r'
      · exact Or.inr (Or.inr (Or.inl (hr ▸ rfl)))
      · exact Or.inl ⟨h, hr⟩
  | deletePerm p' =>
      by_cases hp : p = p'
      · exact Or.inr (Or.inr (Or.inr (Or.inl (hp ▸ rfl))))
      · exact Or.inl ⟨h, hp⟩
  | unbind r' p' =>
      by_cases hr : r = r' ∧ p = p'
      · exact Or.inr (Or.inl (hr.1 ▸ hr.2 ▸ rfl))
      · exact Or.inl ⟨h, hr⟩
  | delete => exact Or.inr (Or.inr (Or.inr (Or.inr rfl)))
  | _ => exact Or.inl h

end Frame

/-- An edit after which another one, which was refused, may be accepted: it takes away what
was in the way, or makes what was missing. -/
def Edit.Reopens : Edit R P U I J K M → Edit R P U I J K M → Prop
  | .delete, .create _ => True
  | .create _, .delete | .create _, .createRole _ _ | .create _, .createPerm _ _ => True
  | .deleteRole r', .createRole r _ | .createRole r' _, .deleteRole r => r' = r
  | .deletePerm p', .createPerm p _ | .createPerm p' _, .deletePerm p => p' = p
  | .revoke x' r', .assign x r _ | .assign x' r' _, .revoke x r => x' = x ∧ r' = r
  | .createRole r' _, .assign _ r _ | .createRole r' _, .bind r _ => r' = r
  | .unbind r' p', .bind r p | .bind r' p', .unbind r p => r' = r ∧ p' = p
  | .createPerm p' _, .bind _ p => p' = p
  | _, _ => False

/-- **What is refused stays refused** until it is reopened. -/
theorem not_accepts_after_of_not_reopens (hkind : e.Repeats e) (h : ¬ s.Accepts e)
    (hopen : ¬ e'.Reopens e) : ¬ (s.after e').Accepts e := by
  intro hacc
  cases e with
  | create i =>
      refine h fun i₁ hi => ?_
      rcases info_after (e := e') hi with ⟨i₂, hi₂⟩ | rfl
      · exact hacc i₂ hi₂
      · exact hopen trivial
  | delete =>
      obtain ⟨i, hi⟩ := hacc
      rcases info_of_after hi with hinfo | ⟨i', rfl⟩
      · exact h hinfo
      · exact hopen trivial
  | createRole r j =>
      obtain ⟨⟨i, hi⟩, hnew⟩ := hacc
      rcases info_of_after hi with hinfo | ⟨i', rfl⟩
      · refine h ⟨hinfo, fun j₁ hj => ?_⟩
        rcases role_after (e := e') hj with ⟨j₂, hj₂⟩ | rfl | rfl
        · exact hnew j₂ hj₂
        · exact hopen rfl
        · exact hi
      · exact hopen trivial
  | deleteRole r =>
      obtain ⟨j, hj⟩ := hacc
      rcases role_of_after hj with hrole | ⟨j', rfl⟩
      · exact h hrole
      · exact hopen rfl
  | createPerm p k =>
      obtain ⟨⟨i, hi⟩, hnew⟩ := hacc
      rcases info_of_after hi with hinfo | ⟨i', rfl⟩
      · refine h ⟨hinfo, fun k₁ hk => ?_⟩
        rcases perm_after (e := e') hk with ⟨k₂, hk₂⟩ | rfl | rfl
        · exact hnew k₂ hk₂
        · exact hopen rfl
        · exact hi
      · exact hopen trivial
  | deletePerm p =>
      obtain ⟨k, hk⟩ := hacc
      rcases perm_of_after hk with hperm | ⟨k', rfl⟩
      · exact h hperm
      · exact hopen rfl
  | assign x r m =>
      obtain ⟨⟨j, hj⟩, hnew⟩ := hacc
      rcases role_of_after hj with hrole | ⟨j', rfl⟩
      · refine h ⟨hrole, fun m₁ hm => ?_⟩
        rcases member_after (e := e') hm with hm | rfl | rfl | rfl
        · exact hnew m₁ hm
        · exact hopen ⟨rfl, rfl⟩
        · exact hj.2 rfl
        · exact hj
      · exact hopen rfl
  | revoke x r =>
      obtain ⟨m, hm⟩ := hacc
      rcases member_of_after hm with hm | rfl
      · exact h ⟨m, hm⟩
      · exact hopen ⟨rfl, rfl⟩
  | bind r p =>
      obtain ⟨⟨j, hj⟩, ⟨k, hk⟩, hnew⟩ := hacc
      rcases role_of_after hj with hrole | ⟨j', rfl⟩
      · rcases perm_of_after hk with hperm | ⟨k', rfl⟩
        · refine h ⟨hrole, hperm, fun hb => ?_⟩
          rcases bound_after (e := e') hb with hb | rfl | rfl | rfl | rfl
          · exact hnew hb
          · exact hopen ⟨rfl, rfl⟩
          · exact hj.2 rfl
          · exact hk.2 rfl
          · exact hj
        · exact hopen rfl
      · exact hopen rfl
  | unbind r p =>
      rcases bound_of_after hacc with hb | rfl
      · exact h hb
      · exact hopen ⟨rfl, rfl⟩
  | _ => exact hkind

/-! ## Many applications -/

section Many
variable {A : Type u} {a b : A}

open Classical in
/-- An edit of one application among many. -/
noncomputable def perform (s : A → Rbac R P U I J K M) (x : A × Edit R P U I J K M) :
    A → Rbac R P U I J K M :=
  Function.update s x.1 ((s x.1).after x.2)

variable {s : A → Rbac R P U I J K M}

@[simp] theorem perform_self : perform s (a, e) a = (s a).after e := by
  classical exact Function.update_self _ _ _

@[simp] theorem perform_of_ne (h : b ≠ a) : perform s (a, e) b = s b := by
  classical exact Function.update_of_ne h _ _

theorem perform_eq_self (h : (s a).after e = s a) : perform s (a, e) = s := by
  classical
  simp only [perform, h]
  exact Function.update_eq_self _ _

/-- Updating what is not there does nothing. -/
theorem perform_update_absent {g : I → Option I} (h : ∀ i, ¬ (s a).info i) :
    perform s (a, .update g) = s :=
  perform_eq_self (update_eq_self fun i hi => absurd hi (h i))

theorem perform_updateRole_absent {r : R} {g : J → Option J} (h : ∀ j, ¬ (s a).role r j) :
    perform s (a, .updateRole r g) = s :=
  perform_eq_self (updateRole_eq_self fun j hj => absurd hj (h j))

theorem perform_updatePerm_absent {p : P} {g : K → Option K} (h : ∀ k, ¬ (s a).perm p k) :
    perform s (a, .updatePerm p g) = s :=
  perform_eq_self (updatePerm_eq_self fun k hk => absurd hk (h k))

theorem perform_of_refused (h : ¬ (s a).Accepts e) : perform s (a, e) = s :=
  perform_eq_self (after_of_refused h)

end Many

end Rbac
end SiqiAuth.Lib
