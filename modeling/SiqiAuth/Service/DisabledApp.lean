import SiqiAuth.Service.DecisionPaths

/-!
# Disabled apps

Once an app is disabled, the decisions that ask `checkPermission` are denials, until
it is enabled or created again.  `Check` never looks at the app's status: it denies
exactly if the entry in the cache lacks the permission or, when there is none, the
user does not reach the permission in the tables.

## Main definitions

* `Db.Disabled` — no app with the code is enabled.
* `Disables`, `Reenables` — the successful RPCs that begin and end that.
* `Server.Withholds` — what makes `Check` deny.
* `disabled_app_denies` — the decisions while an app is disabled.
-/

namespace SiqiAuth
open Lib AuthService

variable {c : Collation}

/-- No app with the code is enabled. -/
def Db.Disabled (db : Db c) (a : String) : Prop :=
  ∀ app ∈ db.sysApps, c.same app.appCode a = true → app.status ≠ 1

/-- The operation is one that can leave an app with the code enabled. -/
def DaoOp.Enables (c : Collation) (a : String) : DaoOp → Prop
  | .createApp _ a' _ => c.same (varchar 32 a') a = true
  | .updateApp a' _ _ (some 1) => c.same a' a = true
  | _ => False

/-- An operation that does not enable the app leaves it disabled. -/
theorem DaoOp.Effect.disabled {db db' : Db c} {op : DaoOp} {r : Bool} {a : String}
    (h : Effect db op r db') (hd : db.Disabled a) (hop : ¬ op.Enables c a) : db'.Disabled a := by
  intro app' happ' hcode
  cases h with
  | createApp secret now ht =>
      rcases (Table.mem_insert_iff ht app').mp happ' with happ | rfl
      · exact hd app' happ hcode
      · exact absurd hcode hop
  | @updateApp a' n d st r now =>
      obtain ⟨app, happ, rfl⟩ := Db.mem_setApp.mp happ'
      by_cases hupdated : c.same app.appCode a' = true
      · rw [if_pos hupdated, SysApp.appCode_set] at hcode
        rw [if_pos hupdated, SysApp.status_set]
        cases st with
        | none => exact hd app happ hcode
        | some st =>
            rintro rfl
            exact hop (c.same_trans _ _ _ (c.same_comm hupdated) hcode)
      · rw [if_neg hupdated] at hcode ⊢
        exact hd app happ hcode
  | deleteApp => exact hd app' (Table.mem_delete.mp happ').1 hcode
  | _ => exact hd app' happ' hcode

/-- A call that sets the status of the app to another value than 1, with success. -/
def Disables (cfg : Config) (s : Server c) (x : Call) (a : String) : Prop :=
  ∃ n d st header r, x.rpc = .edit (.updateApp a n d (some st)) header ∧ st ≠ 1 ∧
    s.reply cfg x = .edit r ∧ r.success = true

/-- A call that sets the status of the app back to 1, or creates the app, with success. -/
def Reenables (cfg : Config) (s : Server c) (x : Call) (a : String) : Prop :=
  ∃ req header r, x.rpc = .edit req header ∧ req.edit.op.Enables c a ∧
    s.reply cfg x = .edit r ∧ r.success = true

theorem disabled_of_disables {cfg : Config} {s : Server c} {x : Call} {a : String}
    (h : Disables cfg s x a) : (s.step cfg x).db.Disabled a := by
  obtain ⟨rpc, env⟩ := x
  obtain ⟨n, d, st, header, r, rfl, hst, hr, hsuccess⟩ := h
  have hserved := s.served cfg ⟨.edit (.updateApp a n d (some st)) header, env⟩
  rw [hr] at hserved
  obtain ⟨db, heffect, t, hdb⟩ := hserved.edit_success hsuccess
  rw [hdb]
  intro app' happ' hcode
  have heffect : DaoOp.Effect s.db (.updateApp a n d (some st)) true db := heffect
  cases heffect with
  | nothing hidle => simp [DaoOp.idle] at hidle
  | updateApp _ now =>
      obtain ⟨app, happ, rfl⟩ := Db.mem_setApp.mp happ'
      by_cases hupdated : c.same app.appCode a = true
      · rw [if_pos hupdated, SysApp.status_set]
        exact hst
      · rw [if_neg hupdated] at hcode
        exact absurd hcode hupdated

/-- A call that does not enable the app again leaves it disabled. -/
theorem disabled_step {cfg : Config} {s : Server c} {x : Call} {a : String}
    (hd : s.db.Disabled a) (hx : ¬ Reenables cfg s x a) : (s.step cfg x).db.Disabled a := by
  have hserved := s.served cfg x
  by_cases hedit : ∀ req header, x.rpc ≠ .edit req header
  · rw [hserved.db_eq hedit]
    exact hd
  · push Not at hedit
    obtain ⟨req, header, hrpc⟩ := hedit
    obtain ⟨rpc, env⟩ := x
    obtain rfl : rpc = .edit req header := hrpc
    cases hr : s.reply cfg ⟨.edit req header, env⟩ with
    | edit r =>
        rw [hr] at hserved
        cases hsuccess : r.success with
        | false =>
            rw [hserved.edit_failure hsuccess]
            exact hd
        | true =>
            obtain ⟨db, heffect, t, hdb⟩ := hserved.edit_success hsuccess
            rw [hdb]
            exact heffect.disabled hd fun hop => hx ⟨req, header, r, rfl, hop, hr, hsuccess⟩
    | _ =>
        rw [hr] at hserved
        cases hserved

/-- The entry in the cache lacks the permission; or there is none, and the user does not
reach the permission in the tables. -/
def Server.Withholds (s : Server c) (req : CheckRequest) : Prop :=
  (∀ perms, s.cache.peek s.nextNow (cacheKey req.appCode req.userId) = some perms →
    req.permKey ∉ perms) ∧
  (s.Cold req.appCode req.userId → ∀ app ∈ s.db.sysApps, c.same app.appCode req.appCode = true →
    ∀ perm, s.db.Reaches app req.userId perm → perm.permKey ≠ req.permKey)

theorem notMem_permKeys_iff {db : Db c} {a u p : String} : p ∉ db.permKeys a u ↔
    ∀ app ∈ db.sysApps, c.same app.appCode a = true → ∀ perm, db.Reaches app u perm →
      perm.permKey ≠ p := by
  rw [Db.mem_permKeys]
  constructor
  · intro h app happ hcode perm hperm hkey
    exact h ⟨app, happ, hcode, perm, hperm, hkey⟩
  · rintro h ⟨app, happ, hcode, perm, hperm, hkey⟩
    exact h app happ hcode perm hperm hkey

/-- A complete check denies if the permission is withheld and, unless its read fails,
only then. -/
theorem check_denies {cfg : Config} {s s' : Server c} {req : CheckRequest} {r : CheckResponse}
    (hreq : req.Complete) (h : (check cfg req).run s = (r, s')) :
    (s.Withholds req → r.allowed = some false) ∧
      (s.Healthy → r.allowed = some false → s.Withholds req) := by
  simp only [Server.Withholds, ← notMem_permKeys_iff]
  cases check_spec h with
  | incomplete hincomplete => exact absurd hreq hincomplete
  | hit _ hpeek hallowed =>
      rw [hallowed, Option.some_inj, decide_eq_false_iff_not]
      refine ⟨fun hw => hw.1 _ hpeek, fun _ hp => ⟨fun perms hperms => ?_, fun hcold => ?_⟩⟩
      · rw [hpeek] at hperms
        cases hperms
        exact hp
      · rw [hcold] at hpeek
        cases hpeek
  | miss _ hpeek hallowed =>
      rw [hallowed, Option.some_inj, decide_eq_false_iff_not]
      refine ⟨fun hw hp => hw.2 hpeek (loaded_subset _ _ _ hp), fun hs hp => ⟨?_, fun _ => ?_⟩⟩
      · intro perms hperms
        rw [hpeek] at hperms
        cases hperms
      · rw [← loaded_eq (readsThrough_of_succeeds hs)]
        exact hp

/-- In a disabled app `checkPermission` answers false, whatever happens. -/
theorem checkPermission_disabled {σ : DaoState c} {a a' : String} (hd : σ.db.Disabled a)
    (ha : c.same a' a = true) (u p res : String) :
    ((PermissionDAO.checkPermission a' u p res).run σ).1 = false := by
  rw [Bool.eq_false_iff]
  intro h
  obtain ⟨app, happ, hcode, hst, -⟩ :=
    Db.exists_selectCheckPermission_iff.mp (PermissionDAO.checkPermission_sound h)
  exact hd app happ (c.same_trans _ _ _ hcode ha) hst

/-- And so does a batch of such questions. -/
theorem batchCheckPermissions_disabled {a a' : String} (ha : c.same a' a = true)
    (requests : List (String × String)) {σ : DaoState c} (hd : σ.db.Disabled a) :
    ∀ b ∈ ((PermissionDAO.batchCheckPermissions a' requests).run σ).1, b = false := by
  induction requests generalizing σ with
  | nil => exact fun b hb => absurd hb List.not_mem_nil
  | cons req rest ih =>
      intro b hb
      have hquiet := (PermissionDAO.checkPermission_reads a' req.1 req.2 "").quiet σ
      have hcons : ((PermissionDAO.batchCheckPermissions a' (req :: rest)).run σ).1 =
          ((PermissionDAO.checkPermission a' req.1 req.2 "").run σ).1 ::
            ((PermissionDAO.batchCheckPermissions a' rest).run
              ((PermissionDAO.checkPermission a' req.1 req.2 "").run σ).2).1 := by
        simp only [PermissionDAO.batchCheckPermissions, List.mapM_cons]
        rfl
      rw [hcons, List.mem_cons] at hb
      obtain rfl | hb := hb
      · exact checkPermission_disabled hd ha _ _ _
      · refine ih ?_ b hb
        rw [hquiet.db_eq]
        exact hd

/-- **While an app is disabled** the batches and the agent deny, whatever the cache holds
and the database does; a check denies if it is incomplete or the permission is withheld
and, unless its read fails, only then. -/
theorem disabled_app_denies (cfg : Config) {s : Server c} {x : Call} {a : String}
    (hx : Disables cfg s x a) (l : List Call)
    (hl : Meets (Server.step cfg) (fun t y => ¬ Reenables cfg t y a) (s.step cfg x) l) (env : Env) :
    let t := (run (Server.step cfg) (s.step cfg x) l).facing env
    (∀ req, c.same req.appCode a = true →
      ∀ res ∈ BatchCheck.results ((batchCheck req).run t).1, res.allowed = some false) ∧
    (∀ req query, c.same (AuthAgent.field req.appCode query.appCode) a = true →
      ((AuthAgent.check req query).run t).1.1.allowed = some false) ∧
    ∀ req, c.same req.appCode a = true →
      (¬ req.Complete ∨ t.Withholds req → ((check cfg req).run t).1.allowed = some false) ∧
      (t.Healthy → ((check cfg req).run t).1.allowed = some false →
        ¬ req.Complete ∨ t.Withholds req) := by
  intro t
  have hd : t.db.Disabled a :=
    run_invariant (P := fun t : Server c => t.db.Disabled a) (fun t y hd hy => disabled_step hd hy)
      (disabled_of_disables hx) hl
  refine ⟨fun req ha res hres => ?_, fun req query ha => ?_, fun req ha => ?_⟩
  · obtain ⟨-, ⟨-, hr⟩ | ⟨answers, hanswers, hr⟩⟩ :=
      batchCheck_spec (Prod.mk.eta (p := (batchCheck req).run t)).symm
    · rw [hr] at hres
      exact absurd hres List.not_mem_nil
    · rw [hr] at hres
      obtain ⟨⟨b, item⟩, hb, rfl⟩ := List.mem_map.mp hres
      rw [hanswers] at hb
      exact congrArg some (batchCheckPermissions_disabled ha _ (σ := t.dao .authService) hd b
        (List.of_mem_zip hb).1)
  · rw [(AuthAgent.check_spec (Prod.mk.eta (p := (AuthAgent.check req query).run t)).symm).2,
      checkPermission_disabled (σ := t.dao .authAgent) hd ha]
    simp
  · by_cases hreq : req.Complete
    · obtain ⟨hdenies, honly⟩ :=
        check_denies hreq (Prod.mk.eta (p := (check cfg req).run t)).symm
      exact ⟨fun h => hdenies (h.resolve_left fun h => h hreq), fun ht h => Or.inr (honly ht h)⟩
    · rw [run_check_of_incomplete hreq]
      exact ⟨fun _ => rfl, fun _ _ => Or.inl hreq⟩

/-- An app is disabled and a role created in it; the agent denies. -/
theorem disabled_app_denies_agent :
    let cfg : Config := { crypt := fun _ hash => some hash }
    let s := (.start 0 : Server .binary).step cfg ⟨.login "admin" "pw" "t", {}⟩
    let x : Call := ⟨.edit (.updateApp "qq_bot" none none (some 0)) (some "Bearer t"), {}⟩
    let l : List Call := [⟨.edit (.createRole "qq_bot" "r" "r" "" false) (some "Bearer t"), {}⟩]
    ((AuthAgent.check ⟨"qq_bot", "100001", "member:kick", ""⟩ {}).run
      ((run (Server.step cfg) (s.step cfg x) l).facing {})).1.1.allowed = some false := by
  intro cfg s x l
  have hx : Disables cfg s x "qq_bot" :=
    ⟨none, none, 0, some "Bearer t", { success := true, message := "更新应用成功" }, rfl, by decide,
      by simp only [s, Server.start_eq_seeded]; decide +kernel, rfl⟩
  have hl : Meets (Server.step cfg) (fun t y => ¬ Reenables cfg t y "qq_bot") (s.step cfg x) l := by
    refine ⟨?_, trivial⟩
    rintro ⟨req, header, r, hrpc, hop, -⟩
    cases hrpc
    exact hop
  exact (disabled_app_denies cfg hx l hl {}).2.1 _ _ (by decide)

/-- The app is disabled, and a check that was never made before allows. -/
theorem disabled_app_is_open :
    let cfg : Config := { crypt := fun _ hash => some hash }
    let s := (.start 0 : Server .binary).step cfg ⟨.login "admin" "pw" "t", {}⟩
    let x : Call := ⟨.edit (.updateApp "qq_bot" none none (some 0)) (some "Bearer t"), {}⟩
    Disables cfg s x "qq_bot" ∧
      ((check cfg ⟨"qq_bot", "100001", "member:kick", ""⟩).run (s.step cfg x)).1.allowed =
        some true := by
  intro cfg s x
  refine ⟨⟨none, none, 0, some "Bearer t", { success := true, message := "更新应用成功" }, rfl,
    by decide, ?_, rfl⟩, ?_⟩
  all_goals
    simp only [s, Server.start_eq_seeded]
    decide +kernel

end SiqiAuth
