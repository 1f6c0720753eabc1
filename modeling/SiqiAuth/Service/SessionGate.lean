import SiqiAuth.Service.Rpc
import SiqiAuth.Store.Wording

/-!
# The session gate

An RPC of the console gets past the session check exactly if its `Authorization`
header carries a token whose latest `Login` lies no longer back than the session's
time to live, and it then acts for the account that logged in.  Any other RPC of the
console is turned away with an answer that depends on nothing stored, and leaves the
tables and the permission cache alone.

## Main definitions

* `Issues` — a call is a login that issues a token.
* `LastIssued` — for whom, and when, a token was last issued.
* `Admits` — a header carries a token that is still good.
* `Speaks` — a handler does no more to the console's last error than the DAO's functions do.
* `session_iff` — the session check admits exactly these.
* `session_gate` — what follows for the RPCs of the console.
-/

namespace SiqiAuth
open Lib AdminService

variable {c : Collation}

/-- The call is a login that matched the password of `user` and issued `token` at `t₀`. -/
def Issues (cfg : Config) (s : Server c) (x : Call) (token : String) (user : SysConsoleUser)
    (t₀ : ℤ) : Prop :=
  ∃ username password r, x.rpc = .login username password token ∧ s.reply cfg x = .login r ∧
    r.success = true ∧ user ∈ s.db.sysConsoleUsers ∧ c.same user.username username = true ∧
      cfg.crypt password user.passwordHash = some user.passwordHash ∧ t₀ = (s.step cfg x).now

/-- A login is that of one account, at one time. -/
theorem Issues.unique {cfg : Config} {s : Server c} {x : Call} {token : String}
    {user user' : SysConsoleUser} {t₀ t' : ℤ} (h : Issues cfg s x token user t₀)
    (k : Issues cfg s x token user' t') : user' = user ∧ t' = t₀ := by
  obtain ⟨username, password, r, hrpc, -, -, huser, hname, -, rfl⟩ := h
  obtain ⟨username', password', r', hrpc', -, -, huser', hname', -, rfl⟩ := k
  rw [hrpc] at hrpc'
  cases hrpc'
  exact ⟨Table.eq_of_clash huser' huser (c.same_trans _ _ _ hname' (c.same_comm hname)), rfl⟩

/-- After the run `l` the last login that issued `token` was that of `user`, at `t₀`. -/
inductive LastIssued (cfg : Config) (s : Server c) :
    List Call → String → SysConsoleUser → ℤ → Prop
  | login {l : List Call} {x : Call} {token : String} {user : SysConsoleUser} {t₀ : ℤ}
      (h : Issues cfg (run (Server.step cfg) s l) x token user t₀) :
      LastIssued cfg s (l ++ [x]) token user t₀
  | keep {l : List Call} {x : Call} {token : String} {user : SysConsoleUser} {t₀ : ℤ}
      (h : LastIssued cfg s l token user t₀)
      (hx : ∀ user' t', ¬ Issues cfg (run (Server.step cfg) s l) x token user' t') :
      LastIssued cfg s (l ++ [x]) token user t₀

/-- The session of an account. -/
def SysConsoleUser.session (user : SysConsoleUser) : SessionInfo :=
  ⟨user.id, user.username, user.realName⟩

/-! ## What a call does to the sessions -/

namespace Server
variable {cfg : Config} {s s' : Server c} {x : Call} {r : Reply}

theorem Served.sysConsoleUsers_eq (h : Served cfg s x r s') :
    s'.db.sysConsoleUsers = s.db.sysConsoleUsers := by
  obtain ⟨op, ok, db, heffect, t, hdb⟩ := h.effect
  rw [hdb]
  exact heffect.sysConsoleUsers_eq

/-- The session check erases at most a session that has expired. -/
theorem find_gated (s : Server c) (header : Option String) (token : String) :
    (s.gated header).sessions.find token = s.sessions.find token ∨
      (s.gated header).sessions.find token = none ∧
        ∀ e, s.sessions.find token = some e → e.expireAt < (s.gated header).now := by
  simp only [gated]
  cases header.bind bearerToken with
  | none => exact Or.inl rfl
  | some token' =>
      simp only [LocalCache.find_snd_get]
      by_cases h : token = token' ∧ s.sessions.peek s.nextNow token' = none
      · refine Or.inr ⟨if_pos h, fun e he => ?_⟩
        by_contra hle
        have hpeek : s.sessions.peek s.nextNow token' = some e.value :=
          LocalCache.peek_eq_some.mpr ⟨e, h.1 ▸ he, not_lt.mp hle, rfl⟩
        rw [h.2] at hpeek
        cases hpeek
      · exact Or.inl (if_neg h)

/-- Whatever is not a login leaves the sessions alone, apart from what has expired. -/
theorem Served.find_session (h : Served cfg s x r s')
    (hx : ∀ username password token, x.rpc ≠ .login username password token) (token : String) :
    s'.sessions.find token = s.sessions.find token ∨ s'.sessions.find token = none ∧
      ∀ e, s.sessions.find token = some e → e.expireAt < s'.now := by
  have hsame : s'.sessions = s.sessions → s'.sessions.find token = s.sessions.find token :=
    fun h => by rw [h]
  have hgated : ∀ env header, s'.sessions = ((s.facing env).gated header).sessions →
      s'.now = ((s.facing env).gated header).now →
      s'.sessions.find token = s.sessions.find token ∨ s'.sessions.find token = none ∧
        ∀ e, s.sessions.find token = some e → e.expireAt < s'.now := by
    intro env header hsessions hnow
    rw [hsessions, hnow]
    exact find_gated (s.facing env) header token
  cases h with
  | check h =>
      cases h with
      | incomplete => exact Or.inl rfl
      | hit _ _ _ _ _ hsessions => exact Or.inl (hsame hsessions)
      | miss _ _ _ _ _ _ hsessions => exact Or.inl (hsame hsessions)
  | batchCheck hkept | agentCheck hkept => exact Or.inl (hsame hkept.sessions_eq)
  | @edit req header env _ _ h =>
      cases h with
      | rejected => exact hgated env header rfl rfl
      | incomplete _ _ _ _ hsessions hnow => exact hgated env header hsessions hnow
      | failed _ _ _ _ _ hsessions hnow => exact hgated env header hsessions hnow
      | done _ _ _ _ _ hsessions hnow => exact hgated env header hsessions hnow
  | @rejectedView req header env => exact hgated env header rfl rfl
  | @view req header env _ _ _ _ hkept => exact hgated env header hkept.sessions_eq hkept.now_eq
  | login => exact absurd rfl (hx _ _ _)

/-- What becomes of the session under a token: a login that issues the token replaces it;
else it stays, or it had expired and is erased. -/
theorem find_step (cfg : Config) (s : Server c) (x : Call) (token : String) :
    (∃ user t₀, Issues cfg s x token user t₀ ∧ (s.step cfg x).sessions.find token =
        some ⟨user.session, t₀ + seconds cfg.sessionTtl⟩) ∨
      (∀ user t₀, ¬ Issues cfg s x token user t₀) ∧
        ((s.step cfg x).sessions.find token = s.sessions.find token ∨
          (s.step cfg x).sessions.find token = none ∧
            ∀ e, s.sessions.find token = some e → e.expireAt < (s.step cfg x).now) := by
  by_cases hx : ∀ username password token, x.rpc ≠ .login username password token
  · refine Or.inr ⟨?_, (s.served cfg x).find_session hx token⟩
    rintro user t₀ ⟨username, password, r, hrpc, -⟩
    exact hx _ _ _ hrpc
  · push Not at hx
    obtain ⟨username, password, token', hrpc⟩ := hx
    obtain ⟨rpc, env⟩ := x
    obtain rfl : rpc = .login username password token' := hrpc
    cases hr : s.reply cfg ⟨.login username password token', env⟩ with
    | login r =>
        have hserved := s.served cfg ⟨.login username password token', env⟩
        rw [hr] at hserved
        cases hserved with
        | login h =>
            cases h with
            | refused hfailed hkept =>
                refine Or.inr ⟨?_, Or.inl (by rw [hkept.sessions_eq]; rfl)⟩
                rintro user t₀ ⟨username', password', r', -, hr', hsuccess, -⟩
                rw [hr] at hr'
                cases hr'
                rw [hfailed] at hsuccess
                cases hsuccess
            | @opened _ user huser hname hpassword _ _ _ hsessions =>
                by_cases htoken : token = token'
                · subst htoken
                  refine Or.inl ⟨user, _, ⟨username, password, _, rfl, hr, rfl, huser, hname,
                    hpassword, rfl⟩, ?_⟩
                  rw [hsessions, LocalCache.find_put, if_pos rfl]
                  rfl
                · refine Or.inr ⟨?_, Or.inl ?_⟩
                  · rintro user' t₀ ⟨username', password', r', hrpc', -⟩
                    cases hrpc'
                    exact htoken rfl
                  · rw [hsessions, LocalCache.find_put, if_neg htoken]
                    rfl
    | _ =>
        have hserved := s.served cfg ⟨.login username password token', env⟩
        rw [hr] at hserved
        cases hserved

end Server

/-! ## What the console says -/

/-- The handler does no more to the console's last error than the DAO's functions do. -/
def Speaks {α : Type} (x : Service c α) : Prop :=
  ∀ s : Server c, Told (s.lastError .adminService) ((x.run s).2.lastError .adminService)

namespace Speaks
variable {α β : Type} {x : Service c α}

/-- A step that leaves the last errors alone. -/
theorem of_eq (h : ∀ s : Server c, (x.run s).2.lastError = s.lastError) : Speaks x :=
  fun s => Or.inl (congrFun (h s) _)

theorem pure (a : α) : Speaks (pure a : Service c α) := .of_eq fun _ => rfl

theorem bind {f : α → Service c β} (hx : Speaks x) (hf : ∀ a, Speaks (f a)) : Speaks (x >>= f) :=
  fun s => (hx s).trans (hf _ _)

theorem call {y : Dao c α} (hy : Words y) : Speaks (call .adminService y) := by
  intro s
  simp only [run_call, Server.left, Function.update_self]
  exact hy (s.dao .adminService)

/-- The other services have DAOs of their own. -/
theorem call_other {h : Holder} (hh : h ≠ .adminService) (y : Dao c α) :
    Speaks (SiqiAuth.call h y) := by
  intro s
  simp only [run_call, Server.left, Function.update_of_ne hh.symm]
  exact .refl _

theorem validateToken (header : Option String) : Speaks (validateToken header : Service c _) := by
  refine .of_eq fun s => ?_
  rw [run_validateToken, Server.gated]
  split <;> rfl

end Speaks

theorem AdminService.Edit.words (e : Edit) : Words (e.run : Dao c _) := by
  rw [Edit.run]
  cases e.op with
  | createApp n a d => exact (PermissionDAO.words_createApp n a d).bind fun _ => .pure _
  | _ => exact (DaoOp.words _).bind fun _ => .pure _

theorem AdminService.ViewRequest.words (q : ViewRequest) :
    Words (q.view : AdminService.View c).body := by
  cases q with
  | getApp a =>
      refine (PermissionDAO.words_getApp a).bind fun found => ?_
      cases found <;> exact .pure _
  | listApps page size n st => exact (PermissionDAO.words_listApps _ _ n st).bind fun _ => .pure _
  | listRoles a => exact (PermissionDAO.words_listRoles a).bind fun _ => .pure _
  | listPermissions a => exact (PermissionDAO.words_listPermissions a).bind fun _ => .pure _
  | getRolePermissions a k =>
      exact (PermissionDAO.words_getRolePermissions a k).bind fun _ => .pure _
  | getRoleUsers a k page size =>
      exact (PermissionDAO.words_getRoleUsers a k _ _).bind fun _ => .pure _
  | listUserRoles a page size u =>
      exact (PermissionDAO.words_listUserRoles a _ _ u).bind fun _ => .pure _
  | listAuditLogs page size a act op tgt t₁ t₂ =>
      exact (PermissionDAO.words_listAuditLogs _ _ a act op tgt t₁ t₂).bind fun _ => .pure _

theorem AdminService.speaks_edit (e : Edit) (header : Option String) :
    Speaks (edit e header : Service c _) := by
  refine (Speaks.validateToken header).bind fun found => ?_
  cases found with
  | none => exact .pure _
  | some session =>
      refine .bind (.of_eq fun _ => rfl) fun _ => ?_
      split
      · exact .pure _
      · refine (Speaks.call e.words).bind fun out => ?_
        obtain ⟨ok, appSecret⟩ := out
        cases ok with
        | true => exact (Speaks.call (PermissionDAO.words_createAuditLog _)).bind fun _ => .pure _
        | false => exact (Speaks.call fun _ => .refl _).bind fun _ => .pure _

theorem AdminService.speaks_view (q : ViewRequest) (header : Option String) :
    Speaks (view q.view header : Service c _) := by
  refine (Speaks.validateToken header).bind fun found => ?_
  cases found with
  | none => exact .pure _
  | some session =>
      change Speaks (viewAuthorized q.view)
      rw [viewAuthorized]
      split
      · exact .pure _
      · exact .call q.words

theorem AdminService.speaks_login (cfg : Config) (username password token : String) :
    Speaks (login cfg username password token : Service c _) := by
  rw [login]
  split
  · exact .pure _
  · refine (Speaks.call (PermissionDAO.words_getConsoleUser username)).bind fun user => ?_
    split
    · exact .pure _
    · split
      · exact .pure _
      · exact .bind (.of_eq fun _ => rfl) fun _ => .pure _

theorem AuthService.speaks_check (cfg : Config) (req : CheckRequest) :
    Speaks (AuthService.check cfg req : Service c _) := by
  have hother : Holder.authService ≠ .adminService := by decide
  rw [check]
  split
  · exact .pure _
  · refine .bind (.bind (.of_eq fun _ => rfl) fun found => ?_) fun out => ?_
    · cases found with
      | some perms => exact .pure _
      | none =>
          refine (Speaks.call_other hother _).bind fun perms => ?_
          exact .bind (.of_eq fun _ => rfl) fun _ => .pure _
    · change Speaks (finalCheck req out.1 out.2)
      rw [finalCheck]
      split
      · exact .pure _
      · exact .call_other hother _

/-- Every RPC. -/
theorem speaks_serve (cfg : Config) (x : Rpc) : Speaks (x.serve cfg : Service c Reply) := by
  cases x with
  | check req => exact (AuthService.speaks_check cfg req).bind fun _ => .pure _
  | batchCheck req =>
      refine .bind ?_ fun _ => .pure _
      rw [AuthService.batchCheck]
      split
      · exact .pure _
      · exact (Speaks.call_other (by decide) _).bind fun _ => .pure _
  | agentCheck req query =>
      have hother : Holder.authAgent ≠ .adminService := by decide
      refine .bind ?_ fun _ => .pure _
      rw [AuthAgent.check]
      split
      · exact .pure _
      · refine (Speaks.call_other hother _).bind fun allowed => ?_
        split
        · exact .pure _
        · exact (Speaks.call_other hother _).bind fun _ => .pure _
  | edit req header => exact (speaks_edit req.edit header).bind fun _ => .pure _
  | view req header => exact (speaks_view req header).bind fun _ => .pure _
  | login username password token =>
      exact (speaks_login cfg username password token).bind fun _ => .pure _

/-- No run makes the console's last error say what the DAO never says. -/
theorem told_run (cfg : Config) (s : Server c) (l : List Call) :
    Told (s.lastError .adminService) ((run (Server.step cfg) s l).lastError .adminService) := by
  have hstep : ∀ (s : Server c) (x : Call),
      Told (s.lastError .adminService) ((s.step cfg x).lastError .adminService) :=
    fun s x => speaks_serve cfg x.rpc (s.facing x.env)
  exact run_rel (R := fun s t : Server c => Told (s.lastError _) (t.lastError _))
    (fun _ => .refl _) (fun _ _ _ => .trans) hstep s l

/-- What a handler puts before the last error is nothing, or words of the DAO's kind. -/
theorem AdminService.EditRequest.failure_worded (req : EditRequest) :
    req.edit.failure = "" ∨ worded req.edit.failure = true := by
  cases req with
  | createApp => exact Or.inr (by decide : worded "创建应用失败: " = true)
  | updateApp => exact Or.inr (by decide : worded "更新应用失败: " = true)
  | deleteApp => exact Or.inr (by decide : worded "删除应用失败: " = true)
  | grantRoleToUser => exact Or.inr (by decide : worded "授权失败: " = true)
  | revokeRoleFromUser => exact Or.inr (by decide : worded "撤销失败: " = true)
  | addPermissionToRole => exact Or.inr (by decide : worded "绑定失败: " = true)
  | removePermissionFromRole => exact Or.inr (by decide : worded "解绑失败: " = true)
  | createRole => exact Or.inr (by decide : worded "创建角色失败: " = true)
  | createPermission => exact Or.inr (by decide : worded "创建权限失败: " = true)
  | deleteRole | deletePermission | updateRole | updatePermission => exact Or.inl rfl

/-- **A request with a session is not told to log in**, unless that text stood in the last
error. -/
theorem AdminService.Edited.ne_unauthorized {req : EditRequest} {header : Option String}
    {s s' : Server c} {r : AdminResponse} (h : Edited req.edit header s r s')
    {session : SessionInfo} (hsession : s.session header = some session)
    (hsaid : s.lastError .adminService ≠ unauthorized.message) : r ≠ unauthorized := by
  have hforeign : worded unauthorized.message = false := by decide
  cases h with
  | rejected hnone =>
      rw [hsession] at hnone
      cases hnone
  | incomplete =>
      have hmissing : "缺少必要参数" ≠ unauthorized.message := by decide
      exact fun h => hmissing (congrArg AdminResponse.message h)
  | @failed _ _ σ _ _ hrun =>
      intro h
      have hmessage : req.edit.failure ++ σ.lastError = unauthorized.message :=
        congrArg AdminResponse.message h
      rcases req.failure_worded with hnothing | hworded
      · have hleft := (req.edit.op.words (s.dao .adminService)).ne hforeign hsaid
        rw [hrun] at hleft
        rw [hnothing, String.empty_append] at hmessage
        exact hleft hmessage
      · have hword := worded_append hworded σ.lastError
        rw [hmessage, hforeign] at hword
        cases hword
  | done => exact fun h => Bool.noConfusion (congrArg AdminResponse.success h : true = false)

/-- A listing handler refuses a request that misses a parameter in another way than one
without a session. -/
theorem AdminService.ViewRequest.missing_ne_rejected (q : ViewRequest) :
    (q.view : AdminService.View c).missing ≠ (q.view : AdminService.View c).rejected := by
  have hcode : ErrorCode.EINVAL ≠ .EAUTH := by decide
  have hstatus : Refusal.httpStatus 400 ≠ .httpStatus 401 := by decide
  cases q with
  | getApp => exact fun h => hcode (congrArg Failed.code (Refusal.failed.inj h))
  | listApps | listRoles | listPermissions => exact fun h => by cases h
  | getRolePermissions | getRoleUsers | listUserRoles | listAuditLogs => exact hstatus

/-- **A request with a session is not refused by a listing handler as one without.** -/
theorem AdminService.viewAuthorized_ne_rejected (q : ViewRequest) (s : Server c) :
    ((viewAuthorized q.view).run s).1 ≠ .error (q.view : AdminService.View c).rejected := by
  rw [viewAuthorized]
  split
  · exact fun h => q.missing_ne_rejected (Except.error.inj h)
  · rw [run_call]
    cases q with
    | getApp a =>
        refine returns_bind (Q := (· ≠ _)) (fun found _ => ?_) _
        have hcode : ErrorCode.ENOENT ≠ .EAUTH := by decide
        cases found with
        | some app => exact fun h => by cases h
        | none =>
            exact fun h => hcode (congrArg Failed.code (Refusal.failed.inj (Except.error.inj h)))
    | _ => exact returns_bind (Q := (· ≠ _)) (fun _ _ h => by cases h) _

/-! ## Who is admitted -/

section Runs
variable {cfg : Config} {s : Server c}

theorem sysConsoleUsers_run (l : List Call) :
    (run (Server.step cfg) s l).db.sysConsoleUsers = s.db.sysConsoleUsers :=
  run_rel (R := fun s t : Server c => t.db.sysConsoleUsers = s.db.sysConsoleUsers) (fun _ => rfl)
    (fun _ _ _ h k => k.trans h) (fun s x => (s.served cfg x).sysConsoleUsers_eq) s l

/-- Tokens are issued to accounts of the console. -/
theorem LastIssued.mem {l : List Call} {token : String} {user : SysConsoleUser} {t₀ : ℤ}
    (h : LastIssued cfg s l token user t₀) : user ∈ s.db.sysConsoleUsers := by
  induction h with
  | login h =>
      obtain ⟨-, -, -, -, -, -, huser, -⟩ := h
      rw [sysConsoleUsers_run] at huser
      exact huser
  | keep _ _ ih => exact ih

/-- A session is that of the login which issued its token last. -/
theorem exists_lastIssued (hs : s.sessions = .empty) (l : List Call) {token : String}
    {e : Entry SessionInfo} (he : (run (Server.step cfg) s l).sessions.find token = some e) :
    ∃ user t₀, LastIssued cfg s l token user t₀ ∧
      e = ⟨user.session, t₀ + seconds cfg.sessionTtl⟩ := by
  induction l using List.reverseRecOn generalizing e with
  | nil =>
      rw [run_nil, hs, LocalCache.find_empty] at he
      cases he
  | append_singleton l x ih =>
      rw [run_append] at he
      obtain ⟨user, t₀, hissues, hfind⟩ | ⟨hnot, hfind | ⟨hnone, -⟩⟩ :=
        (run (Server.step cfg) s l).find_step cfg x token
      · exact ⟨user, t₀, .login hissues, Option.some_inj.mp (he.symm.trans hfind)⟩
      · obtain ⟨user, t₀, hlast, rfl⟩ := ih (hfind.symm.trans he)
        exact ⟨user, t₀, hlast.keep hnot, rfl⟩
      · cases hnone.symm.trans he

/-- The session of the login which issued a token last is there until it expires. -/
theorem LastIssued.find {l : List Call} {token : String} {user : SysConsoleUser} {t₀ : ℤ}
    (h : LastIssued cfg s l token user t₀) :
    (run (Server.step cfg) s l).sessions.find token =
        some ⟨user.session, t₀ + seconds cfg.sessionTtl⟩ ∨
      t₀ + seconds cfg.sessionTtl < (run (Server.step cfg) s l).now := by
  induction h with
  | @login l x token user t₀ h =>
      rw [run_append]
      obtain ⟨user', t', hissues, hfind⟩ | ⟨hnot, -⟩ :=
        (run (Server.step cfg) s l).find_step cfg x token
      · obtain ⟨rfl, rfl⟩ := h.unique hissues
        exact Or.inl hfind
      · exact absurd h (hnot user t₀)
  | @keep l x token user t₀ h hx ih =>
      rw [run_append]
      have hnow := ((run (Server.step cfg) s l).served cfg x).now_le
      obtain ⟨user', t', hissues, -⟩ | ⟨-, hfind | ⟨-, hexpired⟩⟩ :=
        (run (Server.step cfg) s l).find_step cfg x token
      · exact absurd hissues (hx user' t')
      · rcases ih with ih | ih
        · exact Or.inl (hfind.trans ih)
        · exact Or.inr (ih.trans_le hnow)
      · rcases ih with ih | ih
        · exact Or.inr (hexpired _ ih)
        · exact Or.inr (ih.trans_le hnow)

/-- The header carries a token that was last issued to `user`, no longer ago than a
session lives, when the session check of the next call reads the clock. -/
def Admits (cfg : Config) (s : Server c) (l : List Call) (env : Env) (header : Option String)
    (user : SysConsoleUser) : Prop :=
  ∃ token t₀, header = some ("Bearer " ++ token) ∧ LastIssued cfg s l token user t₀ ∧
    ((run (Server.step cfg) s l).facing env).nextNow - t₀ ≤ seconds cfg.sessionTtl

/-- **The session check admits exactly the headers that carry a good token**, in the name
of the account it was issued to. -/
theorem session_iff (hs : s.sessions = .empty)
    (hnames : ∀ user ∈ s.db.sysConsoleUsers, user.username ≠ "") (l : List Call) (env : Env)
    (header : Option String) (session : SessionInfo) :
    ((run (Server.step cfg) s l).facing env).session header = some session ↔
      ∃ user, Admits cfg s l env header user ∧ session = user.session := by
  let t := (run (Server.step cfg) s l).facing env
  have hsession : t.session header = some session ↔ ∃ token, header = some ("Bearer " ++ token) ∧
      t.sessions.peek t.nextNow token = some session ∧ session.username ≠ "" := by
    simp only [Server.session, Option.filter_eq_some_iff, Option.bind_eq_some_iff,
      decide_eq_true_eq]
    constructor
    · rintro ⟨⟨token, ⟨value, rfl, hvalue⟩, hpeek⟩, hname⟩
      exact ⟨token, by rw [bearerToken_eq_some.mp hvalue], hpeek, hname⟩
    · rintro ⟨token, rfl, hpeek, hname⟩
      exact ⟨⟨token, ⟨_, rfl, bearerToken_eq_some.mpr rfl⟩, hpeek⟩, hname⟩
  rw [hsession]
  constructor
  · rintro ⟨token, rfl, hpeek, -⟩
    obtain ⟨e, hfind, hle, rfl⟩ := LocalCache.peek_eq_some.mp hpeek
    obtain ⟨user, t₀, hlast, rfl⟩ := exists_lastIssued hs l hfind
    exact ⟨user, ⟨token, t₀, rfl, hlast, by simp only [t] at hle; omega⟩, rfl⟩
  · rintro ⟨user, ⟨token, t₀, rfl, hlast, hle⟩, rfl⟩
    refine ⟨token, rfl, LocalCache.peek_eq_some.mpr ?_, hnames user hlast.mem⟩
    have hnow : (run (Server.step cfg) s l).now ≤ t.nextNow := t.now_le_nextNow
    rcases hlast.find with hfind | hexpired
    · exact ⟨_, hfind, by simp only [t]; omega, rfl⟩
    · simp only [t] at hnow
      omega

/-- The audit rows that an RPC of the console adds name the account of its session. -/
theorem audit_row_of_session {t : Server c} {env : Env} {header : Option String}
    {session : SessionInfo} (hsession : (t.facing env).session header = some session)
    (req : EditRequest) {row : SysAuditLog}
    (hrow : row ∈ (t.step cfg ⟨.edit req header, env⟩).db.sysAuditLogs) :
    row ∈ t.db.sysAuditLogs ∨
      row.operatorId = session.userId ∧ row.operatorName = varchar 32 session.realName := by
  have hserved := t.served cfg ⟨.edit req header, env⟩
  generalize t.reply cfg ⟨.edit req header, env⟩ = r at hserved
  generalize t.step cfg ⟨.edit req header, env⟩ = t' at hserved hrow
  cases hserved with
  | edit h =>
      cases h with
      | rejected =>
          rw [Server.db_gated] at hrow
          exact Or.inl hrow
      | incomplete _ _ hdb =>
          rw [hdb] at hrow
          exact Or.inl hrow
      | failed _ _ hrun hdb =>
          rw [hdb, DaoOp.run_of_false hrun] at hrow
          exact Or.inl hrow
      | @done session' _ σ _ hsession' _ hrun haudit =>
          rw [hsession] at hsession'
          cases hsession'
          have heffect := DaoOp.run_effect req.edit.op ((t.facing env).dao .adminService)
          rw [hrun] at heffect
          refine (haudit.row row hrow).imp (fun h => ?_) ?_
          · rw [heffect.sysAuditLogs_eq] at h
            exact h
          · rintro ⟨id, now, rfl⟩
            exact ⟨rfl, rfl⟩

/-- **The session gate.**  A header that carries no good token is turned away, with an
answer that depends on nothing stored, and the tables and the permission cache stay as
they are.  A header that does is served, in the name of the account of its token, and not
answered as if it were turned away. -/
theorem session_gate (cfg : Config) {s : Server c} (hs : s.sessions = .empty)
    (hnames : ∀ user ∈ s.db.sysConsoleUsers, user.username ≠ "") (l : List Call) (env : Env)
    (header : Option String) :
    let t := run (Server.step cfg) s l
    ((∀ user, ¬ Admits cfg s l env header user) →
      (∀ req : EditRequest, let x : Call := ⟨.edit req header, env⟩
        t.reply cfg x = .edit unauthorized ∧ (t.step cfg x).db = t.db ∧
          (t.step cfg x).cache = t.cache) ∧
      ∀ req : ViewRequest, let x : Call := ⟨.view req header, env⟩
        t.reply cfg x = .view (.error (req.view : AdminService.View c).rejected) ∧
          (t.step cfg x).db = t.db ∧ (t.step cfg x).cache = t.cache) ∧
    ∀ user, Admits cfg s l env header user →
      (∀ req : EditRequest, let x : Call := ⟨.edit req header, env⟩
        let out := (editAs req.edit user.session).run ((t.facing env).gated header)
        t.reply cfg x = .edit out.1 ∧ t.step cfg x = out.2 ∧
          (s.lastError .adminService ≠ unauthorized.message → out.1 ≠ unauthorized) ∧
          ∀ row ∈ (t.step cfg x).db.sysAuditLogs, row ∈ t.db.sysAuditLogs ∨
            row.operatorId = user.id ∧ row.operatorName = user.realName) ∧
      ∀ req : ViewRequest, let x : Call := ⟨.view req header, env⟩
        let out := (viewAuthorized req.view).run ((t.facing env).gated header)
        t.reply cfg x = .view out.1 ∧ t.step cfg x = out.2 ∧
          out.1 ≠ .error (req.view : AdminService.View c).rejected ∧ (t.step cfg x).db = t.db ∧
          (t.step cfg x).cache = t.cache := by
  intro t
  have hiff : ∀ session, (t.facing env).session header = some session ↔
      ∃ user, Admits cfg s l env header user ∧ session = user.session :=
    session_iff hs hnames l env header
  have hdb : ((t.facing env).gated header).db = t.db := Server.db_gated _ _
  have hcache : ((t.facing env).gated header).cache = t.cache := Server.cache_gated _ _
  constructor
  · intro hnot
    have hsession : (t.facing env).session header = none := by
      rw [Option.eq_none_iff_forall_ne_some]
      intro session hsome
      obtain ⟨user, hadmits, -⟩ := (hiff session).mp hsome
      exact hnot user hadmits
    constructor
    · intro req x
      have hrun := run_edit_none (e := req.edit) hsession
      have hreply : t.reply cfg x = .edit unauthorized :=
        congrArg (fun out : _ × Server c => Reply.edit out.1) hrun
      have hstep : t.step cfg x = (t.facing env).gated header := congrArg Prod.snd hrun
      rw [hreply, hstep]
      exact ⟨rfl, hdb, hcache⟩
    · intro req x
      have hrun := run_view_none (v := (req.view : AdminService.View c)) hsession
      have hreply : t.reply cfg x = .view (.error (req.view : AdminService.View c).rejected) :=
        congrArg (fun out : _ × Server c => Reply.view out.1) hrun
      have hstep : t.step cfg x = (t.facing env).gated header := congrArg Prod.snd hrun
      rw [hreply, hstep]
      exact ⟨rfl, hdb, hcache⟩
  · intro user hadmits
    have hsession := (hiff user.session).mpr ⟨user, hadmits, rfl⟩
    constructor
    · intro req x out
      have hrun := run_edit_some (e := req.edit) hsession
      refine ⟨congrArg (fun out : _ × Server c => Reply.edit out.1) hrun,
        congrArg Prod.snd hrun, fun hsaid => ?_, fun row hrow => ?_⟩
      · have hedited := edit_spec hrun
        exact hedited.ne_unauthorized hsession ((told_run cfg s l).ne (by decide) hsaid)
      · have hrow := audit_row_of_session hsession req hrow
        rw [SysConsoleUser.session, varchar_of_le user.realName_le] at hrow
        exact hrow
    · intro req x out
      have hrun := run_view_some (v := (req.view : AdminService.View c)) hsession
      have hreply : t.reply cfg x = .view out.1 :=
        congrArg (fun out : _ × Server c => Reply.view out.1) hrun
      have hstep : t.step cfg x = out.2 := congrArg Prod.snd hrun
      refine ⟨hreply, hstep, viewAuthorized_ne_rejected req _, ?_⟩
      obtain ⟨hnone, -⟩ | ⟨_, -, hkept⟩ :=
        view_spec (Prod.mk.eta (p := (view req.view header).run (t.facing env))).symm
      · rw [hsession] at hnone
        cases hnone
      · exact ⟨hkept.db_eq.trans hdb, hkept.cache_eq.trans hcache⟩

end Runs

/-- Without a header `DeleteApp` is turned away; with the token of the administrator's
`Login` its audit row is the administrator's. -/
theorem session_gate_admin :
    let cfg : Config := { crypt := fun _ hash => some hash }
    let user := InitSql.administrator 1
    let s : Server .binary := Server.start 0
    let l : List Call := [⟨.login "admin" "pw" "t", { ticks := [5] }⟩]
    (run (Server.step cfg) s l).reply cfg ⟨.edit (.deleteApp "qq_bot") none, {}⟩ =
        .edit unauthorized ∧
      ∀ row ∈ ((run (Server.step cfg) s l).step cfg
          ⟨.edit (.deleteApp "qq_bot") (some "Bearer t"), {}⟩).db.sysAuditLogs,
        row ∈ (run (Server.step cfg) s l).db.sysAuditLogs ∨
          row.operatorId = user.id ∧ row.operatorName = user.realName := by
  intro cfg user s l
  have hnames : ∀ user ∈ s.db.sysConsoleUsers, user.username ≠ "" := by
    simp only [s, Server.start_eq_seeded]
    decide +kernel
  have hissues : Issues cfg s ⟨.login "admin" "pw" "t", { ticks := [5] }⟩ "t" user 5 := by
    have hlogin : s.reply cfg ⟨.login "admin" "pw" "t", { ticks := [5] }⟩ =
          .login { success := true, message := "登录成功", token := "t" } ∧
        user ∈ s.db.sysConsoleUsers ∧
        5 = (s.step cfg ⟨.login "admin" "pw" "t", { ticks := [5] }⟩).now := by
      simp only [s, Server.start_eq_seeded]
      decide +kernel
    exact ⟨"admin", "pw", _, rfl, hlogin.1, rfl, hlogin.2.1, by decide +kernel, rfl, hlogin.2.2⟩
  have hadmits : Admits cfg s l {} (some "Bearer t") user :=
    ⟨"t", 5, rfl, .login (l := []) hissues, by
      simp only [s, Server.start_eq_seeded]
      decide +kernel⟩
  have hnot : ∀ user, ¬ Admits cfg s l {} none user := by
    rintro user ⟨token, t₀, hheader, -⟩
    cases hheader
  have hgate := fun header => session_gate cfg (rfl : s.sessions = .empty) hnames l {} header
  obtain ⟨hrejected, -⟩ := ((hgate none).1 hnot).1 (.deleteApp "qq_bot")
  obtain ⟨-, -, -, haudit⟩ := ((hgate (some "Bearer t")).2 user hadmits).1 (.deleteApp "qq_bot")
  exact ⟨hrejected, haudit⟩

end SiqiAuth
