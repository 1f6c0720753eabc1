import SiqiAuth.Service.History
import SiqiAuth.Service.SessionGate

/-!
# `admin_tool`

The command line tool of the console.  It runs one RPC and prints what comes of it.  `--op=login`
leaves the token in a file in the working directory, and the other operations send what they find
there.  Others use the services at the same time, so a run is one of invocations of the tool and
of calls by anyone else.

## Main definitions

* `Flags` — the command line.
* `Flags.rpc` — the RPC that an invocation sends.
* `Desk`, `Desk.step` — the working directory and the services, and what an action does to them.
* `Action.Stays` — an action that leaves the token of a login in force.
* `prints_what_happens` — what the tool prints of an edit, after a login.
-/

namespace SiqiAuth
open Lib AdminService

variable {c : Collation}

namespace AdminTool

/-- The operations that edit. -/
inductive EditOp
  | grantRole | revokeRole | addPerm | removePerm
  | createRole | createPerm | deleteRole | deletePerm | updateRole | updatePerm
  deriving DecidableEq, Repr

/-- The operations. -/
inductive Op
  | login
  | edit (op : EditOp)
  | listRoles
  | listPerms
  deriving DecidableEq, Repr

/-- The operation of `--op`. -/
def Op.ofString : String → Option Op
  | "login" => some login
  | "grant_role" => some (edit .grantRole)
  | "revoke_role" => some (edit .revokeRole)
  | "add_perm" => some (edit .addPerm)
  | "remove_perm" => some (edit .removePerm)
  | "create_role" => some (edit .createRole)
  | "create_perm" => some (edit .createPerm)
  | "delete_role" => some (edit .deleteRole)
  | "delete_perm" => some (edit .deletePerm)
  | "update_role" => some (edit .updateRole)
  | "update_perm" => some (edit .updatePerm)
  | "list_roles" => some listRoles
  | "list_perms" => some listPerms
  | _ => none

/-- The flags, with their defaults. -/
structure Flags where
  op : String := ""
  app : String := "qq_bot"
  user : String := ""
  role : String := ""
  perm : String := ""
  name : String := ""
  desc : String := ""
  password : String := ""
  /-- `--is_default`, when it is on the command line. -/
  isDefault : Option Bool := none
  deriving DecidableEq, Repr

/-- `TOKEN_FILE` as it is read: its first line, or nothing. -/
def loadToken (file : Option String) : String :=
  match file with
  | none => ""
  | some text => String.ofList (text.toList.takeWhile (· ≠ '\n'))

/-- `TOKEN_FILE` after a token is saved, if it can be opened. -/
def saveToken (writable : Bool) (token : String) (file : Option String) : Option String :=
  if writable then some token else file

namespace Flags
variable (f : Flags)

/-- The `Authorization` header. -/
def header (file : Option String) : Option String :=
  if f.op = "login" ∨ loadToken file = "" then none else some ("Bearer " ++ loadToken file)

/-- A field that is sent only if its flag is not empty. -/
def optional (s : String) : Option String := if s = "" then none else some s

/-- The edit that an operation asks for, or which flags are missing. -/
def request : EditOp → Except String EditRequest
  | .grantRole =>
      if f.user = "" ∨ f.role = "" then .error "Missing --user or --role"
      else .ok (.grantRoleToUser f.app f.user f.role)
  | .revokeRole =>
      if f.user = "" ∨ f.role = "" then .error "Missing --user or --role"
      else .ok (.revokeRoleFromUser f.app f.user f.role)
  | .addPerm =>
      if f.role = "" ∨ f.perm = "" then .error "Missing --role or --perm"
      else .ok (.addPermissionToRole f.app f.role f.perm)
  | .removePerm =>
      if f.role = "" ∨ f.perm = "" then .error "Missing --role or --perm"
      else .ok (.removePermissionFromRole f.app f.role f.perm)
  | .createRole =>
      if f.role = "" ∨ f.name = "" then .error "Missing --role or --name"
      else .ok (.createRole f.app f.name f.role f.desc (f.isDefault.getD false))
  | .createPerm =>
      if f.perm = "" ∨ f.name = "" then .error "Missing --perm or --name"
      else .ok (.createPermission f.app f.name f.perm f.desc)
  | .deleteRole =>
      if f.role = "" then .error "Missing --role" else .ok (.deleteRole f.app f.role)
  | .deletePerm =>
      if f.perm = "" then .error "Missing --perm" else .ok (.deletePermission f.app f.perm)
  | .updateRole =>
      if f.role = "" then .error "Missing --role"
      else .ok (.updateRole f.app f.role (optional f.name) (optional f.desc) f.isDefault)
  | .updatePerm =>
      if f.perm = "" then .error "Missing --perm"
      else .ok (.updatePermission f.app f.perm (optional f.name) (optional f.desc))

/-- The RPC that is sent, with the header, and with the token that the server will make up if it is
a login; or what is complained about. -/
def rpc (header : Option String) (token : String) : Except String Rpc :=
  match Op.ofString f.op with
  | none => .error ("Unknown operation: " ++ f.op ++ ". Use --help for usage.")
  | some .login =>
      if f.user = "" ∨ f.password = "" then .error "Missing --user or --password"
      else .ok (.login f.user f.password token)
  | some (.edit op) => (f.request op).map fun req => .edit req header
  | some .listRoles => .ok (.view (.listRoles f.app) header)
  | some .listPerms => .ok (.view (.listPermissions f.app) header)

end Flags

/-- What the tool prints. -/
inductive Output
  | complaint (text : String)
  | loggedIn (token : String)
  | loginFailed (message : String)
  | succeeded (message : String)
  | failed (message : String) (code : ℤ)
  | roles (roles : List PermissionDAO.RoleInfo) (total : ℕ)
  | perms (perms : List PermissionInfo) (total : ℕ)
  | rpcError
  deriving DecidableEq, Repr

/-- What it prints of a reply. -/
def Output.ofReply : Reply → Output
  | .edit r => if r.success then .succeeded r.message else .failed r.message r.code
  | .login r => if r.success then .loggedIn r.token else .loginFailed r.message
  | .view (.ok (.roles rs n)) => .roles rs n
  | .view (.ok (.permissions ps n)) => .perms ps n
  | _ => .rpcError

/-- What becomes of a request on the network.  If the channel sends it more than once, the earlier
executions are calls by somebody else. -/
inductive Delivery
  | answered
  /-- It is executed, but the reply does not come back in time. -/
  | unanswered
  | lost
  deriving DecidableEq, Repr

/-- The digits of a token. -/
def hexDigit (n : Fin 16) : Char := "0123456789abcdef".toList.getD n '0'

/-- The token that `Login` makes of the digits it draws. -/
def hexToken (drawn : Fin 32 → Fin 16) : String := String.ofList (List.ofFn fun i => hexDigit (drawn i))

/-- An invocation of the tool, with what happens around it. -/
structure Invocation where
  flags : Flags
  env : Env := {}
  delivery : Delivery := .answered
  /-- What the server draws, if this is a login. -/
  drawn : Fin 32 → Fin 16 := 0
  /-- Whether `TOKEN_FILE` can be opened for writing. -/
  writable : Bool := true
  deriving DecidableEq, Repr

/-- What is done: somebody invokes the tool, or somebody else calls the services. -/
inductive Action
  | invoke (i : Invocation)
  | other (x : Call)
  deriving DecidableEq, Repr

/-- The working directory of the tool, and the services. -/
structure Desk (c : Collation) where
  file : Option String
  server : Server c

namespace Desk
variable (cfg : Config) (d : Desk c)

/-- The call of an invocation, if it gets as far. -/
def callOf (i : Invocation) : Option Call :=
  match i.flags.rpc (i.flags.header d.file) (hexToken i.drawn), i.delivery with
  | .error _, _ | .ok _, .lost => none
  | .ok rpc, _ => some ⟨rpc, i.env⟩

/-- What an invocation prints. -/
def prints (i : Invocation) : Output :=
  match i.flags.rpc (i.flags.header d.file) (hexToken i.drawn), i.delivery with
  | .error text, _ => .complaint text
  | .ok rpc, .answered => .ofReply (d.server.reply cfg ⟨rpc, i.env⟩)
  | .ok _, _ => .rpcError

/-- The file after an invocation. -/
def fileAfter (i : Invocation) : Option String :=
  match d.prints cfg i with
  | .loggedIn token => saveToken i.writable token d.file
  | _ => d.file

/-- What an action makes the services do. -/
def call : Action → Option Call
  | .invoke i => d.callOf i
  | .other x => some x

/-- The state after an action. -/
def step (a : Action) : Desk c where
  file :=
    match a with
    | .invoke i => d.fileAfter cfg i
    | .other _ => d.file
  server :=
    match d.call a with
    | none => d.server
    | some x => d.server.step cfg x

/-- The calls that a run makes of the services. -/
def calls (l : List Action) : List Call := outputs (step cfg) call d l

variable {cfg d}

/-- The services see the calls, and nothing else. -/
theorem step_simulates : Simulates (step (c := c) cfg) call server (Server.step cfg)
    (fun _ _ => True) (fun _ => True) fun _ _ => True where
  inv _ _ _ _ := trivial
  silent d a _ _ hnone := by simp only [step, hnone]
  seen d a x _ _ hsome := ⟨trivial, by simp only [step, hsome]⟩

theorem server_run (l : List Action) :
    (run (step cfg) d l).server = run (Server.step cfg) d.server (d.calls cfg l) :=
  (step_simulates.simulated trivial l).2

end Desk

/-! ## Tokens -/

theorem loadToken_hexToken (drawn : Fin 32 → Fin 16) :
    loadToken (some (hexToken drawn)) = hexToken drawn := by
  have hdigit : ∀ n : Fin 16, hexDigit n ≠ '\n' := by decide
  have hall : ∀ x ∈ List.ofFn fun i => hexDigit (drawn i), decide (x ≠ '\n') = true := by
    intro x hx
    obtain ⟨i, rfl⟩ := List.mem_ofFn.mp hx
    exact decide_eq_true (hdigit _)
  simp only [loadToken, hexToken, String.toList_ofList]
  rw [List.takeWhile_eq_self_iff.mpr hall]

theorem hexToken_ne_empty (drawn : Fin 32 → Fin 16) : hexToken drawn ≠ "" := by
  intro h
  have hlen := congrArg (fun s : String => s.toList.length) h
  simp [hexToken] at hlen

/-- The header that is sent after a token has been saved. -/
theorem Flags.header_of_saved {f : Flags} (hop : Op.ofString f.op ≠ some .login)
    (drawn : Fin 32 → Fin 16) :
    f.header (some (hexToken drawn)) = some ("Bearer " ++ hexToken drawn) := by
  have hlogin : f.op ≠ "login" := by
    intro h
    rw [h] at hop
    exact hop rfl
  simp [header, loadToken_hexToken, hlogin, hexToken_ne_empty]

/-! ## What is sent -/

namespace Flags
variable {f : Flags} {header : Option String} {token : String} {r : Rpc}

/-- What is sent is a login with the token, if that is the operation, or carries the header. -/
theorem rpc_cases (h : f.rpc header token = .ok r) :
    (Op.ofString f.op = some .login ∧ r = .login f.user f.password token) ∨
      (∃ op req, Op.ofString f.op = some (.edit op) ∧ f.request op = .ok req ∧
        r = .edit req header) ∨
      (Op.ofString f.op ≠ some .login ∧ ∃ q, r = .view q header) := by
  simp only [rpc] at h
  cases hop : Op.ofString f.op with
  | none =>
      rw [hop] at h
      cases h
  | some op =>
      rw [hop] at h
      cases op with
      | login =>
          simp only at h
          split at h
          · cases h
          · cases h
            exact Or.inl ⟨rfl, rfl⟩
      | edit op =>
          simp only at h
          cases hreq : f.request op with
          | error text =>
              rw [hreq] at h
              cases h
          | ok req =>
              rw [hreq] at h
              cases h
              exact Or.inr (Or.inl ⟨op, req, rfl, hreq, rfl⟩)
      | listRoles =>
          cases h
          exact Or.inr (Or.inr ⟨by simp, _, rfl⟩)
      | listPerms =>
          cases h
          exact Or.inr (Or.inr ⟨by simp, _, rfl⟩)

/-- An edit that is sent misses no parameter, unless `--app` is empty. -/
theorem required_of_request {op : EditOp} {req : EditRequest} (h : f.request op = .ok req)
    (happ : f.app ≠ "") : "" ∉ req.edit.required := by
  have hempty : ∀ s : String, "" = s ↔ s = "" := fun s => eq_comm
  cases op <;> simp only [request] at h <;> split at h <;> cases h
  all_goals simp_all [EditRequest.edit, AdminService.grantRoleToUser,
    AdminService.revokeRoleFromUser, AdminService.addPermissionToRole,
    AdminService.removePermissionFromRole, AdminService.createRole, AdminService.createPermission,
    AdminService.deleteRole, AdminService.deletePermission, AdminService.updateRole,
    AdminService.updatePermission]

end Flags

/-- Only a login that has succeeded is printed as one. -/
theorem Output.ofReply_eq_loggedIn {reply : Reply} {token : String} :
    ofReply reply = .loggedIn token ↔
      ∃ r, reply = .login r ∧ r.success = true ∧ r.token = token := by
  cases reply with
  | login r => cases hr : r.success <;> simp [ofReply, hr]
  | edit r => cases hr : r.success <;> simp [ofReply, hr]
  | view r =>
      simp only [ofReply]
      split <;> simp_all
  | _ => simp [ofReply]

/-! ## A login and what follows it -/

/-- The token of a login stays in force: the action is neither a login by the tool, which would
replace it in the file, nor one that draws the same token. -/
def Action.Stays (token : String) : Action → Prop
  | .invoke i => Op.ofString i.flags.op ≠ some .login
  | .other x => ∀ username password, x.rpc ≠ .login username password token

namespace Desk
variable {cfg : Config} {d : Desk c} {i : Invocation} {token : String} {x : Call} {a : Action}

theorem rpc_of_callOf (h : d.callOf i = some x) :
    i.flags.rpc (i.flags.header d.file) (hexToken i.drawn) = .ok x.rpc ∧ x.env = i.env := by
  simp only [callOf] at h
  split at h
  case h_3 hrpc _ =>
    cases h
    exact ⟨hrpc, rfl⟩
  all_goals cases h

/-- A login that the tool reports is one that has succeeded. -/
theorem login_of_prints (h : d.prints cfg i = .loggedIn token) : ∃ username password r,
    d.callOf i = some ⟨.login username password (hexToken i.drawn), i.env⟩ ∧
      d.server.reply cfg ⟨.login username password (hexToken i.drawn), i.env⟩ = .login r ∧
        r.success = true ∧ r.token = token := by
  simp only [prints] at h
  split at h
  case h_1 => cases h
  case h_3 => cases h
  case h_2 rpc hrpc hdelivery =>
    obtain ⟨r, hr, hsuccess, htoken⟩ := Output.ofReply_eq_loggedIn.mp h
    rcases Flags.rpc_cases hrpc with ⟨-, rfl⟩ | ⟨op, req, -, -, rfl⟩ | ⟨-, q, rfl⟩
    · exact ⟨i.flags.user, i.flags.password, r, by simp only [callOf, hrpc, hdelivery], hr, hsuccess,
        htoken⟩
    · change Reply.edit _ = .login r at hr
      cases hr
    · change Reply.view _ = .login r at hr
      cases hr

/-- Another operation leaves the file alone. -/
theorem file_step (h : a.Stays token) : (d.step cfg a).file = d.file := by
  cases a with
  | other x => rfl
  | invoke i =>
      change d.fileAfter cfg i = d.file
      simp only [fileAfter]
      split
      case h_1 token' hprints =>
        obtain ⟨username, password, r, hcall, -⟩ := login_of_prints hprints
        obtain ⟨hrpc, -⟩ := rpc_of_callOf hcall
        rcases Flags.rpc_cases hrpc with ⟨hop, -⟩ | ⟨op, req, -, -, hreq⟩ | ⟨-, q, hq⟩
        · exact absurd hop h
        · cases hreq
        · cases hq
      case h_2 => rfl

theorem file_run {l : List Action} (h : ∀ a ∈ l, a.Stays token) :
    (run (step cfg) d l).file = d.file := by
  induction l generalizing d with
  | nil => rfl
  | cons a l ih =>
      rw [run_cons, ih fun b hb => h b (List.mem_cons_of_mem a hb)]
      exact file_step (h a List.mem_cons_self)

/-- And draws no token. -/
theorem call_stays (h : a.Stays token) (hx : d.call a = some x) (username password : String) :
    x.rpc ≠ .login username password token := by
  cases a with
  | other x' =>
      cases hx
      exact h username password
  | invoke i =>
      obtain ⟨hrpc, -⟩ := rpc_of_callOf hx
      intro hlogin
      rw [hlogin] at hrpc
      rcases Flags.rpc_cases hrpc with ⟨hop, -⟩ | ⟨op, req, -, -, hreq⟩ | ⟨-, q, hq⟩
      · exact h hop
      · cases hreq
      · cases hq

theorem calls_stay {l : List Action} (h : ∀ a ∈ l, a.Stays token) :
    ∀ x ∈ d.calls cfg l, ∀ username password, x.rpc ≠ .login username password token := by
  induction l generalizing d with
  | nil => simp [calls]
  | cons a l ih =>
      intro x hx
      rw [calls, outputs_cons, List.mem_append, Option.mem_toList] at hx
      rcases hx with hx | hx
      · exact call_stays (h a List.mem_cons_self) hx
      · exact ih (fun b hb => h b (List.mem_cons_of_mem a hb)) x hx

end Desk
end AdminTool

/-- A login that has succeeded has issued its token. -/
theorem issues_of_success {cfg : Config} {s : Server c} {username password token : String}
    {env : Env} {r : LoginResponse}
    (hr : s.reply cfg ⟨.login username password token, env⟩ = .login r) (h : r.success = true) :
    r.token = token ∧ ∃ user, Issues cfg s ⟨.login username password token, env⟩ token user
      (s.step cfg ⟨.login username password token, env⟩).now := by
  have hserved := s.served cfg ⟨.login username password token, env⟩
  rw [hr] at hserved
  cases hserved with
  | login hlogin =>
      cases hlogin with
      | refused hrefused =>
          rw [h] at hrefused
          cases hrefused
      | @opened _ user huser hname hpassword =>
          exact ⟨rfl, user, username, password, _, rfl, hr, rfl, huser, hname, hpassword, rfl⟩

/-- Calls that do not draw its token leave the last login of it what it is. -/
theorem LastIssued.append {cfg : Config} {s : Server c} {l m : List Call} {token : String}
    {user : SysConsoleUser} {t₀ : ℤ} (h : LastIssued cfg s l token user t₀)
    (hm : ∀ x ∈ m, ∀ username password, x.rpc ≠ .login username password token) :
    LastIssued cfg s (l ++ m) token user t₀ := by
  induction m using List.reverseRecOn with
  | nil => simpa using h
  | append_singleton m x ih =>
      rw [← List.append_assoc]
      refine (ih fun y hy => hm y (List.mem_append_left _ hy)).keep ?_
      rintro user' t' ⟨username, password, r, hrpc, -⟩
      exact hm x (List.mem_append_right _ (List.mem_singleton_self x)) _ _ hrpc

/-- What the console says of a success. -/
theorem message_of_success {cfg : Config} {s : Server c} {req : EditRequest}
    {header : Option String} {env : Env} {r : AdminResponse}
    (hr : s.reply cfg ⟨.edit req header, env⟩ = .edit r) (h : r.success = true) :
    r.message = req.edit.success := by
  have hserved := s.served cfg ⟨.edit req header, env⟩
  rw [hr] at hserved
  generalize s.step cfg ⟨.edit req header, env⟩ = s' at hserved
  cases hserved with
  | edit hedit =>
      cases hedit with
      | done => rfl
      | rejected | incomplete | failed => cases h

namespace AdminTool
open Desk

/-- A login that the tool has printed is in force for as long as a session lives: what the tool
sends then is sent in the session of the account. -/
theorem session_of_login (cfg : Config) {d : Desk c} (hsessions : d.server.sessions = .empty)
    (hnames : ∀ user ∈ d.server.db.sysConsoleUsers, user.username ≠ "") {l₁ l₂ : List Action}
    {i : Invocation} (hlogin : (run (step cfg) d l₁).prints cfg i = .loggedIn (hexToken i.drawn))
    (hwritable : i.writable = true) (hstays : ∀ a ∈ l₂, a.Stays (hexToken i.drawn))
    {f : Flags} (hop : Op.ofString f.op ≠ some .login) {env : Env}
    (htime : ((run (step cfg) d (l₁ ++ .invoke i :: l₂)).server.facing env).nextNow -
      (run (step cfg) d (l₁ ++ [.invoke i])).server.now ≤ seconds cfg.sessionTtl) :
    let e := run (step cfg) d (l₁ ++ .invoke i :: l₂)
    ∃ user, (e.server.facing env).session (f.header e.file) = some (SysConsoleUser.session user) := by
  intro e
  let token := hexToken i.drawn
  obtain ⟨username, password, r, hcall, hr, hsuccess, -⟩ := login_of_prints hlogin
  obtain ⟨-, user, hissues⟩ := issues_of_success hr hsuccess
  -- The file holds the token of the login.
  have hfile : e.file = some token := by
    simp only [e]
    rw [List.append_cons, run_append, file_run hstays, run_append, run_cons, run_nil]
    change fileAfter cfg _ i = _
    simp only [fileAfter, hlogin, saveToken, hwritable, if_true, token]
  have hheader : f.header e.file = some ("Bearer " ++ token) := by
    rw [hfile]
    exact Flags.header_of_saved hop i.drawn
  -- And the services know it.
  have hcalls : d.calls cfg (l₁ ++ [.invoke i]) =
      d.calls cfg l₁ ++ [⟨.login username password token, i.env⟩] := by
    rw [calls, outputs_append, outputs_cons, outputs_nil, List.append_nil]
    change _ ++ ((run (step cfg) d l₁).callOf i).toList = _
    rw [hcall]
    rfl
  have hlast : LastIssued cfg d.server (d.calls cfg (l₁ ++ .invoke i :: l₂)) token user
      (run (step cfg) d (l₁ ++ [.invoke i])).server.now := by
    rw [List.append_cons, calls, outputs_append]
    refine LastIssued.append ?_ (calls_stay hstays)
    rw [server_run]
    change LastIssued cfg d.server (d.calls cfg (l₁ ++ [.invoke i])) token user _
    rw [server_run] at hissues
    rw [hcalls, run_append]
    exact .login hissues
  refine ⟨user, ?_⟩
  rw [hheader]
  simp only [e, server_run] at hlast htime ⊢
  exact (session_iff hsessions hnames _ _ _ _).mpr ⟨user, ⟨token, _, rfl, hlast, htime⟩, rfl⟩

/-- What is printed of an edit, and what it does. -/
theorem prints_edit (cfg : Config) (d : Desk c) {i : Invocation} {op : EditOp} {req : EditRequest}
    (hop : Op.ofString i.flags.op = some (.edit op)) (hreq : i.flags.request op = .ok req)
    (hdelivery : i.delivery = .answered) : ∃ r,
      d.server.reply cfg ⟨.edit req (i.flags.header d.file), i.env⟩ = .edit r ∧
      d.prints cfg i = .ofReply (.edit r) ∧ (d.step cfg (.invoke i)).server =
        d.server.step cfg ⟨.edit req (i.flags.header d.file), i.env⟩ := by
  have hrpc : i.flags.rpc (i.flags.header d.file) (hexToken i.drawn) =
      .ok (.edit req (i.flags.header d.file)) := by
    simp only [Flags.rpc, hop, hreq]
    rfl
  have hcall : d.call (.invoke i) = some ⟨.edit req (i.flags.header d.file), i.env⟩ := by
    simp only [Desk.call, callOf, hrpc, hdelivery]
  obtain ⟨r, hr⟩ : ∃ r, d.server.reply cfg ⟨.edit req (i.flags.header d.file), i.env⟩ = .edit r :=
    ⟨_, rfl⟩
  exact ⟨r, hr, by simp only [prints, hrpc, hdelivery, hr], by simp only [step, hcall]⟩

/-- **What the tool prints of an edit is what happens.**  Once a login has been printed, for as
long as the session lives and the tool is not logged in anew, an undisturbed edit with the
parameters it needs is printed as a success just when it is accepted, whatever others have done
in the meantime; and it does to the view what the edit does. -/
theorem prints_what_happens (cfg : Config) {d : Desk c} (hdb : d.server.db.Reachable)
    (hsessions : d.server.sessions = .empty)
    (hnames : ∀ user ∈ d.server.db.sysConsoleUsers, user.username ≠ "") {l₁ l₂ : List Action}
    {i j : Invocation} {op : EditOp} {req : EditRequest}
    (hlogin : (run (step cfg) d l₁).prints cfg i = .loggedIn (hexToken i.drawn))
    (hwritable : i.writable = true) (hstays : ∀ a ∈ l₂, a.Stays (hexToken i.drawn))
    (hop : Op.ofString j.flags.op = some (.edit op)) (hreq : j.flags.request op = .ok req)
    (happ : j.flags.app ≠ "") (hdelivery : j.delivery = .answered)
    (hhealthy : ∀ o ∈ j.env.outcomes, o.succeeds = true)
    (htime : ((run (step cfg) d (l₁ ++ .invoke i :: l₂)).server.facing j.env).nextNow -
      (run (step cfg) d (l₁ ++ [.invoke i])).server.now ≤ seconds cfg.sessionTtl) :
    let e := run (step cfg) d (l₁ ++ .invoke i :: l₂)
    let y : DaoReply := ⟨req.edit.op, j.env.wallClock, true, false⟩
    (e.server.db.view.Accepts y → e.prints cfg j = .succeeded req.edit.success) ∧
      (¬ e.server.db.view.Accepts y → ∃ message code, e.prints cfg j = .failed message code) ∧
      (e.step cfg (.invoke j)).server.db.view = e.server.db.view.perform y := by
  intro e y
  obtain ⟨user, hsession⟩ := session_of_login cfg hsessions hnames hlogin hwritable hstays
    (f := j.flags) (by simp [hop]) htime
  have hundisturbed : req.Undisturbed e.server (j.flags.header e.file) j.env :=
    ⟨hhealthy, by rw [hsession]; exact Option.some_ne_none _, Flags.required_of_request hreq happ⟩
  have hreach : e.server.db.Reachable := by
    simp only [e, server_run]
    exact Server.reachable_run cfg hdb _
  obtain ⟨r, hr, hprints, hstep⟩ := prints_edit cfg e hop hreq hdelivery
  obtain ⟨⟨hsound, hcomplete⟩, hview⟩ := Server.edit_refines hreach.founded hr
  have haccepted : e.server.db.view.Accepts y → r.success = true := hcomplete (by simp [hundisturbed])
  have hrefused : ¬ e.server.db.view.Accepts y → r.success = false := by
    intro hnot
    rw [Bool.eq_false_iff]
    exact fun h => hnot (hsound h)
  rw [hprints, hstep, hview]
  refine ⟨fun hacc => ?_, fun hnot => ⟨r.message, r.code, ?_⟩, ?_⟩
  · simp only [Output.ofReply, haccepted hacc, if_true, message_of_success hr (haccepted hacc)]
  · simp [Output.ofReply, hrefused hnot]
  · by_cases hacc : e.server.db.view.Accepts y
    · simp only [View.reply, haccepted hacc, if_true]
      rfl
    · rw [View.perform, Rbac.perform_of_refused hacc]
      simp [View.reply, hrefused hacc]

/-- The administrator logs in and grants a role; before that somebody else has deleted an app. -/
theorem prints_what_happens_grant :
    let cfg : Config := { crypt := fun _ hash => some hash }
    let d : Desk .binary := ⟨none, Server.start 0⟩
    let i : Invocation := { flags := { op := "login", user := "admin", password := "pw" } }
    let j : Invocation :=
      { flags := { op := "grant_role", user := "42", role := "admin" }, env := { wallClock := 9 } }
    let l₂ : List Action := [.other ⟨.login "admin" "pw" "t", {}⟩,
      .other ⟨.edit (.deleteApp "admin_panel") (some "Bearer t"), {}⟩]
    let e := run (step cfg) d ([] ++ .invoke i :: l₂)
    let y : DaoReply := ⟨.assignRoleToUser "qq_bot" "42" "admin", 9, true, false⟩
    (e.server.db.view.Accepts y → e.prints cfg j = .succeeded "授权成功") ∧
      (¬ e.server.db.view.Accepts y → ∃ message code, e.prints cfg j = .failed message code) ∧
      (e.step cfg (.invoke j)).server.db.view = e.server.db.view.perform y := by
  intro cfg d i j l₂ e y
  have hnames : ∀ user ∈ d.server.db.sysConsoleUsers, user.username ≠ "" := by
    simp only [d, Server.start_eq_seeded]
    decide +kernel
  have hlogin : (run (step cfg) d []).prints cfg i = .loggedIn (hexToken i.drawn) := by
    simp only [d, Server.start_eq_seeded]
    decide +kernel
  have htoken : "t" ≠ hexToken i.drawn := by decide +kernel
  have hstays : ∀ a ∈ l₂, a.Stays (hexToken i.drawn) := by
    intro a ha
    simp only [l₂, List.mem_cons, List.not_mem_nil, or_false] at ha
    rcases ha with rfl | rfl
    · intro username password h
      injection h with _ _ h
      exact htoken h
    · intro username password h
      cases h
  have htime : ((run (step cfg) d ([] ++ .invoke i :: l₂)).server.facing j.env).nextNow -
      (run (step cfg) d ([] ++ [.invoke i])).server.now ≤ seconds cfg.sessionTtl := by
    simp only [d, Server.start_eq_seeded]
    decide +kernel
  have hdb : d.server.db.Reachable := .initial (Server.db_start 0)
  have hsessions : d.server.sessions = .empty := by simp only [d, Server.start_eq_seeded]
  have hop : Op.ofString j.flags.op = some (.edit .grantRole) := by decide +kernel
  have hreq : j.flags.request .grantRole = .ok (.grantRoleToUser "qq_bot" "42" "admin") := by
    decide +kernel
  have happ : j.flags.app ≠ "" := by decide
  have hhealthy : ∀ o ∈ j.env.outcomes, o.succeeds = true := by simp [j]
  have h := prints_what_happens cfg hdb hsessions hnames hlogin rfl hstays hop hreq happ rfl hhealthy
    htime
  exact h

end AdminTool
end SiqiAuth
