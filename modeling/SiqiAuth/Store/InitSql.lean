import SiqiAuth.Lib.Run
import SiqiAuth.Store.Effect

/-!
# The initial tables

What `scripts/init.sql` leaves in the tables: one console user, three apps, ten
permissions, ten roles, twenty bindings, forty assignments and three audit rows.
The script's multi-row `INSERT`s look up the ids they refer to by app code and key,
as the DAO's own operations do, so everything below the apps is loaded through
those.

## Main definitions

* `Db.initial` — the tables the program starts on.
* `Db.initial_induction` — what holds of empty tables and is kept by the effects of
  the operations holds of the initial tables.
* `reachable_induction` — and of the tables after any run.
-/

namespace SiqiAuth
open Lib

variable {c : Collation}

namespace InitSql

/-- The built-in administrator. -/
def administrator (id : ℕ) : SysConsoleUser where
  id := id
  username := "admin"
  passwordHash := "$6$saltsalt$R/al3WpzpwnOAjyk4icGxW6fCRaUtE6kNJnAakHs220z43YXmDnXm0n3.v1ycAmkvbT3al2H8qMPIy0nP8jVI/"
  realName := "系统管理员"

def consoleUsers : Table (sysConsoleUsersSchema c) :=
  (Table.empty.insert administrator fun _ => rfl).getD .empty

/-! ## A. Apps -/

/-- Name, code, secret and description. -/
def apps : List (String × String × String × String) :=
  [("QQ机器人", "qq_bot", "secret_qq_123", "QQ群管理机器人"),
    ("内部管理系统", "admin_panel", "secret_admin_456", "公司内部后台"),
    ("课程群助手", "course_bot", "secret_course_789", "课程答疑机器人")]

/-! ## B. Permissions -/

def permissions : List DaoOp :=
  [.createPermission "qq_bot" "踢出成员" "member:kick" "允许踢出群成员",
    .createPermission "qq_bot" "禁言成员" "member:mute" "允许禁言群成员",
    .createPermission "qq_bot" "删除消息" "message:delete" "允许删除群消息",
    .createPermission "qq_bot" "置顶消息" "message:pin" "允许置顶消息",
    .createPermission "admin_panel" "数据查看" "data:view" "查看报表数据",
    .createPermission "admin_panel" "数据导出" "data:export" "导出数据",
    .createPermission "admin_panel" "用户创建" "user:create" "创建用户",
    .createPermission "admin_panel" "用户删除" "user:delete" "删除用户",
    .createPermission "course_bot" "布置作业" "homework:assign" "布置作业",
    .createPermission "course_bot" "批改作业" "homework:grade" "批改作业"]

/-! ## C. Roles -/

def roles : List DaoOp :=
  [.createRole "qq_bot" "超级管理员" "admin" "拥有所有权限" false,
    .createRole "qq_bot" "群主" "owner" "群拥有者" false,
    .createRole "qq_bot" "管理员" "manager" "协助管理" false,
    .createRole "qq_bot" "普通成员" "member" "普通群员" true,
    .createRole "admin_panel" "超级管理员" "admin" "系统管理员" false,
    .createRole "admin_panel" "部门经理" "manager" "部门负责人" false,
    .createRole "admin_panel" "普通员工" "staff" "普通员工" true,
    .createRole "course_bot" "教师" "teacher" "授课教师" false,
    .createRole "course_bot" "助教" "assistant" "课程助教" false,
    .createRole "course_bot" "学生" "student" "选课学生" true]

/-! ## D. Permissions of the roles -/

/-- The bindings of one role. -/
def bind (appCode roleKey : String) (permKeys : List String) : List DaoOp :=
  permKeys.map fun permKey => .addPermissionToRole appCode roleKey permKey

def rolePermissions : List DaoOp :=
  bind "qq_bot" "admin" ["member:kick", "member:mute", "message:delete", "message:pin"] ++
    bind "qq_bot" "owner" ["member:kick", "member:mute", "message:delete"] ++
    bind "qq_bot" "manager" ["member:mute", "message:delete"] ++
    bind "admin_panel" "admin" ["data:view", "data:export", "user:create", "user:delete"] ++
    bind "admin_panel" "manager" ["data:view", "data:export", "user:create"] ++
    bind "admin_panel" "staff" ["data:view"] ++
    bind "course_bot" "teacher" ["homework:assign", "homework:grade"] ++
    bind "course_bot" "assistant" ["homework:grade"]

/-! ## E. Roles of the users -/

/-- The users of one role. -/
def assign (appCode roleKey : String) (userIds : List String) : List DaoOp :=
  userIds.map fun userId => .assignRoleToUser appCode userId roleKey

def userRoles : List DaoOp :=
  assign "qq_bot" "admin" ["100001", "100002"] ++
    assign "qq_bot" "owner" ["100101", "100102", "100103"] ++
    assign "qq_bot" "manager" ["100201", "100202", "100203", "100204", "100205"] ++
    assign "qq_bot" "member" ["100301", "100302", "100303", "100304", "100305", "100306",
      "100307", "100308", "100309", "100310"] ++
    assign "admin_panel" "admin" ["200001", "200002"] ++
    assign "admin_panel" "manager" ["200101", "200102", "200103"] ++
    assign "admin_panel" "staff" ["200201", "200202", "200203", "200204", "200205", "200206",
      "200207"] ++
    assign "course_bot" "teacher" ["300001", "300002"] ++
    assign "course_bot" "assistant" ["300101", "300102"] ++
    assign "course_bot" "student" ["300201", "300202", "300203", "300204"]

/-! ## F. Audit log -/

def auditLogs : List AuditEntry :=
  [⟨1, "系统管理员", "qq_bot", "USER_GRANT_ROLE", "USER", "100001", "测试用户1", "ROLE", "admin",
      "超级管理员"⟩,
    ⟨1, "系统管理员", "admin_panel", "CREATE_PERM", "ROLE", "manager", "部门经理", "PERM",
      "user:create", "用户创建"⟩,
    ⟨1, "系统管理员", "course_bot", "USER_GRANT_ROLE", "USER", "300001", "张老师", "ROLE", "teacher",
      "教师"⟩]

/-- The operations that load everything below the apps. -/
def operations : List DaoOp := permissions ++ roles ++ rolePermissions ++ userRoles

end InitSql

namespace Db

/-- The tables after a statement of the script. -/
def load (installed : ℤ) (db : Db c) (w : Statement) : Db c :=
  match w.exec (dateTime installed) db with
  | .ok (_, db') => db'
  | .error _ => db

/-- The tables after `scripts/init.sql`, run at the time `installed`. -/
def initial (installed : ℤ) : Db c :=
  let db : Db c := { Db.empty with sysConsoleUsers := InitSql.consoleUsers }
  let db := run (load installed) db
    (InitSql.apps.map fun (n, a, secret, d) => Statement.insertApp n a secret d)
  let db := run (fun db op => (DaoOp.apply installed db op).2) db InitSql.operations
  run (load installed) db (InitSql.auditLogs.map Statement.insertAuditLog)

end Db

/-- A DAO as it starts on the initial tables. -/
def DaoState.start (installed : ℤ) : DaoState c := ⟨Db.initial installed, "", [], installed⟩

@[simp] theorem DaoState.db_start (installed : ℤ) :
    (DaoState.start installed : DaoState c).db = Db.initial installed := by
  simp only [DaoState.start]

namespace Db

/-! ## Induction -/

theorem load_insertApp (installed : ℤ) (db : Db c) (n a secret d : String) :
    ∃ r, DaoOp.Effect db (.createApp n a d) r (db.load installed (.insertApp n a secret d)) := by
  simp only [load]
  split
  case h_1 h =>
    obtain ⟨t, ht, rfl⟩ := inserted_eq_ok (Statement.write_of_exec h)
    exact ⟨true, .createApp _ _ ht⟩
  case h_2 => exact ⟨false, .nothing fun h => (Bool.false_ne_true h).elim⟩

theorem load_insertAuditLog (installed : ℤ) (db : Db c) (e : AuditEntry) :
    ∃ t, db.load installed (.insertAuditLog e) = { db with sysAuditLogs := t } := by
  simp only [load]
  split
  case h_1 h =>
    obtain ⟨t, -, rfl⟩ := inserted_eq_ok (Statement.write_of_exec h)
    exact ⟨t, rfl⟩
  case h_2 => exact ⟨db.sysAuditLogs, rfl⟩

variable {P : Db c → Prop}

/-- What holds of the empty tables and is kept by the creating operations and by the
audit log holds of the initial tables. -/
theorem initial_induction (hempty : P { Db.empty with sysConsoleUsers := InitSql.consoleUsers })
    (hstep : ∀ db op r db', op.creates = true → P db → DaoOp.Effect db op r db' → P db')
    (haudit : ∀ (db : Db c) t, P db → P { db with sysAuditLogs := t }) (installed : ℤ) :
    P (initial installed) := by
  -- The three stretches of the script, each an induction over its list.
  have happs : ∀ (l : List (String × String × String × String)) (db : Db c), P db →
      P (Lib.run (load installed) db (l.map fun (n, a, secret, d) => .insertApp n a secret d)) := by
    intro l
    induction l with
    | nil => exact fun db h => h
    | cons x l ih =>
        intro db h
        obtain ⟨r, heffect⟩ := load_insertApp installed db x.1 x.2.1 x.2.2.1 x.2.2.2
        exact ih _ (hstep _ _ _ _ rfl h heffect)
  have hops : ∀ (l : List DaoOp), (∀ op ∈ l, op.creates = true) → ∀ db : Db c, P db →
      P (Lib.run (fun db op => (DaoOp.apply installed db op).2) db l) := by
    intro l
    induction l with
    | nil => exact fun _ db h => h
    | cons op l ih =>
        intro hl db h
        refine ih (fun op' h' => hl op' (List.mem_cons_of_mem _ h')) _ ?_
        exact hstep _ _ _ _ (hl op List.mem_cons_self) h (DaoOp.apply_effect op _ db)
  have haudits : ∀ (l : List AuditEntry) (db : Db c), P db →
      P (Lib.run (load installed) db (l.map Statement.insertAuditLog)) := by
    intro l
    induction l with
    | nil => exact fun db h => h
    | cons e l ih =>
        intro db h
        obtain ⟨t, ht⟩ := load_insertAuditLog installed db e
        have hload := haudit db t h
        rw [← ht] at hload
        exact ih _ hload
  exact haudits _ _ (hops _ (by decide) _ (happs _ _ hempty))

/-- What is kept by every operation holds of the tables after any run. -/
theorem reachable_induction (hempty : P { Db.empty with sysConsoleUsers := InitSql.consoleUsers })
    (hstep : ∀ db op r db', P db → DaoOp.Effect db op r db' → P db')
    (haudit : ∀ (db : Db c) t, P db → P { db with sysAuditLogs := t }) {installed : ℤ}
    {σ : DaoState c} (hσ : σ.db = initial installed) (l : List DaoCall) :
    P (Lib.run DaoState.call σ l).db := by
  refine run_induction (P := fun τ : DaoState c => P τ.db) ?_ l ?_
  · exact fun σ x h => hstep _ _ _ _ h (σ.call_effect x)
  · rw [hσ]
    exact initial_induction hempty (fun db op r db' _ => hstep db op r db') haudit installed

end Db
end SiqiAuth
