import SiqiAuth.Store.LastError

/-!
# The wording of errors

Every text that the DAO leaves in `last_error_` opens with words of its own, all of them
Chinese; what the driver says only follows them.  So a function leaves there what it found
or a text that opens beyond ASCII, and no sequence of calls makes it say what the DAO never
says.

## Main definitions

* `worded` — the text opens with words of the DAO's own.
* `Told` — a last error that was left alone or replaced by such a text.
* `Words` — a computation does no more than that to the last error.
* `DaoOp.words` and its siblings — none of the functions of the console's DAO does more.
-/

namespace SiqiAuth
open Lib

variable {c : Collation} {α β : Type}

/-- The text opens with words of the DAO's own, none of which is written in ASCII. -/
def worded (e : String) : Bool := e.toList.head?.any fun a => decide (128 ≤ a.toNat)

theorem worded_append {label : String} (h : worded label = true) (what : String) :
    worded (label ++ what) = true := by
  rw [worded, String.toList_append]
  cases hlabel : label.toList with
  | nil => simp [worded, hlabel] at h
  | cons a l => simpa [worded, hlabel] using h

/-- The last error `e` was left alone, or replaced by a text of the DAO's own. -/
def Told (e e' : String) : Prop := e' = e ∨ worded e' = true

namespace Told

theorem refl (e : String) : Told e e := Or.inl rfl

theorem trans {e e' e'' : String} (h : Told e e') (k : Told e' e'') : Told e e'' := by
  rcases k with rfl | k
  · exact h
  · exact Or.inr k

/-- What the DAO never says is not there afterwards if it was not before. -/
theorem ne {e e' m : String} (h : Told e e') (hm : worded m = false) (he : e ≠ m) : e' ≠ m := by
  rintro rfl
  rcases h with rfl | h
  · exact he rfl
  · exact Bool.false_ne_true (hm.symm.trans h)

end Told

/-- Whatever the computation does, it leaves the last error alone or puts a text of the DAO's
own there. -/
def Words (x : Dao c α) : Prop := ∀ σ : DaoState c, Told σ.lastError (x.run σ).2.lastError

namespace Words
variable {x : Dao c α} {body : Sql c α}

/-! ## Rules -/

theorem pure (a : α) : Words (pure a : Dao c α) := fun _ => .refl _

theorem get : Words (MonadState.get : Dao c (DaoState c)) := fun _ => .refl _

theorem bind {f : α → Dao c β} (hx : Words x) (hf : ∀ a, Words (f a)) : Words (x >>= f) :=
  fun σ => (hx σ).trans (hf _ _)

theorem pureSql (a : α) : Words (Pure.pure a : Sql c α).run := fun _ => .refl _

/-- An exception ends the body. -/
theorem bindSql {f : α → Sql c β} (hbody : Words body.run) (hf : ∀ a, Words (f a).run) :
    Words (body >>= f).run := by
  rw [ExceptT.run_bind]
  refine hbody.bind fun r => ?_
  cases r with
  | ok a => exact hf a
  | error e => exact pure _

theorem liftSql (hx : Words x) : Words (liftM x : Sql c α).run := fun σ => hx σ

theorem catchSql {handler : String → Dao c α} (hbody : Words body.run)
    (hh : ∀ e, Words (handler e)) : Words (catchSql body handler) := by
  refine hbody.bind fun r => ?_
  cases r with
  | ok a => exact pure a
  | error e => exact hh e

/-! ## Steps -/

theorem setLastError {e : String} (he : worded e = true) :
    Words (setLastError e : Dao c Unit) := fun _ => Or.inr he

theorem nextOutcome : Words (nextOutcome : Dao c Outcome) := fun _ => .refl _

theorem withConnection {dflt : α} (hx : Words x) : Words (withConnection dflt x) := by
  refine nextOutcome.bind fun o => ?_
  cases o with
  | refused what =>
      cases what with
      | none => exact pure _
      | some what => exact (setLastError (worded_append (by decide) what)).bind fun _ => pure _
  | _ => exact hx

theorem reporting {label : String} {dflt : α} (hlabel : worded label = true)
    (hbody : Words body.run) : Words (reporting label dflt body) :=
  catchSql hbody fun e => (setLastError (worded_append hlabel e)).bind fun _ => pure _

theorem report {label : String} (hlabel : worded label = true) (raised : Option String) :
    Words (report label raised : Dao c Unit) := by
  cases raised with
  | none => exact pure _
  | some what => exact setLastError (worded_append hlabel what)

theorem refuse {e : String} (he : worded e = true) : Words (refuse e : Sql c Bool).run :=
  bindSql (liftSql (setLastError he)) fun _ => pureSql _

theorem executeQuery (rows : Db c → List α) : Words (executeQuery rows : Sql c _).run := by
  refine bindSql (liftSql nextOutcome) fun o => ?_
  cases o with
  | raised picks fetched what => exact pure _
  | _ => exact bindSql (liftSql get) fun _ => pureSql _

theorem executeUpdate (w : Statement) : Words (executeUpdate w : Sql c ℕ).run := by
  intro σ
  by_cases hpass : σ.outcome.completes = true
  · have hsaid := says_executeUpdate (w := w) hpass σ.lastError
    exact Or.inl (congrArg (fun out => out.2.lastError) hsaid)
  · obtain ⟨what, hraised⟩ := says_executeUpdate_raised (w := w) (by simpa using hpass)
    exact Or.inl (congrArg (fun out => out.2.lastError) (hraised σ.lastError))

theorem fetchWith (rows : Db c → List α) (finish : List α → Except String (List β)) :
    Words (fetchWith rows finish) :=
  fun _ => .refl _

theorem fetchRows (rows : Db c → List α) : Words (fetchRows rows) := fetchWith rows .ok

theorem getAppId (a : String) : Words (PermissionDAO.getAppId a : Dao c _) :=
  .withConnection (.catchSql (bindSql (executeQuery _) fun _ => pureSql _) fun _ => pure _)

end Words

/-! ## The functions of the console's DAO -/

theorem PermissionDAO.words_createApp (n a d : String) : Words (createApp n a d : Dao c _) :=
  .withConnection (.bind .get fun _ =>
    .reporting (by decide) (.bindSql (.executeUpdate _) fun _ => .pureSql _))

namespace DaoOp

/-- The number of the app is looked up and a statement sent. -/
theorem words_sendInApp {a e : String} {w : ℕ → Statement} {judge : ℕ → Sql c Bool}
    (he : worded e = true) (hjudge : ∀ rows, Words (judge rows).run) :
    Words (sendInApp a e w judge).run := by
  refine .bindSql (.liftSql (.getAppId a)) fun found => ?_
  cases found with
  | none => exact .refuse he
  | some appId => exact .bindSql (.executeUpdate _) hjudge

/-- An operation that is refused where nothing was deleted. -/
theorem words_deleted {e : String} (he : worded e = true) (rows : ℕ) :
    Words (if rows = 0 then refuse e else return true : Sql c Bool).run := by
  split
  · exact .refuse he
  · exact .pureSql _

/-- **No operation says anything but what the DAO says.** -/
theorem words (op : DaoOp) : Words (op.run : Dao c Bool) := by
  cases op with
  | createApp n a d => exact (PermissionDAO.words_createApp n a d).bind fun _ => .pure _
  | updateApp a n d st =>
      refine .withConnection (.reporting (by decide) ?_)
      split
      · exact .pureSql _
      · exact .bindSql (.executeUpdate _) fun _ => .pureSql _
  | deleteApp a | removeRoleFromUser a u k | removePermissionFromRole a k p =>
      exact .withConnection (.reporting (by decide)
        (.bindSql (.executeUpdate _) fun _ => .pureSql _))
  | createRole a n k d df | createPermission a n k d | updateRole a k n d df
  | updatePermission a k n d =>
      exact .withConnection (.reporting (by decide)
        (words_sendInApp (worded_append (by decide) a) fun _ => .pureSql _))
  | deleteRole a k | deletePermission a k =>
      exact .withConnection (.reporting (by decide)
        (words_sendInApp (worded_append (by decide) a) (words_deleted (by decide))))
  | assignRoleToUser a u k =>
      refine .withConnection (.reporting (by decide) (.bindSql (.executeQuery _) fun roles => ?_))
      cases roles.head? with
      | none => exact .refuse (by decide)
      | some role => exact .bindSql (.executeUpdate _) fun _ => .pureSql _
  | addPermissionToRole a k p =>
      refine .withConnection (.reporting (by decide) (.bindSql (.executeQuery _) fun roles => ?_))
      cases roles.head? with
      | none => exact .refuse (by decide)
      | some role =>
          refine .bindSql (.executeQuery _) fun perms => ?_
          cases perms.head? with
          | none => exact .refuse (by decide)
          | some perm => exact .bindSql (.executeUpdate _) fun _ => .pureSql _

end DaoOp

namespace PermissionDAO

theorem words_createAuditLog (entry : AuditEntry) : Words (createAuditLog entry : Dao c Bool) :=
  .withConnection (.catchSql (.bindSql (.executeUpdate _) fun _ => .pureSql _) fun _ => .pure _)

theorem words_getConsoleUser (username : String) : Words (getConsoleUser username : Dao c _) := by
  refine .withConnection (.reporting (by decide) (.bindSql (.executeQuery _) fun found => ?_))
  cases found.head? <;> exact .pureSql _

theorem words_getApp (a : String) : Words (getApp a : Dao c _) :=
  .withConnection (.reporting (by decide) (.bindSql (.executeQuery _) fun _ => .pureSql _))

/-- A listing reads what a query answers, and reports how the reading ended. -/
theorem words_listing (label : String) (hlabel : worded label = true)
    {fetched : Dao c (List α × Option String)} (hfetched : Words fetched)
    {f : List α × Option String → Dao c β}
    (hf : ∀ x, ∃ b, f x = do
      report label x.2
      return b) : Words (fetched >>= f) := by
  refine hfetched.bind fun x => ?_
  obtain ⟨b, hb⟩ := hf x
  rw [hb]
  exact (Words.report hlabel _).bind fun _ => .pure _

/-- A listing of one app. -/
theorem words_ofApp {a : String} {dflt : α} {listing : ℕ → Dao c α}
    (hlisting : ∀ appId, Words (listing appId)) : Words (do
      let some appId ← getAppId a | return dflt
      listing appId) := by
  refine (Words.getAppId a).bind fun found => ?_
  cases found with
  | none => exact .pure _
  | some appId => exact hlisting appId

/-- A listing that counts what it pages reports a count that fails. -/
theorem words_counted {γ : Type} (label : String) (hlabel : worded label = true)
    {counted : Db c → List γ} {f : Except String (List γ) → Dao c β}
    (herror : ∀ e, ∃ b, f (.error e) = do
      setLastError (label ++ e)
      return b)
    (hok : ∀ xs, Words (f (.ok xs))) : Words ((executeQuery counted : Sql c _).run >>= f) := by
  refine (Words.executeQuery counted).bind fun answer => ?_
  cases answer with
  | error e =>
      obtain ⟨b, hb⟩ := herror e
      rw [hb]
      exact (Words.setLastError (worded_append hlabel e)).bind fun _ => .pure _
  | ok xs => exact hok xs

theorem words_listApps (page pageSize : ℤ) (appName : Option String) (status : Option ℤ) :
    Words (listApps page pageSize appName status : Dao c _) :=
  .withConnection (words_counted "获取应用列表失败: " (by decide) (fun _ => ⟨_, rfl⟩) fun _ =>
    words_listing "获取应用列表失败: " (by decide) (.fetchWith _ _) fun _ => ⟨_, rfl⟩)

theorem words_listRoles (a : String) : Words (listRoles a : Dao c _) :=
  .withConnection (words_ofApp fun _ =>
    words_listing "查询角色列表失败: " (by decide) (.fetchWith _ _) fun _ => ⟨_, rfl⟩)

theorem words_listPermissions (a : String) : Words (listPermissions a : Dao c _) :=
  .withConnection (words_ofApp fun _ =>
    words_listing "查询权限列表失败: " (by decide) (.fetchRows _) fun _ => ⟨_, rfl⟩)

theorem words_getRolePermissions (a k : String) : Words (getRolePermissions a k : Dao c _) :=
  .withConnection (words_ofApp fun _ =>
    words_listing "查询角色权限失败: " (by decide) (.fetchRows _) fun _ => ⟨_, rfl⟩)

theorem words_getRoleUsers (a k : String) (page pageSize : ℤ) :
    Words (getRoleUsers a k page pageSize : Dao c _) :=
  .withConnection (words_ofApp fun _ =>
    words_counted "查询角色用户失败: " (by decide) (fun _ => ⟨_, rfl⟩) fun _ =>
      words_listing "查询角色用户失败: " (by decide) (.fetchWith _ _) fun _ => ⟨_, rfl⟩)

theorem words_listUserRoles (a : String) (page pageSize : ℤ) (userId : Option String) :
    Words (listUserRoles a page pageSize userId : Dao c _) :=
  .withConnection (words_ofApp fun _ =>
    words_counted "查询用户角色列表失败: " (by decide) (fun _ => ⟨_, rfl⟩) fun _ =>
      words_listing "查询用户角色列表失败: " (by decide) (.fetchWith _ _) fun _ => ⟨_, rfl⟩)

theorem words_listAuditLogs (page pageSize : ℤ) (a action operatorId targetId : Option String)
    (startTime endTime : Option ℤ) :
    Words (listAuditLogs page pageSize a action operatorId targetId startTime endTime : Dao c _) :=
  .withConnection (words_counted "查询审计日志失败: " (by decide) (fun _ => ⟨_, rfl⟩) fun _ =>
    words_listing "查询审计日志失败: " (by decide) (.fetchWith _ _) fun _ => ⟨_, rfl⟩)

end PermissionDAO
end SiqiAuth
