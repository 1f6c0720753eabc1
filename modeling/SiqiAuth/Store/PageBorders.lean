import SiqiAuth.Store.Totals

/-!
# Reading all pages of a listing

Each page of a listing is sorted anew, and rows that are equal in what they are sorted by come in
an order of the server's own.  Apps are sorted by their number, and differ.  The other listings
are sorted by a time in seconds, and an entry is lost and another read twice when two of one
second stand at the border of two pages.

## Main definitions

* `pagesRead`, `PagesOnce` — what all pages together show, and that it is everything once.
* `PagesFetch` — the pages are fetched from where they should.
* `Lists.pagesOnce_iff` — when it is everything once, for a listing function.
* `pages_once_iff` — the same for each of the four.
-/

namespace SiqiAuth
open Lib

variable {c : Collation} {α β γ : Type}

/-- The entries on the first pages, as many as there are up to the total that is reported. -/
def pagesRead (list : ℤ → ℤ → Dao c (List β × ℕ)) (size : ℤ) (σ : ℕ → DaoState c) : List β :=
  (List.range (((pageOf list size (σ 0) 0).2 + size.toNat - 1) / size.toNat)).flatMap fun p =>
    (pageOf list size (σ p) p).1

/-- On tables that stay as they are, and with nothing failing, the pages show each of `found`
once, whichever order each answer comes in. -/
def PagesOnce (list : ℤ → ℤ → Dao c (List β × ℕ)) (db : Db c) (size : ℤ) (what : β → γ)
    (found : List γ) : Prop :=
  ∀ σ : ℕ → DaoState c, (∀ p, (σ p).db = db ∧ (σ p).Healthy) →
    ((pagesRead list size σ).map what).Perm found

/-- The pages up to the total are fetched from where they should, among `n` entries. -/
def PagesFetch (n total : ℕ) (size : ℤ) : Prop :=
  ∀ p < (total + size.toNat - 1) / size.toNat, OffsetFits n (p * size)

instance (n total : ℕ) (size : ℤ) : Decidable (PagesFetch n total size) :=
  inferInstanceAs (Decidable (∀ p : ℕ, p < (total + size.toNat - 1) / size.toNat →
    OffsetFits n (p * size)))

theorem pagesFetch_iff {size : ℤ} (hsize : 0 < size) {n total : ℕ} : PagesFetch n total size ↔
    ∀ p < (total + size.toNat - 1) / size.toNat,
      Fetches n (p * size.toNat) (sqlOffset (pageOffset (p + 1) size)) := by
  refine forall₂_congr fun p _ => ?_
  have hstart : 0 ≤ (p : ℤ) * size := mul_nonneg (by omega) (by omega)
  rw [← fetches_iff_offsetFits hstart, pageOffset_eq, add_sub_cancel_right,
    Int.toNat_mul (by omega) (by omega), Int.toNat_natCast]

/-- The tables, with an environment that answers interaction `i` in the given order. -/
def DaoState.answering (db : Db c) (i : ℕ) (picks : List ℕ) : DaoState c :=
  ⟨db, "", List.replicate i (.answered []) ++ [.answered picks], 0⟩

@[simp] theorem DaoState.db_answering (db : Db c) (i : ℕ) (picks : List ℕ) :
    (DaoState.answering db i picks).db = db := by
  simp only [answering]

theorem DaoState.healthy_answering (db : Db c) (i : ℕ) (picks : List ℕ) :
    (DaoState.answering db i picks).Healthy := by
  intro o ho
  simp only [answering, List.mem_append, List.mem_replicate, List.mem_singleton] at ho
  rcases ho with ⟨-, rfl⟩ | rfl <;> rfl

@[simp] theorem DaoState.picks_answering (db : Db c) (i : ℕ) (picks : List ℕ) :
    (DaoState.answering db i picks).picks i = picks := by
  simp [DaoState.picks, answering, Outcome.picks]

/-- The pages up to a total have room for as many entries. -/
theorem le_pages_mul {total s : ℕ} (hs : 0 < s) : total ≤ (total + s - 1) / s * s := by
  have hdiv := Nat.div_add_mod (total + s - 1) s
  have hmod := Nat.mod_lt (total + s - 1) hs
  rw [mul_comm]
  generalize s * ((total + s - 1) / s) = t at hdiv ⊢
  omega

section Combinator
variable {list : ℤ → ℤ → Dao c (List β × ℕ)} {rows : Db c → List ℕ → List α} {key : α → ℤ}
  {entry : α → β} {total : Db c → ℕ} {i : ℕ} {db : Db c} {size : ℤ} {found : List γ}

/-- What all pages together show, in terms of the order that each is read in. -/
theorem Lists.map_pagesRead (h : Lists list rows key entry total i) (what : β → γ) (key' : γ → ℤ)
    (hkey : ∀ x, key' (what (entry x)) = key x) (hsize : 0 < size) {σ : ℕ → DaoState c}
    (hσ : ∀ p, (σ p).db = db ∧ (σ p).Healthy) : (pagesRead list size σ).map what =
      (List.range ((total db + size.toNat - 1) / size.toNat)).flatMap fun p =>
        pageAt size.toNat
          (orderByDesc key' ((rows db ((σ p).picks i)).map fun x => what (entry x)))
          (sqlOffset (pageOffset (p + 1) size)) := by
  have hpage : ∀ p, pageOf list size (σ p) p = ((pageAt size.toNat
      (orderByDesc key (rows db ((σ p).picks i))) (sqlOffset (pageOffset (p + 1) size))).map entry,
        total db) := by
    intro p
    rw [pageOf, h _ _ (σ p) hsize (hσ p).2, (hσ p).1]
  simp only [pagesRead, hpage, List.map_flatMap, List.map_map, map_pageAt]
  refine congrArg (List.flatMap · _) (funext fun p => ?_)
  rw [← map_orderByDesc hkey]
  rfl

/-- **When the pages show everything once**: each is fetched from where it should, and no two
entries of one key stand at a border. -/
theorem Lists.pagesOnce_iff (h : Lists list rows key entry total i) (what : β → γ) (key' : γ → ℤ)
    (hkey : ∀ x, key' (what (entry x)) = key x)
    (hfound : ∀ picks, ((rows db picks).map fun x => what (entry x)).Perm found)
    (hreach : ∀ o, o.Perm found → ∃ picks, ((rows db picks).map fun x => what (entry x)) = o)
    (hnodup : found.Nodup) (hsize : 0 < size) (htotal : found.length ≤ total db) :
    PagesOnce list db size what found ↔ PagesFetch found.length (total db) size ∧
      ∀ p, ¬ TieAt key' found (p * size.toNat) := by
  have hgood : ∀ p, p * size.toNat < 2 ^ 31 →
      sqlOffset (pageOffset (p + 1) size) = some (p * size.toNat) := by
    intro p hp
    refine sqlOffset_pageOffset hsize ?_
    have hcast : ((size.toNat : ℕ) : ℤ) = size := Int.toNat_of_nonneg (by omega)
    rw [← hcast]
    exact_mod_cast hp
  have hbad : ∀ p, 2 ^ 31 ≤ p * size.toNat →
      ∀ w ∈ sqlOffset (pageOffset (p + 1) size), w < 2 ^ 31 :=
    fun p _ w hw => lt_of_mem_sqlOffset hw
  have hpages : found.length ≤ (total db + size.toNat - 1) / size.toNat * size.toNat :=
    htotal.trans (le_pages_mul (by omega))
  rw [pagesFetch_iff hsize]
  refine Iff.trans ?_ (complete_iff hgood hbad hnodup (by omega) hpages)
  constructor
  · intro hall o ho
    choose picks hpicks using fun p => hreach (o p) (ho p).perm
    have hσ : ∀ p, (DaoState.answering db i (picks p)).db = db ∧
        (DaoState.answering db i (picks p)).Healthy :=
      fun p => ⟨DaoState.db_answering _ _ _, DaoState.healthy_answering _ _ _⟩
    have honce := hall _ hσ
    rw [h.map_pagesRead what key' hkey hsize hσ] at honce
    simpa only [DaoState.picks_answering, hpicks, orderByDesc_of_sorted key' (ho _).sorted]
      using honce
  · intro hall σ hσ
    rw [h.map_pagesRead what key' hkey hsize hσ]
    exact hall _ fun p => inOrder_orderByDesc key' (hfound _)

/-- The same for rows that are delivered as they are, in some order, and counted. -/
theorem Lists.pagesOnce_iff_of_arrange (h : Lists list rows key entry total i) (what : β → γ)
    (key' : γ → ℤ) (hkey : ∀ x, key' (what (entry x)) = key x)
    (hrows : ∀ picks, ((rows db picks).map fun x => what (entry x)) = arrange picks found)
    (hnodup : found.Nodup) (hsize : 0 < size) (htotal : total db = found.length) :
    PagesOnce list db size what found ↔ PagesFetch found.length found.length size ∧
      ∀ p, ¬ TieAt key' found (p * size.toNat) := by
  have hiff := h.pagesOnce_iff what key' hkey (fun picks => by rw [hrows]; exact arrange_perm _ _)
    (fun o ho => by simpa only [hrows] using exists_arrange_eq ho) hnodup hsize htotal.ge
  rwa [htotal] at hiff

end Combinator

/-! ## The entries -/

namespace Db
variable (db : Db c)

/-- The users of a role, with the times of their assignments. -/
def roleUsers (a k : String) : List (String × DateTime) :=
  ((db.snapshot.selectAppId a).head?.elim [] fun n => db.snapshot.selectRoleUsers n k).map
    fun x => (x.1.appUserId, x.1.createdAt)

/-- Users with rows to list, as the column takes them, and the first of their times. -/
def listedUsers (a : String) (userId : Option String) : List (c.Value × DateTime) :=
  ((db.snapshot.selectAppId a).head?.elim [] fun n =>
    groups (sameUser c)
      (db.snapshot.selectUserRoleData n (userId.filter (· ≠ "")))).map
    fun g => (c.value g.1.ur.appUserId, PermissionDAO.firstCreated g.1 g.2)

/-- The number of users that are counted. -/
def countedUsers (a : String) (userId : Option String) : ℕ :=
  (db.snapshot.selectAppId a).head?.elim 0 fun n =>
    PermissionDAO.countUsers c (db.snapshot.selectUsers n (userId.filter (· ≠ "")))

end Db

theorem roleUsers_arrange (db : Db c) (a k : String) (picks : List ℕ) :
    (((db.snapshot.selectAppId a).head?.elim [] fun n =>
      arrange picks (db.snapshot.selectRoleUsers n k)).map
        fun x => (x.1.appUserId, x.1.createdAt)) = arrange picks (db.roleUsers a k) := by
  rw [Db.roleUsers, ← map_arrange]
  cases (db.snapshot.selectAppId a).head? with
  | none => simp [(arrange_perm picks []).eq_nil]
  | some n => rfl

/-- In an app, a role is assigned to a user once. -/
theorem nodup_roleUsers {db : Db c} (hdb : db.Linked) (a k : String) :
    (db.roleUsers a k).Nodup := by
  unfold Db.roleUsers
  cases hhead : (db.snapshot.selectAppId a).head? with
  | none => exact List.nodup_nil
  | some n =>
      have hrows : (db.snapshot.selectRoleUsers n k).Nodup :=
        (nodup_join db.sysUserRoles.nodup_rows db.sysRoles.nodup_rows _).filter _
      refine hrows.map_on ?_
      rintro ⟨ur, r⟩ hx ⟨ur', r'⟩ hy heq
      simp only [Snapshot.selectRoleUsers, List.mem_filter, mem_join, Bool.and_eq_true,
        beq_iff_eq] at hx hy
      obtain ⟨⟨hur, hr, hid⟩, happ, hkey⟩ := hx
      obtain ⟨⟨hur', hr', hid'⟩, happ', hkey'⟩ := hy
      have hsame : c.same r.roleKey r'.roleKey = true := c.same_trans _ _ _ hkey (c.same_comm hkey')
      obtain rfl : r = r' := Table.eq_of_clash hr hr' (by simp [sysRolesSchema, happ, happ', hsame])
      have hown := hdb.assignment ur hur r hr hid.symm
      have hown' := hdb.assignment ur' hur' r hr hid'.symm
      have huser : ur.appUserId = ur'.appUserId := (Prod.mk.inj heq).1
      have hclash : (sysUserRolesSchema c).clash ur ur' = true := by
        simp [sysUserRolesSchema, ← hown, ← hown', hid, hid', huser]
      rw [Table.eq_of_clash hur hur' hclash]

section Users
variable {rows rows' : List Snapshot.UserRoleJoin} {x y : Snapshot.UserRoleJoin}

theorem le_firstCreated_iff {t : ℤ} (x : Snapshot.UserRoleJoin) (l : List Snapshot.UserRoleJoin) :
    t ≤ PermissionDAO.firstCreated x l ↔ t ≤ x.ur.createdAt ∧ ∀ y ∈ l, t ≤ y.ur.createdAt := by
  have hfold : ∀ s : ℤ, t ≤ l.foldl (fun t y => min t y.ur.createdAt) s ↔
      t ≤ s ∧ ∀ y ∈ l, t ≤ y.ur.createdAt := by
    induction l with
    | nil => simp
    | cons y l ih =>
        intro s
        rw [List.foldl_cons, ih, le_min_iff, List.forall_mem_cons, and_assoc]
  exact hfold _

/-- The first time of a group depends on its rows alone. -/
theorem firstCreated_congr {l l' : List Snapshot.UserRoleJoin} (h : ∀ z, z ∈ l ↔ z ∈ l')
    (hx : x ∈ l) (hy : y ∈ l') :
    PermissionDAO.firstCreated x l = PermissionDAO.firstCreated y l' := by
  refine eq_of_forall_le_iff fun t => ?_
  rw [le_firstCreated_iff, le_firstCreated_iff, and_iff_right_of_imp fun hall => hall x hx,
    and_iff_right_of_imp fun hall => hall y hy]
  simp only [h]

variable (c) in
/-- The entry of a user, as far as it does not depend on the order of the rows. -/
def userEntry (rows : List Snapshot.UserRoleJoin) (x : Snapshot.UserRoleJoin) :
    c.Value × DateTime :=
  (c.value x.ur.appUserId, PermissionDAO.firstCreated x
    (rows.filter fun y => c.same x.ur.appUserId y.ur.appUserId))

theorem userEntry_congr (hrows : rows.Perm rows') (hx : x ∈ rows) (hy : y ∈ rows')
    (hsame : c.same x.ur.appUserId y.ur.appUserId = true) :
    userEntry c rows x = userEntry c rows' y := by
  have hvalue : c.value x.ur.appUserId = c.value y.ur.appUserId := (c.same_iff_value _ _).mp hsame
  refine Prod.ext hvalue (firstCreated_congr (fun z => ?_) ?_ ?_)
  · rw [List.mem_filter, List.mem_filter, hrows.mem_iff, c.same_congr_left hsame]
  · exact List.mem_filter.mpr ⟨hx, c.same_refl _⟩
  · exact List.mem_filter.mpr ⟨hy, c.same_refl _⟩

theorem map_groups (rows : List Snapshot.UserRoleJoin) :
    ((groups (sameUser c) rows).map fun g =>
      (c.value g.1.ur.appUserId, PermissionDAO.firstCreated g.1 g.2)) =
      (distinct (sameUser c) rows).map (userEntry c rows) := by
  rw [groups, List.map_map]
  rfl

theorem nodup_userEntries (rows : List Snapshot.UserRoleJoin) :
    ((distinct (sameUser c) rows).map
      (userEntry c rows)).Nodup := by
  have hvalues := nodup_map_distinct (sameUser_iff (c := c)) rows
  refine List.Nodup.of_map Prod.fst ?_
  rwa [List.map_map]

theorem userEntries_subset (hrows : rows.Perm rows') :
    (distinct (sameUser c) rows).map (userEntry c rows) ⊆
      (distinct (sameUser c) rows').map (userEntry c rows') := by
  intro e he
  obtain ⟨x, hx, rfl⟩ := List.mem_map.mp he
  have hmem := mem_of_mem_distinct hx
  obtain ⟨y, hy, hsame⟩ := List.mem_map.mp ((mem_map_distinct (sameUser_iff (c := c))).mpr
    (List.mem_map_of_mem (hrows.subset hmem)))
  refine List.mem_map.mpr ⟨y, hy, ?_⟩
  exact userEntry_congr hrows.symm (mem_of_mem_distinct hy) hmem ((c.same_iff_value _ _).mpr hsame)

/-- The entries of the users are the same in whatever order their rows come. -/
theorem userEntries_perm (hrows : rows.Perm rows') :
    ((distinct (sameUser c) rows).map (userEntry c rows)).Perm
      ((distinct (sameUser c) rows').map
        (userEntry c rows')) := by
  refine (List.perm_ext_iff_of_nodup (nodup_userEntries rows) (nodup_userEntries rows')).mpr ?_
  exact fun e => ⟨fun h => userEntries_subset hrows h, fun h => userEntries_subset hrows.symm h⟩

/-- And every order of them is reached: by rows of which the first of each user come first. -/
theorem exists_arrange_userEntries {o : List (c.Value × DateTime)}
    (ho : o.Perm ((distinct (sameUser c) rows).map (userEntry c rows))) : ∃ picks,
    (distinct (sameUser c) (arrange picks rows)).map (userEntry c (arrange picks rows)) = o := by
  obtain ⟨picks, rfl⟩ := exists_arrange_eq ho
  rw [← map_arrange]
  have hfirst : (arrange picks (distinct (sameUser c) rows)).Perm (distinct (sameUser c) rows) :=
    arrange_perm _ _
  generalize arrange picks (distinct (sameUser c) rows) = first at hfirst
  obtain ⟨others, hothers⟩ := (distinct_sublist (sameUser c) rows).exists_perm_append
  have hrows : (first ++ others).Perm rows := (hfirst.append_right others).trans hothers.symm
  obtain ⟨picks', hpicks'⟩ := exists_arrange_eq hrows
  refine ⟨picks', ?_⟩
  have hapart : first.Pairwise fun x y => sameUser c x y = false := by
    have hnodup := (hfirst.map fun x => c.value x.ur.appUserId).nodup_iff.mpr
      (nodup_map_distinct sameUser_iff rows)
    refine (List.pairwise_map.mp hnodup).imp fun {x y} hne => ?_
    rw [Bool.eq_false_iff, ne_eq, sameUser_iff]
    exact hne
  have hcovered : ((distinct (sameUser c) others).filter fun y =>
      first.all fun x => !sameUser c x y) = [] := by
    refine List.filter_eq_nil_iff.mpr fun y hy hall => ?_
    have hmem : y ∈ rows := hrows.subset (List.mem_append_right _ (mem_of_mem_distinct hy))
    obtain ⟨x, hx, hxy⟩ := List.mem_map.mp ((mem_map_distinct (sameUser_iff (c := c))).mpr
      (List.mem_map_of_mem hmem))
    have hno := List.all_eq_true.mp hall x (hfirst.symm.subset hx)
    simp [(sameUser_iff x y).mpr hxy] at hno
  rw [hpicks', distinct_append hapart, hcovered, List.append_nil]
  refine List.map_congr_left fun x hx => ?_
  exact userEntry_congr hrows (List.mem_append_left _ hx)
    (mem_of_mem_distinct (hfirst.subset hx)) (c.same_refl _)

variable (db : Db c) (a : String) (userId : Option String)

theorem nodup_listedUsers : (db.listedUsers a userId).Nodup := by
  rw [Db.listedUsers]
  cases (db.snapshot.selectAppId a).head? with
  | none => exact List.nodup_nil
  | some n =>
      rw [Option.elim_some, map_groups]
      exact nodup_userEntries _

/-- The users are listed in whatever order the rows come. -/
theorem listedUsers_perm (picks : List ℕ) :
    (((db.snapshot.selectAppId a).head?.elim [] fun n =>
      groups (sameUser c)
        (arrange picks (db.snapshot.selectUserRoleData n (userId.filter (· ≠ ""))))).map fun g =>
          (c.value g.1.ur.appUserId, PermissionDAO.firstCreated g.1 g.2)).Perm
      (db.listedUsers a userId) := by
  rw [Db.listedUsers]
  cases (db.snapshot.selectAppId a).head? with
  | none => exact List.Perm.refl _
  | some n =>
      rw [Option.elim_some, Option.elim_some, map_groups, map_groups]
      exact userEntries_perm (arrange_perm _ _)

end Users

/-! ## The four functions -/

section Functions
variable {db : Db c} {size : ℤ}

theorem listApps_pagesOnce_iff (hsize : 0 < size) (n : Option String) (st : Option ℤ) :
    PagesOnce (fun page size => PermissionDAO.listApps page size n st) db size id
        (db.snapshot.selectApps n st) ↔
      PagesFetch (db.snapshot.selectApps n st).length (db.snapshot.selectApps n st).length
        size := by
  have hids : ((db.snapshot.selectApps n st).map fun a => (a.id : ℤ)).Nodup := by
    have hrows : ((db.snapshot.selectApps n st).map SysApp.id).Nodup :=
      db.sysApps.ids_nodup.sublist (List.filter_sublist.map _)
    have hcast := hrows.map (Nat.cast_injective (R := ℤ))
    rwa [List.map_map] at hcast
  refine ((PermissionDAO.listApps_lists n st).pagesOnce_iff_of_arrange id
    (fun a => (a.id : ℤ)) (fun _ => rfl) (fun picks => List.map_id _) hids.of_map hsize
    rfl).trans (and_iff_left fun p => not_tieAt_of_nodup _ hids)

theorem listAuditLogs_pagesOnce_iff (hsize : 0 < size)
    (a action operatorId targetId : Option String) (startTime endTime : Option ℤ) :
    let found := db.selectAuditLogs ⟨a.filter (· ≠ ""), action.filter (· ≠ ""),
      operatorId.filter (· ≠ ""), targetId.filter (· ≠ ""), startTime, endTime⟩
    PagesOnce (fun page size => PermissionDAO.listAuditLogs page size a action operatorId targetId
        startTime endTime) db size id found ↔
      PagesFetch found.length found.length size ∧
        ∀ p, ¬ TieAt SysAuditLog.createdAt found (p * size.toNat) := by
  intro found
  exact (PermissionDAO.listAuditLogs_lists a action operatorId targetId startTime
    endTime).pagesOnce_iff_of_arrange id SysAuditLog.createdAt (fun _ => rfl)
    (fun picks => List.map_id _) (db.sysAuditLogs.nodup_rows.filter _) hsize rfl

theorem getRoleUsers_pagesOnce_iff (hsize : 0 < size) (hdb : db.Linked) (a k : String) :
    PagesOnce (fun page size => PermissionDAO.getRoleUsers a k page size) db size id
        (db.roleUsers a k) ↔
      PagesFetch (db.roleUsers a k).length (db.roleUsers a k).length size ∧
        ∀ p, ¬ TieAt Prod.snd (db.roleUsers a k) (p * size.toNat) := by
  refine (PermissionDAO.getRoleUsers_lists a k).pagesOnce_iff_of_arrange id Prod.snd
    (fun _ => rfl) (roleUsers_arrange db a k) (nodup_roleUsers hdb a k) hsize ?_
  rw [Db.roleUsers, List.length_map]
  cases (db.snapshot.selectAppId a).head? <;> rfl

theorem listUserRoles_pagesOnce_iff (hsize : 0 < size) (a : String) (userId : Option String) :
    PagesOnce (fun page size => PermissionDAO.listUserRoles a page size userId) db size
        (fun e => (c.value e.userId, e.createdAt)) (db.listedUsers a userId) ↔
      PagesFetch (db.listedUsers a userId).length (db.countedUsers a userId) size ∧
        ∀ p, ¬ TieAt Prod.snd (db.listedUsers a userId) (p * size.toNat) := by
  refine (PermissionDAO.listUserRoles_lists a userId).pagesOnce_iff _ Prod.snd (fun _ => rfl)
    (listedUsers_perm db a userId) (fun o ho => ?_) (nodup_listedUsers db a userId) hsize ?_
  · rw [Db.listedUsers] at ho
    cases hhead : (db.snapshot.selectAppId a).head? with
    | none =>
        rw [hhead] at ho
        exact ⟨[], ho.eq_nil.symm⟩
    | some n =>
        rw [hhead, Option.elim_some, map_groups] at ho
        obtain ⟨picks, hpicks⟩ := exists_arrange_userEntries ho
        exact ⟨picks, (map_groups _).trans hpicks⟩
  · rw [Db.listedUsers, List.length_map]
    cases hhead : (db.snapshot.selectAppId a).head? with
    | none => exact le_refl 0
    | some n =>
        obtain ⟨app, -, -, rfl⟩ := DaoOp.exists_app_of_head? hhead
        rw [Option.elim_some, Option.elim_some, groups, List.length_map]
        exact length_listed_le app

end Functions
/-- **When reading all pages shows everything once**, whichever order the server chooses for each:
the pages are fetched from where they should, and, but for apps, which differ in what they are
sorted by, no two entries of one second stand at the border of two pages. -/
theorem pages_once_iff (db : Db c) {size : ℤ} (hsize : 1 ≤ size) :
    (∀ n st, PagesOnce (fun page size => PermissionDAO.listApps page size n st) db size id
        (db.snapshot.selectApps n st) ↔
      PagesFetch (db.snapshot.selectApps n st).length (db.snapshot.selectApps n st).length size) ∧
    (∀ a k, db.Reachable →
      (PagesOnce (fun page size => PermissionDAO.getRoleUsers a k page size) db size id
          (db.roleUsers a k) ↔
        PagesFetch (db.roleUsers a k).length (db.roleUsers a k).length size ∧
          ∀ p, ¬ TieAt Prod.snd (db.roleUsers a k) (p * size.toNat))) ∧
    (∀ a userId, PagesOnce (fun page size => PermissionDAO.listUserRoles a page size userId) db size
        (fun e => (c.value e.userId, e.createdAt)) (db.listedUsers a userId) ↔
      PagesFetch (db.listedUsers a userId).length (db.countedUsers a userId) size ∧
        ∀ p, ¬ TieAt Prod.snd (db.listedUsers a userId) (p * size.toNat)) ∧
    ∀ a action operatorId targetId startTime endTime,
      let found := db.selectAuditLogs ⟨a.filter (· ≠ ""), action.filter (· ≠ ""),
        operatorId.filter (· ≠ ""), targetId.filter (· ≠ ""), startTime, endTime⟩
      PagesOnce (fun page size => PermissionDAO.listAuditLogs page size a action operatorId targetId
          startTime endTime) db size id found ↔
        PagesFetch found.length found.length size ∧
          ∀ p, ¬ TieAt SysAuditLog.createdAt found (p * size.toNat) :=
  ⟨listApps_pagesOnce_iff hsize, fun a k hdb => getRoleUsers_pagesOnce_iff hsize hdb.linked a k,
    listUserRoles_pagesOnce_iff hsize, listAuditLogs_pagesOnce_iff hsize⟩

/-- Three apps are read on two pages. -/
theorem pages_once_iff_listApps :
    let db : Db .binary := .initial 0
    PagesOnce (fun page size => PermissionDAO.listApps page size none none) db 2 id
      (db.snapshot.selectApps none none) := by
  intro db
  obtain ⟨happs, -⟩ := pages_once_iff db (show (1 : ℤ) ≤ 2 by decide)
  refine (happs none none).mpr ?_
  simp only [db, Db.initial_eq_seeded]
  decide +kernel

/-- Three audit rows of one second, on pages of one row: the server changes its mind about the
first two, so that one is read twice and the other not at all. -/
theorem pages_repeat_and_lose :
    let list := fun page size =>
      PermissionDAO.listAuditLogs (c := .binary) page size none none none none none none
    let σ : ℕ → DaoState .binary := fun p =>
      .answering (.initial 0) 2 (if p = 1 then [1, 1] else [])
    (∀ p, (σ p).db = .initial 0 ∧ (σ p).Healthy) ∧
      (pagesRead list 1 σ).map SysAuditLog.id = [1, 1, 3] ∧
      ¬ PagesOnce list (.initial 0) 1 id ((Db.initial 0 : Db .binary).selectAuditLogs
        ⟨none, none, none, none, none, none⟩) := by
  intro list σ
  have hσ : ∀ p, (σ p).db = .initial 0 ∧ (σ p).Healthy :=
    fun p => ⟨DaoState.db_answering _ _ _, DaoState.healthy_answering _ _ _⟩
  have hread : (pagesRead list 1 σ).map SysAuditLog.id = [1, 1, 3] := by
    simp only [σ, Db.initial_eq_seeded]
    decide +kernel
  refine ⟨hσ, hread, fun honce => ?_⟩
  have hperm := (honce σ hσ).map SysAuditLog.id
  rw [List.map_id, hread] at hperm
  have hnodup := hperm.nodup_iff.mpr
    ((Db.initial 0 : Db .binary).sysAuditLogs.ids_nodup.sublist (List.filter_sublist.map _))
  simp at hnodup

end SiqiAuth
