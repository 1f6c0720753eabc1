import SiqiAuth.Lib.Pattern
import SiqiAuth.Service.PageArithmetic

/-!
# Searching apps by name

`listApps` puts the text that it is to search for between two `%` and lets `LIKE` match the
names.  What the text means is then up to its characters: `%` and `_` match anything, and `\`
takes the special meaning from the next one, if only from the closing `%`.

## Main definitions

* `Db.appsNamed` — the apps that contain the text.
* `SearchesName` — the listing counts and pages these.
* `searchesName_iff` — when it does over given tables.
* `name_search_iff` — the texts for which it does over any tables.
-/

namespace SiqiAuth
open Lib AdminService

variable {c : Collation}

/-- The apps whose names contain the text, of those with the status. -/
def Db.appsNamed (db : Db c) (n : String) (st : Option ℤ) : List SysApp :=
  db.sysApps.rows.filter fun a =>
    decide (Contains c.sameChar n.toList a.appName.toList) && st.all fun st => a.status == st

/-- When nothing fails, `listApps` counts the apps that contain the text, and returns those of the
page, the newest first; as long as the position of the page fits. -/
def SearchesName (db : Db c) (n : String) (st : Option ℤ) : Prop :=
  ∀ σ : DaoState c, σ.db = db → σ.Healthy → ∀ page size : ℤ, 1 ≤ page → 1 ≤ size →
    (page - 1) * size < 2 ^ 31 → ((PermissionDAO.listApps page size (some n) st).run σ).1 =
      (slice page size (orderByDesc (fun a => (a.id : ℤ)) (db.appsNamed n st)),
        (db.appsNamed n st).length)

section Listing
variable {db : Db c}

/-- With no outcomes laid down, everything succeeds. -/
theorem DaoState.healthy_of_nil {σ : DaoState c} (hσ : σ.outcomes = []) : σ.Healthy := by
  rw [DaoState.Healthy, hσ]
  exact fun o ho => absurd ho List.not_mem_nil

/-- Selected apps are sorted in one way. -/
theorem sortedApps_eq (σ : DaoState c) (n : Option String) (st : Option ℤ) :
    sortedApps σ n st =
      orderByDesc (fun a => (a.id : ℤ)) (σ.db.snapshot.selectApps n st) := by
  refine (inOrder_orderByDesc _ (arrange_perm _ _)).eq_of_nodup
    (inOrder_orderByDesc _ (List.Perm.refl _)) ?_
  have hids : ((σ.db.snapshot.selectApps n st).map SysApp.id).Nodup :=
    σ.db.sysApps.ids_nodup.sublist (List.filter_sublist.map _)
  have hcast := hids.map (f := fun n : ℕ => (n : ℤ)) fun _ _ => Int.ofNat.inj
  rwa [List.map_map] at hcast

/-- A page that fits shows the selected apps of its positions. -/
theorem run_listApps {σ : DaoState c} (hσ : σ.Healthy) {page size : ℤ} (hpage : 1 ≤ page)
    (hsize : 1 ≤ size) (hfits : (page - 1) * size < 2 ^ 31) (n : Option String) (st : Option ℤ) :
    ((PermissionDAO.listApps page size n st).run σ).1 =
      (slice page size
        (orderByDesc (fun a => (a.id : ℤ)) (σ.db.snapshot.selectApps n st)),
        (σ.db.snapshot.selectApps n st).length) := by
  have hpage' := (listApps_page_iff hσ hpage hsize n st).mpr (Or.inl hfits)
  rw [sortedApps_eq] at hpage'
  refine Prod.ext hpage' ?_
  rw [PermissionDAO.listApps_lists n st page size σ (by omega) hσ]

/-- The first page is all of a listing, if it is long enough. -/
theorem slice_one {α : Type} {size : ℤ} {xs : List α} (h : xs.length ≤ size) :
    slice 1 size xs = xs := by
  rw [slice, sub_self, zero_mul, Int.toNat_zero, List.drop_zero, List.take_of_length_le (by omega)]

theorem all_status_iff {app : SysApp} {st : Option ℤ} :
    (st.all fun x => app.status == x) = true ↔ ∀ x ∈ st, app.status = x := by
  cases st <;> simp

/-- The pattern that is made of a text. -/
theorem selects_name_iff (n : String) (app : SysApp) :
    like c.sameChar ("%" ++ n ++ "%").toList app.appName.toList = true ↔
      app.appName.toList ∈ texts c.sameChar (pieces ('%' :: (n.toList ++ ['%']))) := by
  rw [like_iff]
  simp [String.toList_append]

theorem mem_selectApps {n : String} {st : Option ℤ} {app : SysApp} :
    app ∈ db.snapshot.selectApps (some n) st ↔ app ∈ db.sysApps ∧
      app.appName.toList ∈ texts c.sameChar (pieces ('%' :: (n.toList ++ ['%']))) ∧
        ∀ x ∈ st, app.status = x := by
  rw [Snapshot.selectApps, List.mem_filter, Bool.and_eq_true, all_status_iff, Option.all_some,
    selects_name_iff]
  rfl

theorem mem_appsNamed {n : String} {st : Option ℤ} {app : SysApp} :
    app ∈ db.appsNamed n st ↔ app ∈ db.sysApps ∧
      Contains c.sameChar n.toList app.appName.toList ∧ ∀ x ∈ st, app.status = x := by
  rw [Db.appsNamed, List.mem_filter, Bool.and_eq_true, all_status_iff, decide_eq_true_iff]
  rfl

/-- **Over given tables the listing is a search exactly if the pattern, read piece by piece,
stands for the names that contain the text**, of those that the status lets through. -/
theorem searchesName_iff (db : Db c) (n : String) (st : Option ℤ) :
    SearchesName db n st ↔ ∀ app ∈ db.sysApps, (∀ x ∈ st, app.status = x) →
      (app.appName.toList ∈ texts c.sameChar (pieces ('%' :: (n.toList ++ ['%']))) ↔
        Contains c.sameChar n.toList app.appName.toList) := by
  constructor
  · intro h app happ hst
    -- All apps fit on the first page.
    have hhealthy : (⟨db, "", [], 0⟩ : DaoState c).Healthy := DaoState.healthy_of_nil rfl
    have hselected : (db.snapshot.selectApps (some n) st).length ≤ db.sysApps.rows.length :=
      List.length_filter_le _ _
    have hnamed : (db.appsNamed n st).length ≤ db.sysApps.rows.length := List.length_filter_le _ _
    have hsame := h ⟨db, "", [], 0⟩ rfl hhealthy 1 (db.sysApps.rows.length + 1) (by omega)
      (by omega) (by simp)
    rw [run_listApps hhealthy (by omega) (by omega) (by simp), Prod.mk.injEq, slice_one,
      slice_one] at hsame
    · have hmem := congrArg (app ∈ ·) hsame.1
      simp only [(orderByDesc_perm _ _).mem_iff, mem_selectApps, mem_appsNamed, happ, true_and,
        eq_iff_iff] at hmem
      rwa [and_iff_left hst, and_iff_left hst] at hmem
    · rw [(orderByDesc_perm _ _).length_eq]
      omega
    · rw [(orderByDesc_perm _ _).length_eq]
      omega
  · intro h σ hσ hhealthy page size hpage hsize hfits
    subst hσ
    have hsame : σ.db.snapshot.selectApps (some n) st = σ.db.appsNamed n st := by
      refine List.filter_congr fun app happ => ?_
      rw [Bool.eq_iff_iff, Bool.and_eq_true, Bool.and_eq_true, decide_eq_true_iff, all_status_iff]
      exact and_congr_left fun hst => (selects_name_iff n app).trans (h app happ hst)
    rw [run_listApps hhealthy hpage hsize hfits, hsame]

/-- There are tables with one app, of any name and status. -/
theorem exists_one_app (name : String) (status : ℤ) : ∃ db : Db c, ∃ app ∈ db.sysApps,
    app.appName = name ∧ app.status = status := by
  obtain ⟨apps, hinsert⟩ := Table.exists_insert (S := sysAppsSchema c) .empty
    (fun id => ⟨id, name, "", "", "", status, 0, 0⟩) (fun _ => rfl) (by simp)
  exact ⟨{ Db.empty with sysApps := apps }, _, (Table.mem_insert_iff hinsert _).mpr (Or.inr rfl),
    rfl, rfl⟩

end Listing

/-- **The listing is a search for a text over any tables exactly if the text is plain**, and over
given ones exactly if the pattern finds the names that contain it. -/
theorem name_search_iff (hc : c.TellsSpecial) (n : String) (st : Option ℤ) :
    ((∀ db : Db c, SearchesName db n st) ↔ Plain n.toList) ∧
      ∀ db : Db c, SearchesName db n st ↔ ∀ app ∈ db.sysApps, (∀ x ∈ st, app.status = x) →
        (app.appName.toList ∈ texts c.sameChar (pieces ('%' :: (n.toList ++ ['%']))) ↔
          Contains c.sameChar n.toList app.appName.toList) := by
  refine ⟨?_, fun db => searchesName_iff db n st⟩
  rw [← like_contains_iff hc]
  constructor
  · intro h t
    obtain ⟨db, app, happ, hname, hstatus⟩ := exists_one_app (c := c) (String.ofList t) (st.getD 0)
    have hiff := (searchesName_iff db n st).mp (h db) app happ fun x hx => by
      rw [hstatus, Option.mem_def.mp hx, Option.getD_some]
    rwa [hname, String.toList_ofList, ← like_iff] at hiff
  · intro h db
    refine (searchesName_iff db n st).mpr fun app _ _ => ?_
    rw [← like_iff]
    exact h _

/-- The names of the initial tables are searched for a word. -/
theorem name_search_iff_bot :
    ((PermissionDAO.listApps 1 20 (some "群") none).run (.start 0 : DaoState .binary)).1 =
      (slice 1 20
        (orderByDesc (fun a => (a.id : ℤ)) ((Db.initial 0 : Db .binary).appsNamed "群" none)),
        ((Db.initial 0 : Db .binary).appsNamed "群" none).length) := by
  have hc : Collation.binary.TellsSpecial := ⟨by decide, 'a', by decide⟩
  have hplain : Plain "群".toList := by decide
  have hsearch := (name_search_iff hc "群" none).1.mpr hplain (.initial 0)
  have hhealthy : (DaoState.start 0 : DaoState .binary).Healthy := by
    rw [DaoState.start]
    exact DaoState.healthy_of_nil rfl
  exact hsearch (.start 0) (DaoState.db_start 0) hhealthy 1 20 (by decide) (by decide) (by decide)

/-- A search for `_` finds all apps, none of which has it in its name; and one for `\` does not
find the app that has. -/
theorem name_search_wildcard :
    let σ : DaoState .binary := run DaoState.call (.start 0) [⟨.createApp "a\\b" "ab" "", [], 0⟩]
    (((PermissionDAO.listApps 1 20 (some "_") none).run σ).1.2 = 4 ∧
      σ.db.appsNamed "_" none = [] ∧ ¬ SearchesName σ.db "_" none) ∧
    ((PermissionDAO.listApps 1 20 (some "\\") none).run σ).1.2 = 0 ∧
      (σ.db.appsNamed "\\" none).map SysApp.appCode = ["ab"] ∧ ¬ SearchesName σ.db "\\" none := by
  intro σ
  have hanswers : σ.Healthy ∧ ((PermissionDAO.listApps 1 20 (some "_") none).run σ).1.2 = 4 ∧
      σ.db.appsNamed "_" none = [] ∧
      ((PermissionDAO.listApps 1 20 (some "\\") none).run σ).1.2 = 0 ∧
      (σ.db.appsNamed "\\" none).map SysApp.appCode = ["ab"] := by
    simp only [σ, DaoState.start_eq_seeded]
    decide +kernel
  obtain ⟨hσ, hall, hnone, hmissed, hnamed⟩ := hanswers
  refine ⟨⟨hall, hnone, fun h => ?_⟩, hmissed, hnamed, fun h => ?_⟩
  · have htotal := congrArg Prod.snd (h σ rfl hσ 1 20 (by decide) (by decide) (by decide))
    rw [hall, hnone] at htotal
    cases htotal
  · have htotal := congrArg Prod.snd (h σ rfl hσ 1 20 (by decide) (by decide) (by decide))
    have hlength := congrArg List.length hnamed
    rw [hmissed] at htotal
    simp only at htotal
    rw [List.length_map, ← htotal] at hlength
    cases hlength

end SiqiAuth
