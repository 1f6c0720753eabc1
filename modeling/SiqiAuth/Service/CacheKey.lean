import SiqiAuth.Service.Rpc

/-!
# The keys of the permission cache

An app and a user are filed under `app_code + ":" + user_id`.  The separator may
occur in either, so the key can be read in more than one way: two pairs share it
exactly if a part of the user id of one, with a separator on each side, has moved to
the app code of the other.  As long as no two checks are for such pairs, every
answer from the cache is by an entry loaded for the same app and user.

## Main definitions

* `Shifted` — two pairs that share a key without being equal.
* `cacheKey_eq_iff` — when pairs share a key.
* `LoadedFor` — which app and user the entry under a key was last loaded for.
* `cacheKey_separates` — when keys separate, and whose entries answer then.
-/

namespace SiqiAuth
open Lib AuthService

variable {c : Collation}

/-- The beginning of `u`, up to a separator, stands at the end of `a'`. -/
def Shifted (a u a' u' : String) : Prop := ∃ w, a' = a ++ ":" ++ w ∧ u = w ++ ":" ++ u'

theorem cacheKey_of_shifted {a u a' u' : String} (h : Shifted a u a' u') :
    cacheKey a u = cacheKey a' u' := by
  obtain ⟨w, rfl, rfl⟩ := h
  simp only [cacheKey, String.append_assoc]

/-- Within one app nothing is shifted. -/
theorem not_shifted_self (a u u' : String) : ¬ Shifted a u a u' := by
  rintro ⟨w, ha, -⟩
  have hlen := congrArg (fun t : String => t.toList.length) ha
  simp only [String.toList_append, List.length_append] at hlen
  have hsep : ":".toList.length = 1 := by decide
  omega

/-- **Two pairs share a key exactly if they are equal or shifted.** -/
theorem cacheKey_eq_iff {a u a' u' : String} : cacheKey a u = cacheKey a' u' ↔
    (a = a' ∧ u = u') ∨ Shifted a u a' u' ∨ Shifted a' u' a u := by
  constructor
  · intro h
    have hlist : a.toList ++ ':' :: u.toList = a'.toList ++ ':' :: u'.toList := by
      have htoList := congrArg String.toList h
      simpa [cacheKey] using htoList
    -- One app code is the other followed by some characters, which begin with the
    -- separator if there are any.
    have hsplit : ∀ {b v b' v' : String} {extra : List Char}, b'.toList = b.toList ++ extra →
        ':' :: v.toList = extra ++ ':' :: v'.toList → (b = b' ∧ v = v') ∨ Shifted b v b' v' := by
      intro b v b' v' extra hb hv
      cases extra with
      | nil =>
          rw [List.append_nil, String.toList_inj] at hb
          rw [List.nil_append, List.cons_inj_right, String.toList_inj] at hv
          exact Or.inl ⟨hb.symm, hv⟩
      | cons x w =>
          obtain ⟨rfl, htail⟩ := List.cons.inj hv
          refine Or.inr ⟨String.ofList w, ?_, ?_⟩
          · rw [← String.toList_inj, hb]
            simp
          · rw [← String.toList_inj, htail]
            simp
    obtain ⟨extra, ha, hu⟩ | ⟨extra, ha, hu⟩ := List.append_eq_append_iff.mp hlist
    · exact (hsplit ha hu).imp_right Or.inl
    · obtain ⟨rfl, rfl⟩ | hshift := hsplit ha hu
      · exact Or.inl ⟨rfl, rfl⟩
      · exact Or.inr (Or.inr hshift)
  · rintro (⟨rfl, rfl⟩ | h | h)
    · rfl
    · exact cacheKey_of_shifted h
    · exact (cacheKey_of_shifted h).symm

/-! ## Whose entry answers -/

/-- After the run `l` the last check that missed under `key`, and so loaded its entry,
was for the app `a` and the user `u`. -/
inductive LoadedFor (cfg : Config) (s : Server c) : List Call → String → String → String → Prop
  | load {l : List Call} {x : Call} {req : CheckRequest}
      (hmiss : (run (Server.step cfg) s l).Misses x req) :
      LoadedFor cfg s (l ++ [x]) (cacheKey req.appCode req.userId) req.appCode req.userId
  | keep {l : List Call} {x : Call} {key a u : String} (h : LoadedFor cfg s l key a u)
      (hkey : ∀ req, (run (Server.step cfg) s l).Misses x req →
        key ≠ cacheKey req.appCode req.userId) :
      LoadedFor cfg s (l ++ [x]) key a u

/-- The run has a complete check for this app and user. -/
def Checks (l : List Call) (a u : String) : Prop :=
  ∃ x ∈ l, ∃ req : CheckRequest, x.rpc = .check req ∧ req.Complete ∧ req.appCode = a ∧ req.userId = u

namespace LoadedFor
variable {cfg : Config} {s : Server c} {l : List Call} {key a u : String}

/-- What an entry was loaded for was checked, under that key. -/
theorem checks (h : LoadedFor cfg s l key a u) : key = cacheKey a u ∧ Checks l a u := by
  induction h with
  | load hmiss => exact ⟨rfl, _, by simp, _, hmiss.1, hmiss.2.1, rfl, rfl⟩
  | keep _ _ ih =>
      obtain ⟨hkey, y, hy, hreq⟩ := ih
      exact ⟨hkey, y, List.mem_append_left _ hy, hreq⟩

end LoadedFor

/-- Every entry of the cache was loaded for someone. -/
theorem exists_loadedFor {cfg : Config} {s : Server c} (hs : s.cache = .empty) (l : List Call)
    {key : String} {e : Entry (Finset String)}
    (he : (run (Server.step cfg) s l).cache.find key = some e) :
    ∃ a u, LoadedFor cfg s l key a u := by
  induction l using List.reverseRecOn generalizing e with
  | nil =>
      rw [run_nil, hs, LocalCache.find_empty] at he
      cases he
  | append_singleton l x ih =>
      rw [run_append] at he
      have hserved := (run (Server.step cfg) s l).served cfg x
      obtain ⟨hfind, hkey⟩ | ⟨req, hmiss, rfl, -⟩ := hserved.find_cache he
      · obtain ⟨a, u, h⟩ := ih hfind
        exact ⟨a, u, h.keep hkey⟩
      · exact ⟨_, _, .load hmiss⟩

/-- The call is a check that the cache answers. -/
def Server.Hits (s : Server c) (x : Call) (req : CheckRequest) : Prop :=
  x.rpc = .check req ∧ req.Complete ∧
    (s.cache.peek (s.facing x.env).nextNow (cacheKey req.appCode req.userId)).isSome

/-- **Keys separate apps and users exactly if these are not shifted**, and a run whose
checks are for no shifted pairs answers every check it answers from the cache by an
entry that was loaded for the same app and user. -/
theorem cacheKey_separates (cfg : Config) {s : Server c} (hs : s.cache = .empty) :
    (∀ a u a' u', (a, u) ≠ (a', u') →
      (cacheKey a u ≠ cacheKey a' u' ↔ ¬ (Shifted a u a' u' ∨ Shifted a' u' a u))) ∧
    ∀ l x req, (∀ a u a' u', Checks (l ++ [x]) a u → Checks (l ++ [x]) a' u' →
        ¬ Shifted a u a' u') →
      (run (Server.step cfg) s l).Hits x req →
        (∃ a u, LoadedFor cfg s l (cacheKey req.appCode req.userId) a u) ∧
          ∀ a u, LoadedFor cfg s l (cacheKey req.appCode req.userId) a u →
            (a, u) = (req.appCode, req.userId) := by
  constructor
  · intro a u a' u' hne
    rw [ne_eq, cacheKey_eq_iff, not_iff_not]
    refine or_iff_right fun h => hne ?_
    rw [h.1, h.2]
  · rintro l x req hshift ⟨hrpc, hreq, hhit⟩
    constructor
    · obtain ⟨perms, hpeek⟩ := Option.isSome_iff_exists.mp hhit
      obtain ⟨e, hfind, -⟩ := LocalCache.peek_eq_some.mp hpeek
      exact exists_loadedFor hs l hfind
    · intro a u hload
      obtain ⟨hkey, y, hy, hchecked⟩ := hload.checks
      have hloaded : Checks (l ++ [x]) a u := ⟨y, List.mem_append_left _ hy, hchecked⟩
      have hchecks : Checks (l ++ [x]) req.appCode req.userId :=
        ⟨x, by simp, req, hrpc, hreq, rfl, rfl⟩
      obtain ⟨rfl, rfl⟩ | h | h := cacheKey_eq_iff.mp hkey
      · rfl
      · exact absurd h (hshift _ _ _ _ hchecks hloaded)
      · exact absurd h (hshift _ _ _ _ hloaded hchecks)

/-- A second check of the same user is answered by the entry of the first. -/
theorem cacheKey_separates_second_check :
    let cfg : Config := { crypt := fun _ _ => none }
    let s : Server .binary := .start 0
    let first : Call := ⟨.check ⟨"qq_bot", "100001", "member:kick", ""⟩, {}⟩
    let second : Call := ⟨.check ⟨"qq_bot", "100001", "member:mute", ""⟩, { ticks := [5] }⟩
    (run (Server.step cfg) s [first]).Hits second ⟨"qq_bot", "100001", "member:mute", ""⟩ ∧
      ∀ a u, LoadedFor cfg s [first] (cacheKey "qq_bot" "100001") a u →
        (a, u) = ("qq_bot", "100001") := by
  intro cfg s first second
  have hhits : (run (Server.step cfg) s [first]).Hits second
      ⟨"qq_bot", "100001", "member:mute", ""⟩ := ⟨rfl, by decide, by
    simp only [s, Server.start_eq_seeded]
    decide +kernel⟩
  have happ : ∀ y ∈ [first] ++ [second], ∀ q : CheckRequest, y.rpc = .check q →
      q.appCode = "qq_bot" := by
    intro y hy q hq
    simp only [List.cons_append, List.nil_append, List.mem_cons, List.not_mem_nil, or_false] at hy
    rcases hy with rfl | rfl <;> cases hq <;> rfl
  refine ⟨hhits, ((cacheKey_separates cfg (s := s) rfl).2 [first] second _ ?_ hhits).2⟩
  -- All checks are for one app.
  rintro a u a' u' ⟨x, hx, req, hrpc, -, rfl, rfl⟩ ⟨x', hx', req', hrpc', -, rfl, rfl⟩
  rw [happ x hx req hrpc, happ x' hx' req' hrpc']
  exact not_shifted_self _ _ _

/-- A role is granted in `qq_bot` to the user `1:2`; then the user `2` of the app `qq_bot:1`,
which does not exist, is allowed by the entry of the first. -/
theorem shifted_pair_is_answered :
    let cfg : Config := { crypt := fun _ hash => some hash }
    let s : Server .binary := .start 0
    let l : List Call := [⟨.login "admin" "pw" "t", {}⟩,
      ⟨.edit (.grantRoleToUser "qq_bot" "1:2" "admin") (some "Bearer t"), {}⟩,
      ⟨.check ⟨"qq_bot", "1:2", "member:kick", ""⟩, {}⟩]
    let x : Call := ⟨.check ⟨"qq_bot:1", "2", "member:kick", ""⟩, {}⟩
    cacheKey "qq_bot" "1:2" = cacheKey "qq_bot:1" "2" ∧
      LoadedFor cfg s l (cacheKey "qq_bot:1" "2") "qq_bot" "1:2" ∧
      (run (Server.step cfg) s l).reply cfg x = .check { allowed := some true } ∧
      (run (Server.step cfg) s l).db.permKeys "qq_bot:1" "2" = ∅ := by
  intro cfg s l x
  have hmiss : (run (Server.step cfg) s (l.take 2)).Misses
      ⟨.check ⟨"qq_bot", "1:2", "member:kick", ""⟩, {}⟩ ⟨"qq_bot", "1:2", "member:kick", ""⟩ :=
    ⟨rfl, by decide, by
      simp only [s, Server.start_eq_seeded]
      decide +kernel⟩
  have hanswer : (run (Server.step cfg) s l).reply cfg x = .check { allowed := some true } ∧
      (run (Server.step cfg) s l).db.permKeys "qq_bot:1" "2" = ∅ := by
    simp only [s, Server.start_eq_seeded]
    decide +kernel
  exact ⟨by decide, .load hmiss, hanswer⟩

end SiqiAuth
