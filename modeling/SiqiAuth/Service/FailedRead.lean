import SiqiAuth.Service.Rpc

/-!
# Failed reads and the permission cache

`getUserPermissions` catches what its statement raises and returns the rows it has
read so far, or none at all.  A check that misses cannot tell these from the whole
set, and caches them.

## Main definitions

* `CachesWholeSets` — whatever a call puts into the cache is the whole set of a read
  that got through.
* `cachesWholeSets_iff` — when a call does so.
-/

namespace SiqiAuth
open Lib AuthService

variable {c : Collation}

/-- Every entry after the call stood there before it, under a key that was not missed,
or holds the permission keys of the user it was loaded for, by a read that got
through. -/
def CachesWholeSets (cfg : Config) (s : Server c) (x : Call) : Prop :=
  ∀ key e, (s.step cfg x).cache.find key = some e →
    (s.cache.find key = some e ∧
      ∀ req, s.Misses x req → key ≠ cacheKey req.appCode req.userId) ∨
    ∃ req, s.Misses x req ∧ readsThrough x.env.outcomes = true ∧
      key = cacheKey req.appCode req.userId ∧ e.value = s.db.permKeys req.appCode req.userId

/-- A call caches whole sets exactly if it does not miss on a read that fails. -/
theorem cachesWholeSets_iff (cfg : Config) (s : Server c) (x : Call) :
    CachesWholeSets cfg s x ↔ ∀ req, s.Misses x req → readsThrough x.env.outcomes = true := by
  have hserved := s.served cfg x
  constructor
  · intro h req hmiss
    obtain ⟨-, hkey⟩ | ⟨-, -, hreads, -⟩ := h _ _ (hserved.find_missed hmiss)
    · exact absurd rfl (hkey req hmiss)
    · exact hreads
  · intro h key e he
    obtain hkept | ⟨req, hmiss, hkey, rfl⟩ := hserved.find_cache he
    · exact Or.inl hkept
    · exact Or.inr ⟨req, hmiss, h req hmiss, hkey, loaded_eq (h req hmiss) _ _⟩

/-- **In a run every set that is cached is whole, exactly if no check misses on a read
that fails.** -/
theorem caches_whole_sets_iff (cfg : Config) (s : Server c) (l : List Call) :
    (∀ y ∈ transcript (Server.step cfg) s l, CachesWholeSets cfg y.1 y.2) ↔
      ∀ y ∈ transcript (Server.step cfg) s l, ∀ req, y.1.Misses y.2 req →
        readsThrough y.2.env.outcomes = true :=
  forall₂_congr fun y _ => cachesWholeSets_iff cfg y.1 y.2

/-- The statement of a check fails after one row; the next check, undisturbed, is denied
from the cache although the user has the permission. -/
theorem failed_read_is_cached :
    let cfg : Config := { crypt := fun _ _ => none }
    let s : Server .binary := .start 0
    let failing : Call := ⟨.check ⟨"qq_bot", "100001", "message:pin", ""⟩,
      { outcomes := [.answered [], .raised [] 1 "Lost connection"] }⟩
    let retried : Call := ⟨.check ⟨"qq_bot", "100001", "message:pin", ""⟩, {}⟩
    ¬ CachesWholeSets cfg s failing ∧ "message:pin" ∈ s.db.permKeys "qq_bot" "100001" ∧
      (s.step cfg failing).reply cfg retried =
        .check ⟨some false, "用户没有该权限 (Cache)", "admin", "admin"⟩ := by
  intro cfg s failing retried
  have hanswer : "message:pin" ∈ s.db.permKeys "qq_bot" "100001" ∧
      (s.step cfg failing).reply cfg retried =
        .check ⟨some false, "用户没有该权限 (Cache)", "admin", "admin"⟩ := by
    simp only [s, Server.start_eq_seeded]
    decide +kernel
  refine ⟨fun h => ?_, hanswer⟩
  have hmiss : (Server.start 0 : Server .binary).Misses ⟨.check ⟨"qq_bot", "100001", "message:pin", ""⟩,
      { outcomes := [.answered [], .raised [] 1 "Lost connection"] }⟩
      ⟨"qq_bot", "100001", "message:pin", ""⟩ := ⟨rfl, by decide, rfl⟩
  exact absurd ((cachesWholeSets_iff _ _ _).mp h _ hmiss) (by decide)

end SiqiAuth
