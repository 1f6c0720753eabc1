import SiqiAuth.Lib.TimedMap
import SiqiAuth.Service.LocalCache

/-!
# `LocalCache` as a timed map

What a lookup in the cache answers is determined by the calls so far: the last `Put` under the
key, if nothing has removed it since and its time has not run out.  That a lookup erases what has
expired, and that `InvalidatePrefix` erases while it iterates, is never seen.

## Main definitions

* `LocalCache.eraseMatching` — the loop of `InvalidatePrefix`.
* `CacheCall` — a call, and what it reads from the clock.
* `LocalCache.step`, `LocalCache.answer` — the state after a call, and what it returns.
* `LocalCache.stepKeeping` — the same, if lookups erased nothing.
* `CacheCall.change` — what a call means for a timed map.
* `localCache_refines_timed_map` — the cache behaves as a timed map.
-/

namespace SiqiAuth
open Lib

variable {α : Type}

/-! ## The loop of `InvalidatePrefix` -/

namespace LocalCache

/-- The loop: `it` is what it has yet to visit, and an entry is erased when it is visited. -/
def eraseMatching (pre : String) :
    List (Sigma fun _ : String => Entry α) → LocalCache α → LocalCache α
  | [], m => m
  | e :: it, m =>
      eraseMatching pre it (if pre.toList <+: e.1.toList then m.invalidate e.1 else m)

theorem find_eraseMatching (pre : String) (it : List (Sigma fun _ : String => Entry α))
    (m : LocalCache α) (k : String) : (m.eraseMatching pre it).find k =
      if pre.toList <+: k.toList ∧ k ∈ it.keys then none else m.find k := by
  induction it generalizing m with
  | nil => simp [eraseMatching]
  | cons e it ih =>
      rw [eraseMatching, ih]
      by_cases hk : k = e.1
      · subst hk
        by_cases hpre : pre.toList <+: e.1.toList <;> simp [hpre, find_invalidate]
      · by_cases hpre : pre.toList <+: e.1.toList <;> simp [hpre, find_invalidate, hk]

/-- The loop over all entries leaves what `invalidatePrefix` leaves. -/
theorem find_eraseMatching_entries (m : LocalCache α) (pre k : String) :
    (m.eraseMatching pre m.cache.entries).find k = (m.invalidatePrefix pre).find k := by
  rw [find_eraseMatching, invalidatePrefix, find_retain]
  by_cases hk : k ∈ m.cache.entries.keys
  · simp [hk]
  · have hnone : m.find k = none := AList.lookup_eq_none.mpr hk
    simp [hnone]

end LocalCache

/-! ## Calls -/

/-- A call of the cache, with what the clock reads during it. -/
inductive CacheCall (α : Type)
  | put (now : ℤ) (key : String) (value : α) (ttlSeconds : ℤ)
  | get (now : ℤ) (key : String)
  | invalidate (key : String)
  | invalidatePrefix (pre : String)
  | clear

namespace CacheCall

/-- What the call reads from the clock, if it does. -/
def reads : CacheCall α → Option ℤ
  | put now .. | get now _ => some now
  | _ => none

/-- The call puts another value under `k`, or removes it. -/
def Ends (k : String) : CacheCall α → Prop
  | put _ key _ _ | invalidate key => key = k
  | get .. => False
  | invalidatePrefix pre => pre.toList <+: k.toList
  | clear => True

/-- What the call means for a timed map. -/
def change : CacheCall α → Change String α ℤ
  | put now key value ttlSeconds => .write key value (now + seconds ttlSeconds)
  | get .. => .remove ∅
  | invalidate key => .remove {key}
  | invalidatePrefix pre => .remove {key | pre.toList <+: key.toList}
  | clear => .remove Set.univ

theorem touches_change {x : CacheCall α} {k : String} : x.change.Touches k ↔ x.Ends k := by
  cases x with
  | invalidate key => exact eq_comm
  | get now key => exact iff_false_intro (Set.notMem_empty k)
  | clear => exact iff_true_intro (Set.mem_univ k)
  | put | invalidatePrefix => exact Iff.rfl

theorem change_eq_write {x : CacheCall α} {k : String} {v : α} {u : ℤ} :
    x.change = .write k v u ↔ ∃ now ttl, x = .put now k v ttl ∧ now + seconds ttl = u := by
  constructor
  · intro h
    cases x with
    | put now key value ttl =>
        simp only [change, Change.write.injEq] at h
        obtain ⟨rfl, rfl, hu⟩ := h
        exact ⟨now, ttl, rfl, hu⟩
    | _ => cases h
  · rintro ⟨now, ttl, rfl, rfl⟩
    rfl

end CacheCall

namespace LocalCache

/-- What a call returns, and the cache after it. -/
def call (m : LocalCache α) : CacheCall α → Option α × LocalCache α
  | .put now key value ttlSeconds => (none, m.put now key value ttlSeconds)
  | .get now key => m.get now key
  | .invalidate key => (none, m.invalidate key)
  | .invalidatePrefix pre => (none, m.eraseMatching pre m.cache.entries)
  | .clear => (none, m.clear)

def answer (m : LocalCache α) (x : CacheCall α) : Option α := (m.call x).1

def step (m : LocalCache α) (x : CacheCall α) : LocalCache α := (m.call x).2

/-- The cache after a call, if a lookup erased nothing. -/
def stepKeeping (m : LocalCache α) : CacheCall α → LocalCache α
  | .get .. => m
  | x => m.step x

/-- What the calls of a run return. -/
def answers (step : LocalCache α → CacheCall α → LocalCache α) (l : List (CacheCall α)) :
    List (Option α) := (transcript step empty l).map fun y => y.1.answer y.2

variable {m : LocalCache α} {f : TimedMap String α ℤ} {t : ℤ} {k : String}

/-! ## What is live -/

/-- **One call.**  What is live at `t` changes as in a timed map, if lookups erase nothing. -/
theorem peek_stepKeeping (x : CacheCall α) (h : m.peek t k = f.live t k) :
    (m.stepKeeping x).peek t k = (f.change x.change).live t k := by
  classical
  cases x with
  | put now key value ttl =>
      change (m.put now key value ttl).peek t k = _
      rw [peek_put, h, CacheCall.change, TimedMap.live_change_write]
  | get now key =>
      rw [CacheCall.change, TimedMap.live_change_remove, if_neg (Set.notMem_empty k)]
      exact h
  | invalidate key =>
      change (m.invalidate key).peek t k = _
      rw [peek_invalidate, h, CacheCall.change, TimedMap.live_change_remove]
      exact if_congr Iff.rfl rfl rfl
  | invalidatePrefix pre =>
      have hloop : (m.eraseMatching pre m.cache.entries).peek t k =
          (m.invalidatePrefix pre).peek t k := by
        rw [peek, find_eraseMatching_entries, peek]
      change (m.eraseMatching pre m.cache.entries).peek t k = _
      rw [hloop, peek_invalidatePrefix, h, CacheCall.change, TimedMap.live_change_remove]
      exact if_congr Iff.rfl rfl rfl
  | clear =>
      change m.clear.peek t k = _
      rw [peek_clear, CacheCall.change, TimedMap.live_change_remove, if_pos (Set.mem_univ k)]

/-- A lookup erases only what is not live from then on. -/
theorem peek_step (x : CacheCall α) (h : m.peek t k = f.live t k) (hle : ∀ now ∈ x.reads, now ≤ t) :
    (m.step x).peek t k = (f.change x.change).live t k := by
  cases x with
  | get now key =>
      change (m.get now key).2.peek t k = _
      rw [peek_snd_get (hle now rfl)]
      exact peek_stepKeeping (.get now key) h
  | put now key value ttl => exact peek_stepKeeping (.put now key value ttl) h
  | invalidate key => exact peek_stepKeeping (.invalidate key) h
  | invalidatePrefix pre => exact peek_stepKeeping (.invalidatePrefix pre) h
  | clear => exact peek_stepKeeping .clear h

/-- **A run.**  At a time that the clock has not passed, what is live is what a timed map holds. -/
theorem peek_run {l : List (CacheCall α)} (hle : ∀ now ∈ l.filterMap CacheCall.reads, now ≤ t)
    (h : m.peek t k = f.live t k) :
    (run step m l).peek t k = (run TimedMap.change f (l.map CacheCall.change)).live t k := by
  induction l generalizing m f with
  | nil => exact h
  | cons x l ih =>
      have hx : ∀ now ∈ x.reads, now ≤ t := fun now hnow =>
        hle now (List.mem_filterMap.mpr ⟨x, List.mem_cons_self, hnow⟩)
      refine ih (fun now hnow => hle now ?_) (peek_step x h hx)
      obtain ⟨y, hy, hreads⟩ := List.mem_filterMap.mp hnow
      exact List.mem_filterMap.mpr ⟨y, List.mem_cons_of_mem x hy, hreads⟩

theorem peek_runKeeping {l : List (CacheCall α)} (h : m.peek t k = f.live t k) :
    (run stepKeeping m l).peek t k =
      (run TimedMap.change f (l.map CacheCall.change)).live t k := by
  induction l generalizing m f with
  | nil => exact h
  | cons x l ih => exact ih (peek_stepKeeping x h)

theorem peek_empty_eq_live : (empty : LocalCache α).peek t k = TimedMap.empty.live t k := by
  rw [peek_empty]
  rfl

/-- What a timed map holds after the calls, in terms of these. -/
theorem live_run_eq_some {l : List (CacheCall α)} {v : α} :
    (run TimedMap.change .empty (l.map CacheCall.change)).live t k = some v ↔
      ∃ l₁ now ttl l₂, l = l₁ ++ .put now k v ttl :: l₂ ∧ (∀ x ∈ l₂, ¬ x.Ends k) ∧
        t ≤ now + seconds ttl := by
  simp only [TimedMap.live_eq_some, TimedMap.run_change_eq_some]
  constructor
  · rintro ⟨u, ⟨w₁, w₂, hl, hw₂⟩, hle⟩
    obtain ⟨l₁, l₂, rfl, rfl, hl₂⟩ := List.map_eq_append_iff.mp hl
    obtain ⟨x, l₂, rfl, hx, rfl⟩ := List.map_eq_cons_iff.mp hl₂
    obtain ⟨now, ttl, rfl, rfl⟩ := CacheCall.change_eq_write.mp hx
    refine ⟨l₁, now, ttl, l₂, rfl, fun y hy hends => ?_, hle⟩
    exact hw₂ y.change (List.mem_map_of_mem hy) (CacheCall.touches_change.mpr hends)
  · rintro ⟨l₁, now, ttl, l₂, rfl, hl₂, hle⟩
    refine ⟨now + seconds ttl, ⟨l₁.map CacheCall.change, l₂.map CacheCall.change,
      by simp [CacheCall.change], ?_⟩, hle⟩
    intro y hy htouches
    obtain ⟨x, hx, rfl⟩ := List.mem_map.mp hy
    exact hl₂ x hx (CacheCall.touches_change.mp htouches)

/-- Before the last call of a run the clock was not past what this reads. -/
theorem reads_le {l : List (CacheCall α)} {x : CacheCall α} {t : ℤ} (hx : x.reads = some t)
    (hclock : ((l ++ [x]).filterMap CacheCall.reads).Pairwise (· ≤ ·)) :
    ∀ now ∈ l.filterMap CacheCall.reads, now ≤ t := by
  rw [List.filterMap_append, List.pairwise_append] at hclock
  exact fun now hnow => hclock.2.2 now hnow t (by simp [hx])

/-- A lookup at the end of a run answers the same whether lookups have erased or not. -/
theorem answer_run_eq {l : List (CacheCall α)} {x : CacheCall α}
    (hclock : ((l ++ [x]).filterMap CacheCall.reads).Pairwise (· ≤ ·)) :
    (run step empty l).answer x = (run stepKeeping empty l).answer x := by
  cases x with
  | get now key =>
      change ((run step empty l).get now key).1 = ((run stepKeeping empty l).get now key).1
      rw [fst_get, fst_get, peek_run (reads_le rfl hclock) peek_empty_eq_live,
        peek_runKeeping peek_empty_eq_live]
  | _ => rfl

theorem answers_append_singleton (step : LocalCache α → CacheCall α → LocalCache α)
    (l : List (CacheCall α)) (x : CacheCall α) :
    answers step (l ++ [x]) = answers step l ++ [(run step empty l).answer x] := by
  rw [answers, transcript_append, List.map_append]
  rfl

end LocalCache

open LocalCache

/-- **The cache refines a timed map.**  If the clock never goes back, a lookup returns what the
last `Put` under its key has put, if nothing has ended it since and its time has not run out, and
nothing otherwise; and what the calls return is what they would return if lookups erased
nothing. -/
theorem localCache_refines_timed_map {l : List (CacheCall α)}
    (hclock : (l.filterMap CacheCall.reads).Pairwise (· ≤ ·)) :
    (∀ l₁ t k l₂, l = l₁ ++ .get t k :: l₂ → ∀ v, (run step empty l₁).answer (.get t k) = some v ↔
      ∃ l₃ now ttl l₄, l₁ = l₃ ++ .put now k v ttl :: l₄ ∧ (∀ x ∈ l₄, ¬ x.Ends k) ∧
        t ≤ now + seconds ttl) ∧
      answers step l = answers stepKeeping l := by
  constructor
  · rintro l₁ t k l₂ rfl v
    have hprefix : ((l₁ ++ [CacheCall.get t k]).filterMap CacheCall.reads).Pairwise (· ≤ ·) := by
      rw [List.append_cons] at hclock
      exact hclock.sublist (List.Sublist.filterMap _ (List.sublist_append_left _ l₂))
    change ((run step empty l₁).get t k).1 = some v ↔ _
    rw [fst_get, peek_run (reads_le rfl hprefix) peek_empty_eq_live, live_run_eq_some]
  · induction l using List.reverseRecOn with
    | nil => rfl
    | append_singleton l x ih =>
        have hbefore : (l.filterMap CacheCall.reads).Pairwise (· ≤ ·) :=
          hclock.sublist (List.Sublist.filterMap _ (List.sublist_append_left l [x]))
        rw [answers_append_singleton, answers_append_singleton, ih hbefore, answer_run_eq hclock]

/-- A value is put twice and looked up when the first has expired, the second not. -/
theorem localCache_refines_timed_map_overwritten :
    let l₁ : List (CacheCall ℕ) := [.put 0 "k" 1 1, .get 2000000000 "k", .put 2000000000 "k" 2 1,
      .invalidatePrefix "kk"]
    (run step empty l₁).answer (.get 3000000000 "k") = some 2 ∧
      answers step (l₁ ++ [.get 3000000000 "k"]) =
        answers stepKeeping (l₁ ++ [.get 3000000000 "k"]) := by
  intro l₁
  obtain ⟨hanswer, hanswers⟩ := localCache_refines_timed_map
    (l := l₁ ++ [.get 3000000000 "k"]) (by decide)
  refine ⟨(hanswer l₁ 3000000000 "k" [] rfl 2).mpr ?_, hanswers⟩
  exact ⟨[.put 0 "k" 1 1, .get 2000000000 "k"], 2000000000, 1, [.invalidatePrefix "kk"], rfl,
    by simp [CacheCall.Ends], by decide⟩

end SiqiAuth
