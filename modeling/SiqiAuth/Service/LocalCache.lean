import Mathlib.Algebra.Group.Int.Defs
import Mathlib.Data.List.AList
import Mathlib.Data.String.Basic

/-!
# `LocalCache`

The TTL cache of `local_cache.h`.  Every function runs under the cache's mutex and
is one atomic step, so each is a function of the entries and of what the steady
clock reads during it, in nanoseconds.

An expired entry is erased when a lookup meets it, and by nothing else.  `peek` is
what a lookup would answer without touching the entries; every function is described
by what it does to `peek`.

## Main definitions

* `LocalCache` — the entries, one for each key.
* `LocalCache.put`, `get`, `invalidate`, `invalidatePrefix`, `clear` — the functions.
* `LocalCache.peek` — the value under a key at a time, if one is live.
* `LocalCache.Rel` — caches with the same keys and related values.
-/

namespace SiqiAuth

/-- `std::chrono::seconds`. -/
def seconds (n : ℤ) : ℤ := n * 10 ^ 9

/-- `LocalCache::Entry`. -/
structure Entry (α : Type) where
  value : α
  expireAt : ℤ
  deriving DecidableEq, Repr

/-- The cache, with at most one entry under a key. -/
structure LocalCache (α : Type) where
  cache : AList fun _ : String => Entry α

namespace LocalCache
variable {α : Type}

/-- The cache as it is constructed. -/
def empty : LocalCache α := ⟨∅⟩

/-- `cache_.find(key)`. -/
def find (m : LocalCache α) (key : String) : Option (Entry α) := m.cache.lookup key

/-- The entries whose keys satisfy `keep`. -/
def retain (keep : String → Bool) (m : LocalCache α) : LocalCache α :=
  ⟨⟨m.cache.entries.filter fun e => keep e.1,
    List.NodupKeys.sublist List.filter_sublist m.cache.nodupKeys⟩⟩

/-! ## The functions -/

/-- `Put`. -/
def put (now : ℤ) (key : String) (value : α) (ttlSeconds : ℤ) (m : LocalCache α) :
    LocalCache α :=
  ⟨m.cache.insert key ⟨value, now + seconds ttlSeconds⟩⟩

/-- `Get`. -/
def get (now : ℤ) (key : String) (m : LocalCache α) : Option α × LocalCache α :=
  match m.find key with
  | none => (none, m)
  | some e => if e.expireAt < now then (none, ⟨m.cache.erase key⟩) else (some e.value, m)

/-- `Invalidate`. -/
def invalidate (key : String) (m : LocalCache α) : LocalCache α := ⟨m.cache.erase key⟩

/-- `InvalidatePrefix`. -/
def invalidatePrefix (pre : String) (m : LocalCache α) : LocalCache α :=
  m.retain fun key => !decide (pre.toList <+: key.toList)

/-- `Clear`. -/
def clear (_ : LocalCache α) : LocalCache α := empty

/-! ## What a lookup would answer -/

/-- The value under a key at a time, if one is live. -/
def peek (now : ℤ) (key : String) (m : LocalCache α) : Option α :=
  ((m.find key).filter fun e => decide (now ≤ e.expireAt)).map Entry.value

variable {m : LocalCache α} {now t : ℤ} {key k : String} {v : α}

theorem peek_eq_some :
    m.peek now key = some v ↔ ∃ e, m.find key = some e ∧ now ≤ e.expireAt ∧ e.value = v := by
  simp only [peek, Option.map_eq_some_iff, Option.filter_eq_some_iff, decide_eq_true_eq]
  constructor
  · rintro ⟨e, ⟨he, hle⟩, hv⟩
    exact ⟨e, he, hle, hv⟩
  · rintro ⟨e, he, hle, hv⟩
    exact ⟨e, ⟨he, hle⟩, hv⟩

/-- What is live is live at every earlier time. -/
theorem peek_mono (h : m.peek t key = some v) (hle : now ≤ t) : m.peek now key = some v := by
  obtain ⟨e, he, hexp, hv⟩ := peek_eq_some.mp h
  exact peek_eq_some.mpr ⟨e, he, hle.trans hexp, hv⟩

@[simp] theorem find_empty : (empty : LocalCache α).find key = none := AList.lookup_empty key

@[simp] theorem peek_empty : (empty : LocalCache α).peek now key = none := by
  simp [peek]

/-! ## What the functions do -/

theorem find_retain (keep : String → Bool) :
    (m.retain keep).find k = if keep k then m.find k else none := by
  have hmem : ∀ e, (m.retain keep).find k = some e ↔ keep k = true ∧ m.find k = some e := by
    intro e
    rw [find, find, ← Option.mem_def, ← Option.mem_def, AList.mem_lookup_iff, AList.mem_lookup_iff,
      and_comm]
    exact List.mem_filter
  cases hk : keep k with
  | true =>
      ext e
      simp [hmem, hk]
  | false =>
      have hnone : (m.retain keep).find k = none := by
        rw [Option.eq_none_iff_forall_ne_some]
        intro e he
        simp [hmem, hk] at he
      exact hnone

theorem find_put : (m.put now key v t).find k =
    if k = key then some ⟨v, now + seconds t⟩ else m.find k := by
  by_cases hk : k = key
  · subst hk
    simp [find, put]
  · simp [find, put, hk, AList.lookup_insert_ne]

theorem find_invalidate : (m.invalidate key).find k = if k = key then none else m.find k := by
  by_cases hk : k = key
  · subst hk
    simp [find, invalidate]
  · simp [find, invalidate, hk, AList.lookup_erase_ne]

/-- A lookup answers by what is live. -/
theorem fst_get : (m.get now key).1 = m.peek now key := by
  simp only [get, peek]
  cases hf : m.find key with
  | none => rfl
  | some e =>
      by_cases hlt : e.expireAt < now
      · simp [hlt, Option.filter]
      · simp [hlt, not_lt.mp hlt, Option.filter]

/-- A lookup that answers nothing leaves no entry behind; any other leaves the
entries alone. -/
theorem find_snd_get : (m.get now key).2.find k =
    if k = key ∧ m.peek now key = none then none else m.find k := by
  rw [← fst_get]
  cases hf : m.find key with
  | none =>
      by_cases hk : k = key
      · subst hk
        simp [get, hf]
      · simp [get, hf, hk]
  | some e =>
      by_cases hlt : e.expireAt < now
      · have herase : (⟨m.cache.erase key⟩ : LocalCache α).find k =
            if k = key then none else m.find k := find_invalidate
        simp [get, hf, hlt, herase]
      · simp [get, hf, hlt]

/-- The erasure of an expired entry is never seen. -/
theorem peek_snd_get (hle : now ≤ t) : (m.get now key).2.peek t k = m.peek t k := by
  by_cases h : k = key ∧ m.peek now key = none
  · obtain ⟨rfl, hnone⟩ := h
    have hnone' : m.peek t k = none := by
      rw [Option.eq_none_iff_forall_ne_some]
      intro v hv
      rw [peek_mono hv hle] at hnone
      cases hnone
    rw [hnone', peek, find_snd_get, if_pos ⟨rfl, hnone⟩]
    rfl
  · rw [peek, find_snd_get, if_neg h, peek]

theorem peek_put {ttl : ℤ} : (m.put now key v ttl).peek t k =
    if k = key then if t ≤ now + seconds ttl then some v else none else m.peek t k := by
  by_cases hk : k = key
  · by_cases hle : t ≤ now + seconds ttl <;> simp [peek, find_put, hk, hle, Option.filter]
  · simp [peek, find_put, hk]

theorem peek_invalidate :
    (m.invalidate key).peek t k = if k = key then none else m.peek t k := by
  by_cases hk : k = key <;> simp [peek, find_invalidate, hk]

theorem peek_invalidatePrefix {pre : String} :
    (m.invalidatePrefix pre).peek t k =
      if pre.toList <+: k.toList then none else m.peek t k := by
  by_cases hk : pre.toList <+: k.toList <;> simp [peek, invalidatePrefix, find_retain, hk]

@[simp] theorem peek_clear : m.clear.peek t k = none := peek_empty

/-! ## Comparing two caches -/

/-- The same keys and times of expiry, and values in `R`. -/
def Rel {β : Type} (R : α → β → Prop) (m : LocalCache α) (m' : LocalCache β) : Prop :=
  ∀ key, Option.Rel (fun e e' => e.expireAt = e'.expireAt ∧ R e.value e'.value) (m.find key)
    (m'.find key)

namespace Rel
variable {β : Type} {R : α → β → Prop} {m' : LocalCache β}

theorem refl {R : α → α → Prop} (h : ∀ v, R v v) (m : LocalCache α) : m.Rel R m := by
  intro key
  cases m.find key with
  | none => exact .none
  | some e => exact .some ⟨rfl, h e.value⟩

/-- Lookups answer alike. -/
theorem peek (h : m.Rel R m') (now : ℤ) (key : String) :
    Option.Rel R (m.peek now key) (m'.peek now key) := by
  have hkey := h key
  simp only [LocalCache.peek]
  cases hfind : m.find key <;> cases hfind' : m'.find key <;> rw [hfind, hfind'] at hkey <;>
    cases hkey
  case none => exact .none
  case some e e' hee =>
    by_cases hlive : now ≤ e.expireAt
    · simp [Option.filter, hlive, hee.1 ▸ hlive, hee.2]
    · simp [Option.filter, hlive, hee.1 ▸ hlive]

/-- And have the same effect. -/
theorem get (h : m.Rel R m') (now : ℤ) (key : String) : (m.get now key).2.Rel R (m'.get now key).2 := by
  intro k
  have hpeek : m.peek now key = none ↔ m'.peek now key = none := by
    have hrel := h.peek now key
    cases hm : m.peek now key <;> cases hm' : m'.peek now key <;> rw [hm, hm'] at hrel <;>
      cases hrel <;> simp
  simp only [find_snd_get, hpeek]
  split
  · exact .none
  · exact h k

theorem put (h : m.Rel R m') (now : ℤ) (key : String) {v : α} {v' : β} (hv : R v v') (ttl : ℤ) :
    (m.put now key v ttl).Rel R (m'.put now key v' ttl) := by
  intro k
  simp only [find_put]
  split
  · exact .some ⟨rfl, hv⟩
  · exact h k

theorem invalidate (h : m.Rel R m') (key : String) :
    (m.invalidate key).Rel R (m'.invalidate key) := by
  intro k
  simp only [find_invalidate]
  split
  · exact .none
  · exact h k

theorem retain (h : m.Rel R m') (keep : String → Bool) : (m.retain keep).Rel R (m'.retain keep) := by
  intro k
  simp only [find_retain]
  split
  · exact h k
  · exact .none

end Rel
end LocalCache
end SiqiAuth
