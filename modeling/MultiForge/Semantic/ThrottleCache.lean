/-
MultiForge.Semantic.ThrottleCache — `forge.core.reactive.throttle`: a cache
whose entries expire.

Instants are microseconds. An entry holds the instant that its timestamp
reads as, without what is below a second, as `now_iso` writes it.
-/
import Mathlib.Algebra.Order.Ring.Rat
import Mathlib.Data.List.Sort
import MultiForge.Lib.Dict

namespace MultiForge.Semantic

/-- A second, in microseconds. -/
def second : Int := 1000000

/-- The instant that `now_iso` writes. -/
def nowIso (now : Int) : Int := now - now % second

theorem nowIso_le (now : Int) : nowIso now ≤ now := by
  have h : (0 : Int) ≤ now % second := Int.emod_nonneg now (by decide)
  unfold nowIso
  omega

/-- An entry, as far as its fields have the types that are asked for. -/
structure CacheEntry where
  checkedAt : Option Int
  verdict : Option String
  confidence : Option ℚ
  deriving DecidableEq

/-- What is known of verdicts, under their keys. -/
abbrev Cache := Dict String CacheEntry

namespace Cache

/-- `ThrottleCache.check` -/
def check (cache : Cache) (ttlSeconds now : Int) (key : String) : Option CacheEntry :=
  match cache.get? key with
  | none => none
  | some entry => match entry.checkedAt with
    | none => none
    | some checkedAt => if now - checkedAt < ttlSeconds * second then some entry else none

/-- `ThrottleCache.update` with a verdict and a confidence. -/
def update (cache : Cache) (now : Int) (key verdict : String) (confidence : ℚ) : Cache :=
  cache.set key ⟨some (nowIso now), some verdict, some confidence⟩

/-- The order by `checked_at`, latest first; a missing one is least. -/
def later (a b : String × CacheEntry) : Bool :=
  match a.2.checkedAt, b.2.checkedAt with
  | _, none => true
  | none, some _ => false
  | some x, some y => decide (y ≤ x)

def maxEntries : Nat := 50

/-- `ThrottleCache.get_state`: the most recent entries. -/
def getState (cache : Cache) : Cache where
  entries :=
    if maxEntries < cache.entries.length then (cache.entries.mergeSort later).take maxEntries
    else cache.entries
  nodup := by
    split
    · have hperm := (List.mergeSort_perm cache.entries later).map Prod.fst
      have hsorted : ((cache.entries.mergeSort later).map Prod.fst).Nodup :=
        hperm.nodup_iff.mpr cache.nodup
      exact hsorted.sublist ((List.take_sublist _ _).map Prod.fst)
    · exact cache.nodup

theorem getState_of_le {cache : Cache} (h : cache.entries.length ≤ maxEntries) :
    cache.getState = cache := by
  cases cache
  simp only [getState, if_neg (Nat.not_lt.mpr h)]

/-! ## Where entries come from -/

/-- A cached entry is there and not older than the limit. -/
theorem check_eq_some {cache : Cache} {ttlSeconds now : Int} {key : String} {entry : CacheEntry}
    (h : cache.check ttlSeconds now key = some entry) :
    (key, entry) ∈ cache.entries
      ∧ ∃ t, entry.checkedAt = some t ∧ now - t < ttlSeconds * second := by
  unfold check at h
  cases hget : cache.get? key with
  | none => simp [hget] at h
  | some found =>
    simp only [hget] at h
    cases hchecked : found.checkedAt with
    | none => simp [hchecked] at h
    | some t =>
      simp only [hchecked] at h
      split at h
      · rename_i hage
        obtain rfl := Option.some.inj h
        exact ⟨Dict.get?_eq_some_iff.mp hget, t, hchecked, hage⟩
      · cases h

theorem mem_update {cache : Cache} {now : Int} {key verdict : String} {confidence : ℚ}
    {e : String × CacheEntry} (h : e ∈ (cache.update now key verdict confidence).entries) :
    e ∈ cache.entries ∨ e = (key, ⟨some (nowIso now), some verdict, some confidence⟩) := by
  obtain ⟨k, entry⟩ := e
  have hget := Dict.get?_eq_some_iff.mpr h
  rw [update, Dict.get?_set] at hget
  split at hget
  · rename_i hk
    right
    rw [hk, Option.some.inj hget]
  · exact .inl (Dict.get?_eq_some_iff.mp hget)

/-- What is persisted was in the cache. -/
theorem mem_getState {cache : Cache} {e : String × CacheEntry} (h : e ∈ cache.getState.entries) :
    e ∈ cache.entries := by
  unfold getState at h
  simp only at h
  split at h
  · exact List.mem_mergeSort.mp (List.mem_of_mem_take h)
  · exact h

end Cache

end MultiForge.Semantic
