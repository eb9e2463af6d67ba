/-
MultiForge.Lib.Tally — dictionaries that count.

A dictionary tallies a counting function when it holds the positive counts
and no other key. Counting one more occurrence (`bump`) and one fewer
(`unbump`, which deletes a key whose count is used up) keep this, so two
dictionaries that reach the same counts on different ways hold the same
under every key.
-/
import MultiForge.Lib.Dict

namespace MultiForge

namespace Dict

variable {κ : Type} [DecidableEq κ]

/-! ## 1. One occurrence more, one fewer -/

/-- `d[k] = d.get(k, 0) + 1` -/
def bump (d : Dict κ Int) (k : κ) : Dict κ Int := d.set k ((d.get? k).getD 0 + 1)

/-- `d[k] -= 1` where the key is there, and `del d[k]` where that leaves no
positive count. -/
def unbump (d : Dict κ Int) (k : κ) : Dict κ Int :=
  d.alter k fun n => if n - 1 ≤ 0 then none else some (n - 1)

/-- The dictionary holds the positive counts, and no other key. -/
def Tallies (d : Dict κ Int) (count : κ → Nat) : Prop :=
  ∀ k, d.get? k = if 0 < count k then some (count k : Int) else none

variable {d e : Dict κ Int} {count count' : κ → Nat}

theorem Tallies.congr (h : d.Tallies count) (hcount : ∀ k, count k = count' k) :
    d.Tallies count' := by
  intro k
  rw [h k, hcount k]

/-- Nothing has been counted yet. -/
theorem Tallies.empty : (Dict.empty : Dict κ Int).Tallies fun _ => 0 := by
  intro k
  simp

theorem Tallies.getD (h : d.Tallies count) (k : κ) : (d.get? k).getD 0 = count k := by
  rw [h k]
  split
  · rfl
  · have hzero : count k = 0 := by omega
    rw [hzero]
    rfl

/-- Dictionaries of the same counts hold the same. -/
theorem Tallies.get?_eq (hd : d.Tallies count) (he : e.Tallies count) (k : κ) :
    d.get? k = e.get? k := by
  rw [hd k, he k]

theorem Tallies.mem_keys (h : d.Tallies count) (k : κ) :
    k ∈ d.entries.map Prod.fst ↔ 0 < count k := by
  have hnone := find_eq_none_iff (k := k) (l := d.entries)
  have hk := h k
  unfold get? at hk
  rw [hk] at hnone
  by_cases hpos : 0 < count k
  · rw [if_pos hpos] at hnone
    simpa [hpos] using hnone
  · rw [if_neg hpos] at hnone
    simpa [hpos] using hnone

/-- Every value that is held is a positive count. -/
theorem Tallies.pos (h : d.Tallies count) : ∀ e ∈ d.entries, 0 < e.2 := by
  rintro ⟨k, n⟩ hmem
  have hget : d.get? k = some n := get?_eq_some_iff.mpr hmem
  rw [h k] at hget
  split at hget
  · have hn := Option.some.inj hget
    show 0 < n
    omega
  · cases hget

theorem Tallies.bump (h : d.Tallies count) (k : κ) :
    (d.bump k).Tallies fun j => count j + if j = k then 1 else 0 := by
  intro j
  rw [Dict.bump, get?_set, h.getD]
  by_cases hj : j = k
  · subst hj
    simp
  · simp [hj, h j]

theorem Tallies.unbump (h : d.Tallies count) (k : κ) :
    (d.unbump k).Tallies fun j => count j - if j = k then 1 else 0 := by
  intro j
  rw [Dict.unbump, get?_alter]
  by_cases hj : j = k
  · subst hj
    simp only [if_true, h j]
    by_cases hmany : 1 < count j
    · have hle : ¬ ((count j : Int) - 1 ≤ 0) := by omega
      have hleft : 0 < count j - 1 := by omega
      have hpos : 0 < count j := by omega
      rw [if_pos hpos, if_pos hleft, Option.bind_some, if_neg hle]
      congr 1
      omega
    · have hleft : ¬ 0 < count j - 1 := by omega
      rw [if_neg hleft]
      split
      · have hle : (count j : Int) - 1 ≤ 0 := by omega
        rw [Option.bind_some, if_pos hle]
      · rfl
  · simp [hj, h j]

/-! ## 2. Loops over keys -/

theorem count_cons_eq (k j : κ) (ks : List κ) :
    (k :: ks).count j = (if j = k then 1 else 0) + ks.count j := by
  rw [List.count_cons, Nat.add_comm]
  by_cases hj : j = k
  · simp [hj]
  · have hj' : ¬ k = j := fun e => hj e.symm
    simp [hj, hj']

/-- Counting every element of a list. -/
theorem Tallies.bumpAll : ∀ (ks : List κ) {d : Dict κ Int} {count : κ → Nat}, d.Tallies count →
    (ks.foldl Dict.bump d).Tallies fun j => count j + ks.count j
  | [], _, _, h => h
  | k :: rest, _, _, h => by
      have ih := Tallies.bumpAll rest (h.bump k)
      refine ih.congr fun j => ?_
      rw [count_cons_eq, Nat.add_assoc]

/-- Taking every element of a list back. -/
theorem Tallies.unbumpAll : ∀ (ks : List κ) {d : Dict κ Int} {count : κ → Nat}, d.Tallies count →
    (ks.foldl Dict.unbump d).Tallies fun j => count j - ks.count j
  | [], _, _, h => h
  | k :: rest, _, _, h => by
      have ih := Tallies.unbumpAll rest (h.unbump k)
      refine ih.congr fun j => ?_
      rw [count_cons_eq, Nat.sub_sub]

/-- The tally of a list. -/
def tally (ks : List κ) : Dict κ Int := ks.foldl bump empty

theorem tally_tallies (ks : List κ) : (tally ks).Tallies ks.count := by
  have h : (tally ks).Tallies fun j => 0 + ks.count j := Tallies.bumpAll ks Tallies.empty
  exact h.congr fun j => Nat.zero_add _

/-- The keys of a tally are the elements of the list, once each. -/
theorem count_keys_tally (ks : List κ) (k : κ) :
    ((tally ks).entries.map Prod.fst).count k = if k ∈ ks then 1 else 0 := by
  rw [(tally ks).nodup.count]
  have hmem := (tally_tallies ks).mem_keys k
  rw [List.count_pos_iff] at hmem
  simp only [hmem]

end Dict

end MultiForge
