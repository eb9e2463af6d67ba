/-
MultiForge.Lib.StableSort — a list in the stable order of its keys.

`StablySorted key xs ys`: `ys` has the elements of `xs` in the order of
their keys, and elements with one key in the order they had. `sortOn`
does this, as Python's `sorted` does, and no other list is one
(`StablySorted.unique`).
-/
import Mathlib.Order.Lattice

namespace MultiForge

variable {α κ : Type} [LinearOrder κ] {key : α → κ} {xs ys zs : List α}

structure StablySorted (key : α → κ) (xs ys : List α) : Prop where
  sorted : ys.Pairwise fun a b => key a ≤ key b
  /-- the elements with one key -/
  stable : ∀ k, ys.filter (key · = k) = xs.filter (key · = k)

/-- `sorted(xs, key=key)` -/
def sortOn (key : α → κ) (xs : List α) : List α := xs.mergeSort fun a b => key a ≤ key b

theorem key_trans (key : α → κ) (a b c : α) (hab : decide (key a ≤ key b) = true)
    (hbc : decide (key b ≤ key c) = true) : decide (key a ≤ key c) = true := by
  simp only [decide_eq_true_eq] at hab hbc ⊢
  exact le_trans hab hbc

theorem key_total (key : α → κ) (a b : α) :
    (decide (key a ≤ key b) || decide (key b ≤ key a)) = true := by
  simp only [Bool.or_eq_true, decide_eq_true_eq]
  exact le_total (key a) (key b)

theorem sortOn_perm (key : α → κ) (xs : List α) : (sortOn key xs).Perm xs :=
  List.mergeSort_perm xs _

/-- Sorting by the first component of pairs that hold their key. -/
theorem sortOn_keyed (key : α → κ) (xs : List α) :
    (sortOn Prod.fst (xs.map fun x => (key x, x))).map Prod.snd = sortOn key xs := by
  have hmap : (sortOn key xs).map (fun x => (key x, x))
      = sortOn Prod.fst (xs.map fun x => (key x, x)) :=
    List.map_mergeSort fun _ _ _ _ => rfl
  rw [← hmap, List.map_map]
  exact List.map_id _

/-- Elements with one key are in order. -/
theorem pairwise_filter_key (k : κ) : ∀ xs : List α,
    (xs.filter (key · = k)).Pairwise fun a b => decide (key a ≤ key b) = true
  | [] => .nil
  | x :: xs => by
      have ih := pairwise_filter_key k xs
      by_cases hx : key x = k
      · rw [List.filter_cons_of_pos (by simpa using hx)]
        refine .cons (fun y hy => ?_) ih
        have hkey : key y = k := by simpa using (List.mem_filter.mp hy).2
        simp [hx, hkey]
      · rwa [List.filter_cons_of_neg (by simpa using hx)]

theorem sortOn_stablySorted (key : α → κ) (xs : List α) : StablySorted key xs (sortOn key xs) where
  sorted := by
    have hsorted := List.pairwise_mergeSort (key_trans key) (key_total key) xs
    exact hsorted.imp fun hle => by simpa using hle
  stable := by
    intro k
    have hsub : (xs.filter (key · = k)).Sublist (sortOn key xs) :=
      List.sublist_mergeSort (key_trans key) (key_total key) (pairwise_filter_key k xs)
        List.filter_sublist
    have hfilter := hsub.filter (key · = k)
    rw [List.filter_filter] at hfilter
    simp only [Bool.and_self] at hfilter
    exact (hfilter.eq_of_length ((sortOn_perm key xs).filter _).length_eq.symm).symm

theorem StablySorted.mem_iff (h : StablySorted key xs ys) (x : α) : x ∈ ys ↔ x ∈ xs := by
  have hself : ∀ {zs : List α}, x ∈ zs.filter (key · = key x) ↔ x ∈ zs := by simp
  rw [← hself, h.stable (key x), hself]

/-- The first key of a sorted list is its least. -/
theorem StablySorted.head_le {y : α} (h : StablySorted key xs (y :: ys)) {x : α} (hx : x ∈ xs) :
    key y ≤ key x := by
  rcases List.mem_cons.mp ((h.mem_iff x).mpr hx) with rfl | hrest
  · exact le_refl _
  · exact (List.pairwise_cons.mp h.sorted).1 x hrest

/-- There is one such list. -/
theorem StablySorted.unique : ∀ {xs ys zs : List α}, StablySorted key xs ys →
    StablySorted key xs zs → ys = zs
  | _, [], [], _, _ => rfl
  | _, [], z :: zs, hy, hz => by
      have hmem := (hy.mem_iff z).mpr ((hz.mem_iff z).mp List.mem_cons_self)
      cases hmem
  | _, y :: ys, [], hy, hz => by
      have hmem := (hz.mem_iff y).mpr ((hy.mem_iff y).mp List.mem_cons_self)
      cases hmem
  | xs, y :: ys, z :: zs, hy, hz => by
      have hkey : key y = key z := le_antisymm
        (hy.head_le ((hz.mem_iff z).mp List.mem_cons_self))
        (hz.head_le ((hy.mem_iff y).mp List.mem_cons_self))
      have hboth := fun k => (hy.stable k).trans (hz.stable k).symm
      have hhead := hboth (key y)
      rw [List.filter_cons_of_pos (by simp), List.filter_cons_of_pos (by simp [hkey])] at hhead
      obtain ⟨rfl, -⟩ := List.cons.inj hhead
      -- each tail is in the order of the keys of the first tail
      have htail : StablySorted key ys zs := by
        refine ⟨(List.pairwise_cons.mp hz.sorted).2, fun k => ?_⟩
        have hk := hboth k
        by_cases hyk : key y = k
        · rw [List.filter_cons_of_pos (by simpa using hyk),
            List.filter_cons_of_pos (by simpa using hyk)] at hk
          exact (List.cons.inj hk).2.symm
        · rw [List.filter_cons_of_neg (by simpa using hyk),
            List.filter_cons_of_neg (by simpa using hyk)] at hk
          exact hk.symm
      have hself : StablySorted key ys ys :=
        ⟨(List.pairwise_cons.mp hy.sorted).2, fun _ => rfl⟩
      rw [StablySorted.unique hself htail]

end MultiForge
