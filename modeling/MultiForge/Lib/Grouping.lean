/-
MultiForge.Lib.Grouping — elements of a list put into groups, one after another.

An element opens a group, goes to one that is there, or to none; where it
goes depends on the elements before it only. So the groups of a list grow
out of the groups of its beginning, and when the beginning has all of the
first groups and nothing of the others, they are its groups.
-/
import Mathlib.Data.List.Perm.Subperm
import Mathlib.Data.List.Nodup

namespace MultiForge.Grouping

universe u v

/-- Where an element goes. -/
inductive Place where
  | fresh
  | old (i : Nat)
  | nowhere

variable {σ : Type u} {α : Type v}

/-- What is remembered, and the groups so far. -/
structure State (σ : Type u) (α : Type v) where
  memory : σ
  groups : List (List α)

/-- One more element; `place` is told how many groups there are. -/
def step (place : σ → Nat → α → σ × Place) (s : State σ α) (x : α) : State σ α where
  memory := (place s.memory s.groups.length x).1
  groups :=
    match (place s.memory s.groups.length x).2 with
    | .fresh => s.groups ++ [[x]]
    | .old i => s.groups.modify i (· ++ [x])
    | .nowhere => s.groups

def run (place : σ → Nat → α → σ × Place) (s : State σ α) (xs : List α) : State σ α :=
  xs.foldl (step place) s

variable {place : σ → Nat → α → σ × Place} {s t : State σ α} {x : α} {xs ys : List α}

@[simp] theorem run_nil : run place s [] = s := rfl

@[simp] theorem run_cons : run place s (x :: xs) = run place (step place s x) xs := rfl

theorem run_append : run place s (xs ++ ys) = run place (run place s xs) ys := List.foldl_append

/-! ## 1. Groups grow -/

/-- The groups of `t` are those of `s`, longer by elements of `ys`, and others
    made of these. -/
def Grown (ys : List α) (s t : State σ α) : Prop :=
  s.groups.length ≤ t.groups.length ∧ ∀ (i : Nat) (g : List α), t.groups[i]? = some g →
    ∃ zs, g = s.groups[i]?.getD [] ++ zs ∧ ∀ z ∈ zs, z ∈ ys

theorem Grown.refl (ys : List α) (s : State σ α) : Grown ys s s :=
  ⟨Nat.le_refl _, fun i g hg => ⟨[], by rw [hg]; simp, fun _ hz => nomatch hz⟩⟩

theorem Grown.trans {u : State σ α} (h : Grown ys s t) (h' : Grown ys t u) : Grown ys s u := by
  refine ⟨Nat.le_trans h.1 h'.1, fun i g hg => ?_⟩
  obtain ⟨zs', hg', hzs'⟩ := h'.2 i g hg
  cases hmid : t.groups[i]? with
  | none =>
    have hstart : s.groups[i]? = none := by
      rw [List.getElem?_eq_none_iff] at hmid ⊢
      exact Nat.le_trans h.1 hmid
    rw [hmid] at hg'
    exact ⟨zs', by rw [hg', hstart], hzs'⟩
  | some m =>
    obtain ⟨zs, hm, hzs⟩ := h.2 i m hmid
    rw [hmid, Option.getD_some, hm, List.append_assoc] at hg'
    refine ⟨zs ++ zs', hg', fun z hz => ?_⟩
    exact (List.mem_append.mp hz).elim (hzs z) (hzs' z)

theorem grown_step (hx : x ∈ ys) : Grown ys s (step place s x) := by
  unfold step Grown
  dsimp only
  cases (place s.memory s.groups.length x).2 with
  | nowhere => exact Grown.refl ys s
  | fresh =>
    refine ⟨by simp, fun i g hg => ?_⟩
    rw [List.getElem?_append] at hg
    split at hg
    · exact ⟨[], by rw [hg]; simp, fun _ hz => nomatch hz⟩
    · rename_i hlen
      have hnone : s.groups[i]? = none := List.getElem?_eq_none (Nat.not_lt.mp hlen)
      obtain rfl : [x] = g := by
        cases hi : i - s.groups.length with
        | zero =>
          rw [hi] at hg
          exact Option.some.inj hg
        | succ n =>
          rw [hi] at hg
          cases hg
      refine ⟨[x], by rw [hnone]; rfl, fun z hz => ?_⟩
      rw [List.mem_singleton.mp hz]
      exact hx
  | old j =>
    refine ⟨by simp, fun i g hg => ?_⟩
    dsimp only at hg
    rw [List.getElem?_modify] at hg
    cases hold : s.groups[i]? with
    | none =>
      rw [hold] at hg
      cases hg
    | some m =>
      rw [hold] at hg
      have hgm : (if j = i then m ++ [x] else m) = g := Option.some.inj hg
      split at hgm
      · refine ⟨[x], hgm.symm, fun z hz => ?_⟩
        rw [List.mem_singleton.mp hz]
        exact hx
      · exact ⟨[], by simp [hgm], fun _ hz => nomatch hz⟩

theorem grown_run : Grown ys s (run place s ys) := by
  have hall : ∀ zs : List α, (∀ z ∈ zs, z ∈ ys) → ∀ s : State σ α, Grown ys s (run place s zs) := by
    intro zs
    induction zs with
    | nil => exact fun _ s => Grown.refl ys s
    | cons z rest ih =>
      intro hmem s
      exact (grown_step (hmem z (List.mem_cons_self ..))).trans
        (ih (fun w hw => hmem w (List.mem_cons_of_mem _ hw)) _)
  exact hall ys (fun _ hz => hz) s

/-! ## 2. No group is empty, and no element is twice in them -/

theorem flatten_modify_subperm (gs : List (List α)) (i : Nat) (x : α) :
    (gs.modify i (· ++ [x])).flatten.Subperm (x :: gs.flatten) := by
  induction gs generalizing i with
  | nil => cases i <;> simp
  | cons g rest ih =>
    cases i with
    | zero =>
      have hperm : ((g ++ [x]) ++ rest.flatten).Perm (x :: (g ++ rest.flatten)) := by
        rw [List.append_assoc]
        exact List.perm_middle
      simpa using hperm.subperm
    | succ i =>
      have hrest : (g ++ (rest.modify i (· ++ [x])).flatten).Subperm (g ++ x :: rest.flatten) :=
        (List.subperm_append_left g).mpr (ih i)
      have hperm : (g ++ x :: rest.flatten).Perm (x :: (g ++ rest.flatten)) := List.perm_middle
      simpa using hrest.trans hperm.subperm

theorem flatten_step_subperm : (step place s x).groups.flatten.Subperm (x :: s.groups.flatten) := by
  unfold step
  dsimp only
  cases (place s.memory s.groups.length x).2 with
  | fresh =>
    rw [List.flatten_append]
    exact List.perm_append_singleton x _ |>.subperm
  | old i => exact flatten_modify_subperm _ i x
  | nowhere => exact (List.sublist_cons_self x _).subperm

/-- The groups hold nothing but what was put into them. -/
theorem flatten_run_subperm (place : σ → Nat → α → σ × Place) (s : State σ α) (xs : List α) :
    (run place s xs).groups.flatten.Subperm (xs ++ s.groups.flatten) := by
  induction xs generalizing s with
  | nil => exact List.Subperm.refl _
  | cons x rest ih =>
    have hstep : (rest ++ (step place s x).groups.flatten).Subperm (rest ++ x :: s.groups.flatten) :=
      (List.subperm_append_left rest).mpr flatten_step_subperm
    exact (ih (step place s x)).trans (hstep.trans List.perm_middle.subperm)

theorem ne_nil_step (h : ∀ g ∈ s.groups, g ≠ []) : ∀ g ∈ (step place s x).groups, g ≠ [] := by
  unfold step
  dsimp only
  cases (place s.memory s.groups.length x).2 with
  | nowhere => exact h
  | fresh =>
    intro g hg
    rcases List.mem_append.mp hg with hold | hnew
    · exact h g hold
    · rw [List.mem_singleton.mp hnew]
      exact List.cons_ne_nil _ _
  | old j =>
    intro g hg
    obtain ⟨i, hi⟩ := List.getElem?_of_mem hg
    dsimp only at hi
    rw [List.getElem?_modify] at hi
    obtain ⟨m, hm, hgm⟩ := Option.map_eq_some_iff.mp hi
    split at hgm
    · rw [← hgm]
      simp
    · rw [← hgm]
      exact h m (List.mem_of_getElem? hm)

theorem ne_nil_run (h : ∀ g ∈ s.groups, g ≠ []) : ∀ g ∈ (run place s xs).groups, g ≠ [] := by
  induction xs generalizing s with
  | nil => exact h
  | cons x rest ih => exact ih (ne_nil_step h)

/-! ## 3. The groups of a beginning -/

/-- Where the groups of a list begin. -/
def start (memory : σ) : State σ α := ⟨memory, []⟩

theorem nodup_groups (place : σ → Nat → α → σ × Place) (memory : σ) (h : xs.Nodup) :
    (run place (start memory) xs).groups.flatten.Nodup := by
  have hsub := flatten_run_subperm place (start memory) xs
  rw [show (start memory : State σ α).groups.flatten = [] from rfl, List.append_nil] at hsub
  obtain ⟨zs, hperm, hsublist⟩ := hsub
  exact hperm.nodup_iff.mp (h.sublist hsublist)

theorem mem_of_mem_groups {memory : σ} {g : List α}
    (hg : g ∈ (run place (start memory) xs).groups) (hx : x ∈ g) : x ∈ xs := by
  have hsub := flatten_run_subperm place (start memory) xs
  rw [show (start memory : State σ α).groups.flatten = [] from rfl, List.append_nil] at hsub
  exact hsub.subset (List.mem_flatten.mpr ⟨g, hg, hx⟩)

/-- A beginning that has all of the first groups, and of the groups only
    these. -/
theorem groups_of_beginning {memory : σ} {k : Nat} (hnodup : (xs ++ ys).Nodup)
    (hk : k ≤ (run place (start memory) (xs ++ ys)).groups.length)
    (hfirst : ∀ x ∈ ((run place (start memory) (xs ++ ys)).groups.take k).flatten, x ∈ xs)
    (hrest : ∀ x ∈ xs, x ∈ (run place (start memory) (xs ++ ys)).groups.flatten →
      x ∈ ((run place (start memory) (xs ++ ys)).groups.take k).flatten) :
    (run place (start memory) xs).groups =
      (run place (start memory) (xs ++ ys)).groups.take k := by
  have hgrown : Grown ys (run place (start memory) xs) (run place (start memory) (xs ++ ys)) := by
    rw [run_append]
    exact grown_run
  have hnonempty : ∀ g ∈ (run place (start memory) (xs ++ ys)).groups, g ≠ [] :=
    ne_nil_run fun g hg => nomatch hg
  have hflat := nodup_groups place memory hnodup
  have hsame : ∀ i < k, (run place (start memory) xs).groups[i]? =
      (run place (start memory) (xs ++ ys)).groups[i]? := by
    intro i hi
    obtain ⟨g, hg⟩ : ∃ g, (run place (start memory) (xs ++ ys)).groups[i]? = some g :=
      ⟨_, List.getElem?_eq_getElem (Nat.lt_of_lt_of_le hi hk)⟩
    obtain ⟨zs, hgrow, hzs⟩ := hgrown.2 i g hg
    have htake : g ∈ (run place (start memory) (xs ++ ys)).groups.take k := by
      refine List.mem_of_getElem? (i := i) ?_
      rw [List.getElem?_take, if_pos hi, hg]
    obtain rfl : zs = [] := by
      refine List.eq_nil_iff_forall_not_mem.mpr fun z hz => ?_
      have hxs := hfirst z (List.mem_flatten.mpr ⟨g, htake, hgrow ▸ List.mem_append_right _ hz⟩)
      exact (List.nodup_append.mp hnodup).2.2 z hxs z (hzs z hz) rfl
    rw [List.append_nil] at hgrow
    rw [hg]
    cases hbefore : (run place (start memory) xs).groups[i]? with
    | none =>
      rw [hbefore] at hgrow
      exact absurd hgrow (hnonempty g (List.mem_of_getElem? hg))
    | some h =>
      rw [hbefore] at hgrow
      rw [hgrow]
      rfl
  have hlength : (run place (start memory) xs).groups.length ≤ k := by
    by_contra hlt
    rw [Nat.not_le] at hlt
    obtain ⟨h, hh⟩ : ∃ h, (run place (start memory) xs).groups[k]? = some h :=
      ⟨_, List.getElem?_eq_getElem hlt⟩
    have hbegun : ∀ g ∈ (run place (start memory) xs).groups, g ≠ [] :=
      ne_nil_run fun g hg => nomatch hg
    obtain ⟨x, hx⟩ : ∃ x, x ∈ h :=
      List.exists_mem_of_ne_nil _ (hbegun h (List.mem_of_getElem? hh))
    obtain ⟨g, hg⟩ : ∃ g, (run place (start memory) (xs ++ ys)).groups[k]? = some g :=
      ⟨_, List.getElem?_eq_getElem (Nat.lt_of_lt_of_le hlt hgrown.1)⟩
    obtain ⟨zs, hgrow, -⟩ := hgrown.2 k g hg
    have hxg : x ∈ g := by
      rw [hgrow, hh]
      exact List.mem_append_left _ hx
    have hdrop : x ∈ ((run place (start memory) (xs ++ ys)).groups.drop k).flatten := by
      refine List.mem_flatten.mpr ⟨g, List.mem_of_getElem? (i := 0) ?_, hxg⟩
      rw [List.getElem?_drop, Nat.add_zero, hg]
    have htake := hrest x (mem_of_mem_groups (List.mem_of_getElem? hh) hx)
      (List.mem_flatten.mpr ⟨g, List.mem_of_getElem? hg, hxg⟩)
    rw [← List.take_append_drop k (run place (start memory) (xs ++ ys)).groups,
      List.flatten_append] at hflat
    exact (List.nodup_append.mp hflat).2.2 x htake x hdrop rfl
  refine List.ext_getElem? fun i => ?_
  rw [List.getElem?_take]
  split
  · rename_i hi
    exact hsame i hi
  · rename_i hi
    exact List.getElem?_eq_none (Nat.le_trans hlength (Nat.not_lt.mp hi))

end MultiForge.Grouping
