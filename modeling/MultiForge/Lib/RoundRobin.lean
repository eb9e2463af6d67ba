/-
MultiForge.Lib.RoundRobin — scanning a sorted list a few keys at a time.

A scan looks at the first keys after a cursor and goes on from the
beginning after the last (`window`). What it finds there may be finished
with, stay as it is, or stay with a smaller budget. If something stays as
it is, the cursor moves on; otherwise the next scan starts over.

Starting over costs budget, so no key is passed over for ever: `covered`
bounds how long it takes until a key is looked at.
-/
import Mathlib.Order.Lattice
import Mathlib.Data.List.Basic
import Mathlib.Data.List.Nodup
import Mathlib.Algebra.BigOperators.Group.List.Basic
import Mathlib.Algebra.GroupWithZero.Nat

namespace MultiForge.RoundRobin

variable {κ : Type} [LinearOrder κ]

/-! ## 1. Windows -/

/-- Strictly sorted. -/
def Sorted (keys : List κ) : Prop := keys.Pairwise (· < ·)

/-- `bisect_right(keys, cursor)` -/
def bisectRight (keys : List κ) (cursor : κ) : Nat := (keys.takeWhile (· ≤ cursor)).length

/-- The keys from the cursor on. -/
def ordered (keys : List κ) (cursor : Option κ) : List κ :=
  let start := match cursor with
    | some c => bisectRight keys c
    | none => 0
  keys.drop start ++ keys.take start

/-- The keys one scan looks at. -/
def window (k : Nat) (keys : List κ) (cursor : Option κ) : List κ :=
  (ordered keys cursor).take (min k keys.length)

theorem takeWhile_le {keys : List κ} (h : Sorted keys) (c : κ) :
    keys.takeWhile (· ≤ c) = keys.filter (· ≤ c) ∧ keys.dropWhile (· ≤ c) = keys.filter (c < ·) := by
  induction keys with
  | nil => exact ⟨rfl, rfl⟩
  | cons x keys ih =>
    unfold Sorted at h
    rw [List.pairwise_cons] at h
    by_cases hx : x ≤ c
    · have hlt : ¬ c < x := not_lt_of_ge hx
      rw [List.takeWhile_cons_of_pos (by simpa using hx), List.dropWhile_cons_of_pos (by simpa using hx),
        List.filter_cons_of_pos (by simpa using hx), List.filter_cons_of_neg (by simpa using hlt)]
      exact ⟨congrArg (x :: ·) (ih h.2).1, (ih h.2).2⟩
    · have hlt : c < x := lt_of_not_ge hx
      have hnone : keys.filter (· ≤ c) = [] := by
        rw [List.filter_eq_nil_iff]
        intro y hy hle
        exact hx (le_of_lt (lt_of_lt_of_le (h.1 y hy) (by simpa using hle)))
      have hall : keys.filter (c < ·) = keys := by
        rw [List.filter_eq_self]
        intro y hy
        simpa using lt_trans hlt (h.1 y hy)
      rw [List.takeWhile_cons_of_neg (by simpa using hx), List.dropWhile_cons_of_neg (by simpa using hx),
        List.filter_cons_of_neg (by simpa using hx), List.filter_cons_of_pos (by simpa using hlt),
        hnone, hall]
      exact ⟨rfl, rfl⟩

/-- The keys after the cursor come first, then those up to it. -/
theorem ordered_some {keys : List κ} (h : Sorted keys) (c : κ) :
    ordered keys (some c) = keys.filter (c < ·) ++ keys.filter (· ≤ c) := by
  have hsplit := keys.takeWhile_append_dropWhile (p := fun x => decide (x ≤ c))
  have hdrop : (keys.takeWhile (· ≤ c) ++ keys.dropWhile (· ≤ c)).drop
      (keys.takeWhile (· ≤ c)).length = keys.dropWhile (· ≤ c) := List.drop_left
  have htake : (keys.takeWhile (· ≤ c) ++ keys.dropWhile (· ≤ c)).take
      (keys.takeWhile (· ≤ c)).length = keys.takeWhile (· ≤ c) := List.take_left
  rw [hsplit] at hdrop htake
  rw [ordered, bisectRight]
  rw [hdrop, htake, (takeWhile_le h c).1, (takeWhile_le h c).2]

/-- The order is the list in two parts, the second first. -/
theorem ordered_split (keys : List κ) (cursor : Option κ) :
    ∃ front back, keys = front ++ back ∧ ordered keys cursor = back ++ front :=
  ⟨_, _, (List.take_append_drop _ _).symm, rfl⟩

theorem mem_ordered {keys : List κ} {cursor : Option κ} {x : κ} :
    x ∈ ordered keys cursor ↔ x ∈ keys := by
  obtain ⟨front, back, hkeys, hordered⟩ := ordered_split keys cursor
  rw [hkeys] at hordered ⊢
  rw [hordered, List.mem_append, List.mem_append, or_comm]

theorem length_ordered (keys : List κ) (cursor : Option κ) :
    (ordered keys cursor).length = keys.length := by
  obtain ⟨front, back, hkeys, hordered⟩ := ordered_split keys cursor
  rw [hordered, hkeys, List.length_append, List.length_append, Nat.add_comm]

theorem Sorted.nodup {keys : List κ} (h : Sorted keys) : keys.Nodup := h.imp ne_of_lt

theorem nodup_ordered {keys : List κ} (h : Sorted keys) (cursor : Option κ) :
    (ordered keys cursor).Nodup := by
  obtain ⟨front, back, hkeys, hordered⟩ := ordered_split keys cursor
  have hnodup := h.nodup
  rw [hkeys] at hnodup
  rw [hordered]
  exact (List.perm_append_comm.nodup_iff).mp hnodup

/-- With the cursor at the end of a beginning, that beginning comes last. -/
theorem ordered_getLast {front back : List κ} {c : κ} (h : Sorted (front ++ back))
    (hlast : front.getLast? = some c) : ordered (front ++ back) (some c) = back ++ front := by
  have hparts := List.pairwise_append.mp h
  have hc : c ∈ front := List.mem_of_getLast? hlast
  have hfront : ∀ x ∈ front, x ≤ c := by
    intro x hx
    obtain ⟨init, rfl⟩ := List.getLast?_eq_some_iff.mp hlast
    rcases List.mem_append.mp hx with hx | hx
    · exact le_of_lt ((List.pairwise_append.mp hparts.1).2.2 x hx c (List.mem_singleton_self c))
    · exact le_of_eq (List.mem_singleton.mp hx)
  have hback : ∀ x ∈ back, c < x := fun x hx => hparts.2.2 c hc x hx
  rw [ordered_some h, List.filter_append, List.filter_append,
    List.filter_eq_nil_iff.mpr fun x hx => by simpa using hfront x hx,
    List.filter_eq_self.mpr fun x hx => by simpa using hback x hx,
    List.filter_eq_self.mpr fun x hx => by simpa using hfront x hx,
    List.filter_eq_nil_iff.mpr fun x hx => by simpa using hback x hx,
    List.nil_append, List.append_nil]

/-- After a scan up to `c` the rest comes first. -/
theorem ordered_advance {keys seen rest : List κ} {cursor : Option κ} {c : κ} (h : Sorted keys)
    (hordered : ordered keys cursor = seen ++ rest) (hlast : seen.getLast? = some c) :
    ordered keys (some c) = rest ++ seen := by
  obtain ⟨front, back, rfl, hsplit⟩ := ordered_split keys cursor
  rw [hsplit] at hordered
  rcases List.append_eq_append_iff.mp hordered with ⟨mid, rfl, rfl⟩ | ⟨mid, rfl, rfl⟩
  · -- the scan went past the end of the list
    cases mid with
    | nil =>
      rw [List.append_nil] at hlast
      simp only [List.nil_append, List.append_nil] at h ⊢
      have hnext := @ordered_getLast _ _ (rest ++ back) [] c (by simpa using h) (by
        rw [List.getLast?_append_of_ne_nil _ (by rintro rfl; cases hlast)]
        exact hlast)
      simpa using hnext
    | cons x mid =>
      rw [List.getLast?_append_of_ne_nil _ (List.cons_ne_nil x mid)] at hlast
      rw [List.append_assoc] at h ⊢
      rw [ordered_getLast h hlast, List.append_assoc]
  · -- the scan stayed before it
    rw [← List.append_assoc] at h ⊢
    rw [ordered_getLast h (by
      rw [List.getLast?_append_of_ne_nil _ (by rintro rfl; cases hlast)]
      exact hlast), List.append_assoc]

theorem Sorted.filter {keys : List κ} (h : Sorted keys) (p : κ → Bool) : Sorted (keys.filter p) :=
  List.Pairwise.filter p h

theorem ordered_filter {keys : List κ} (h : Sorted keys) (p : κ → Bool) (c : κ) :
    ordered (keys.filter p) (some c) = (ordered keys (some c)).filter p := by
  rw [ordered_some h, ordered_some (h.filter p), List.filter_append, List.filter_filter,
    List.filter_filter, List.filter_filter, List.filter_filter]
  simp only [Bool.and_comm]

/-! ## 2. Scans -/

structure Scan (κ : Type) where
  keys : List κ
  cursor : Option κ
  budget : κ → Nat

namespace Scan

variable {k : Nat} {s s' : Scan κ}

def window (s : Scan κ) (k : Nat) : List κ := RoundRobin.window k s.keys s.cursor

/-- One scan: only what it looks at can go or change, and it starts over
only if all of that went or has less budget. -/
structure Step (k : Nat) (s s' : Scan κ) : Prop where
  keys : ∃ p : κ → Bool, s'.keys = s.keys.filter p ∧ ∀ x ∉ s.window k, p x = true
  budget : ∀ x ∈ s'.keys, s'.budget x ≤ s.budget x
  cursor : s.keys ≠ [] → s'.cursor = (s.window k).getLast? ∨
    s'.cursor = none ∧ ∀ x ∈ s.window k, x ∈ s'.keys → s'.budget x < s.budget x

/-- The budgets, each counted one more. -/
def weight (s : Scan κ) : Nat := (s.keys.map fun x => s.budget x + 1).sum

/-- How many keys come before. -/
def place (s : Scan κ) (x : κ) : Nat := (ordered s.keys s.cursor).idxOf x

omit [LinearOrder κ] in
theorem sum_filter_le {l : List κ} {p : κ → Bool} {f g : κ → Nat}
    (h : ∀ x ∈ l.filter p, g x ≤ f x) : ((l.filter p).map g).sum ≤ (l.map f).sum := by
  induction l with
  | nil => exact Nat.le_refl _
  | cons x l ih =>
    by_cases hp : p x = true
    · rw [List.filter_cons_of_pos hp] at h ⊢
      have hx := h x List.mem_cons_self
      have hl := ih fun y hy => h y (List.mem_cons_of_mem x hy)
      simp only [List.map_cons, List.sum_cons]
      omega
    · rw [List.filter_cons_of_neg hp] at h ⊢
      have hl := ih h
      simp only [List.map_cons, List.sum_cons]
      omega

omit [LinearOrder κ] in
theorem sum_filter_lt {l : List κ} {p : κ → Bool} {f g : κ → Nat}
    (h : ∀ x ∈ l.filter p, g x ≤ f x) {y : κ} (hy : y ∈ l) (hpos : 0 < f y)
    (hlt : p y = true → g y < f y) : ((l.filter p).map g).sum < (l.map f).sum := by
  induction l with
  | nil => cases hy
  | cons x l ih =>
    have htail : ∀ z ∈ l.filter p, g z ≤ f z := by
      intro z hz
      refine h z ?_
      rw [List.filter_cons]
      split
      · exact List.mem_cons_of_mem x hz
      · exact hz
    have hle := sum_filter_le htail
    rcases List.mem_cons.mp hy with rfl | hy
    · by_cases hp : p y = true
      · have hy := hlt hp
        rw [List.filter_cons_of_pos hp]
        simp only [List.map_cons, List.sum_cons]
        omega
      · rw [List.filter_cons_of_neg hp]
        simp only [List.map_cons, List.sum_cons]
        omega
    · have hl := ih htail hy
      by_cases hp : p x = true
      · have hx := h x (by rw [List.filter_cons_of_pos hp]; exact List.mem_cons_self)
        rw [List.filter_cons_of_pos hp]
        simp only [List.map_cons, List.sum_cons]
        omega
      · rw [List.filter_cons_of_neg hp]
        simp only [List.map_cons, List.sum_cons]
        omega

theorem mem_of_mem_window {x : κ} (h : x ∈ s.window k) : x ∈ s.keys :=
  mem_ordered.mp (List.mem_of_mem_take h)

theorem place_lt_length {x : κ} (h : x ∈ s.keys) : s.place x < s.keys.length := by
  rw [← length_ordered s.keys s.cursor]
  exact List.idxOf_lt_length_of_mem (mem_ordered.mpr h)

/-- What the scan did not look at is still there. -/
theorem Step.stays (h : Step k s s') {x : κ} (hx : x ∈ s.keys) (hnot : x ∉ s.window k) :
    x ∈ s'.keys := by
  obtain ⟨p, hkeys, hp⟩ := h.keys
  rw [hkeys, List.mem_filter]
  exact ⟨hx, hp x hnot⟩

theorem Step.sorted (h : Step k s s') (hs : Sorted s.keys) : Sorted s'.keys := by
  obtain ⟨p, hkeys, -⟩ := h.keys
  rw [hkeys]
  exact hs.filter p

theorem Step.length_le (h : Step k s s') : s'.keys.length ≤ s.keys.length := by
  obtain ⟨p, hkeys, -⟩ := h.keys
  rw [hkeys]
  exact List.length_filter_le p s.keys

theorem Step.weight_le (h : Step k s s') : s'.weight ≤ s.weight := by
  obtain ⟨p, hkeys, -⟩ := h.keys
  have hbudget := h.budget
  unfold weight
  rw [hkeys] at hbudget ⊢
  exact sum_filter_le fun x hx => Nat.succ_le_succ (hbudget x hx)

theorem window_ne_nil (hk : 0 < k) {x : κ} (hx : x ∈ s.keys) : s.window k ≠ [] := by
  intro hnil
  have hlen := congrArg List.length hnil
  have hpos := List.length_pos_of_mem hx
  rw [window, RoundRobin.window, List.length_take, length_ordered, List.length_nil] at hlen
  omega

/-- The cursor moved on: whatever was not looked at is nearer. -/
theorem Step.place_lt (h : Step k s s') (hs : Sorted s.keys) (hk : 0 < k)
    (hcursor : s'.cursor = (s.window k).getLast?) {x : κ} (hx : x ∈ s.keys)
    (hnot : x ∉ s.window k) : s'.place x < s.place x := by
  obtain ⟨p, hkeys, hp⟩ := h.keys
  obtain ⟨c, hlast⟩ := List.getLast?_isSome.mpr (window_ne_nil hk hx) |> Option.isSome_iff_exists.mp
  have hsplit : ordered s.keys s.cursor
      = s.window k ++ (ordered s.keys s.cursor).drop (min k s.keys.length) :=
    (List.take_append_drop _ _).symm
  generalize hrest : (ordered s.keys s.cursor).drop (min k s.keys.length) = rest at hsplit
  have hmem : x ∈ rest := by
    have hx' : x ∈ ordered s.keys s.cursor := mem_ordered.mpr hx
    rw [hsplit] at hx'
    exact (List.mem_append.mp hx').resolve_left hnot
  have hnodup := nodup_ordered hs s.cursor
  rw [hsplit] at hnodup
  have hdisjoint := (List.nodup_append.mp hnodup).2.2
  have hkept : rest.filter p = rest := by
    rw [List.filter_eq_self]
    intro y hy
    exact hp y fun hw => hdisjoint y hw y hy rfl
  have hnext : ordered s'.keys s'.cursor = rest ++ (s.window k).filter p := by
    rw [hcursor, hlast, hkeys, ordered_filter hs, ordered_advance hs hsplit hlast,
      List.filter_append, hkept]
  have hpos := List.length_pos_of_ne_nil (window_ne_nil hk hx)
  unfold place
  rw [hnext, hsplit, List.idxOf_append_of_mem hmem, List.idxOf_append_of_notMem hnot]
  omega

/-- Starting over costs budget. -/
theorem Step.weight_lt (h : Step k s s') (hk : 0 < k)
    (hless : ∀ x ∈ s.window k, x ∈ s'.keys → s'.budget x < s.budget x) {x : κ}
    (hx : x ∈ s.keys) : s'.weight < s.weight := by
  obtain ⟨p, hkeys, -⟩ := h.keys
  obtain ⟨y, hy⟩ := List.exists_mem_of_ne_nil _ (window_ne_nil hk hx)
  have hbudget := h.budget
  have hyless := hless y hy
  unfold weight
  rw [hkeys] at hbudget hyless ⊢
  refine sum_filter_lt (fun z hz => Nat.succ_le_succ (hbudget z hz)) (mem_of_mem_window hy)
    (Nat.succ_pos _) fun hp => ?_
  exact Nat.succ_lt_succ (hyless (List.mem_filter.mpr ⟨mem_of_mem_window hy, hp⟩))

/-- Each scan brings a key nearer that it does not look at. -/
theorem Step.nearer (h : Step k s s') (hs : Sorted s.keys) (hk : 0 < k) {n : Nat}
    (hn : s.keys.length ≤ n) {x : κ} (hx : x ∈ s.keys) (hnot : x ∉ s.window k) :
    s'.weight * n + s'.place x < s.weight * n + s.place x := by
  rcases h.cursor (List.ne_nil_of_mem hx) with hcursor | ⟨-, hless⟩
  · have hplace := h.place_lt hs hk hcursor hx hnot
    have hweight := Nat.mul_le_mul_right n h.weight_le
    omega
  · have hplace := place_lt_length (h.stays hx hnot)
    have hlen := h.length_le
    have hweight := Nat.mul_le_mul_right n (Nat.succ_le_of_lt (h.weight_lt hk hless hx))
    rw [Nat.succ_mul] at hweight
    omega

/-- **No key is passed over for ever.** Each key is looked at before the
scans outnumber what starting over can cost. -/
theorem covered (hk : 0 < k) {n : Nat} {x : κ} : ∀ (m : Nat) (run : Nat → Scan κ),
    (∀ i, Step k (run i) (run (i + 1))) → Sorted (run 0).keys → (run 0).keys.length ≤ n →
    x ∈ (run 0).keys → (run 0).weight * n + (run 0).place x < m →
    ∃ i < m, x ∈ (run i).window k
  | 0, _, _, _, _, _, hm => absurd hm (Nat.not_lt_zero _)
  | m + 1, run, hrun, hs, hn, hx, hm => by
      by_cases hnow : x ∈ (run 0).window k
      · exact ⟨0, Nat.succ_pos m, hnow⟩
      · have hnearer := (hrun 0).nearer hs hk hn hx hnow
        obtain ⟨i, hi, hmem⟩ := covered hk m (fun i => run (i + 1)) (fun i => hrun (i + 1))
          ((hrun 0).sorted hs) (Nat.le_trans (hrun 0).length_le hn) ((hrun 0).stays hx hnow)
          (by omega)
        exact ⟨i + 1, Nat.succ_lt_succ hi, hmem⟩

omit [LinearOrder κ] in
/-- Budgets of at most `b` weigh at most `b + 1` for each key. -/
theorem weight_le_mul {b : Nat} (h : ∀ x ∈ s.keys, s.budget x ≤ b) :
    s.weight ≤ s.keys.length * (b + 1) := by
  unfold weight
  generalize s.keys = l at h ⊢
  induction l with
  | nil => simp
  | cons x l ih =>
    have hx := h x List.mem_cons_self
    have hl := ih fun y hy => h y (List.mem_cons_of_mem x hy)
    simp only [List.map_cons, List.sum_cons, List.length_cons, Nat.succ_mul]
    omega

end Scan

end MultiForge.RoundRobin
