/-
MultiForge.Lib.Window — a time window kept as a queue.

Entries carry a time. A window is meant to hold the entries that are not
older than a cutoff; a queue gets there by dropping entries from its head
until it meets one that is not. The two agree for every cutoff exactly
when the entries are in order.
-/
import Mathlib.Data.List.Basic
import Mathlib.Order.Lattice

namespace MultiForge.Window

variable {α β : Type} [LinearOrder α]

/-- Drop the entries older than a cutoff from the head. -/
def prune (c : α) (w : List (α × β)) : List (α × β) := w.dropWhile fun e => e.1 < c

/-- The entries that are not older than a cutoff. -/
def recent (c : α) (w : List (α × β)) : List (α × β) := w.filter fun e => c ≤ e.1

/-- The entries are in the order of their times. -/
def Ordered (w : List (α × β)) : Prop := w.Pairwise fun a b => a.1 ≤ b.1

theorem prune_cons_of_lt {c : α} {e : α × β} (h : e.1 < c) (w : List (α × β)) :
    prune c (e :: w) = prune c w := by
  simp [prune, h]

theorem prune_cons_of_le {c : α} {e : α × β} (h : c ≤ e.1) (w : List (α × β)) :
    prune c (e :: w) = e :: w := by
  simp [prune, h]

theorem recent_eq_self {c : α} {w : List (α × β)} : recent c w = w ↔ ∀ e ∈ w, c ≤ e.1 := by
  simp [recent, List.filter_eq_self]

theorem recent_append (c : α) (w v : List (α × β)) :
    recent c (w ++ v) = recent c w ++ recent c v :=
  List.filter_append ..

/-- A later cutoff forgets an earlier one. -/
theorem recent_recent {c d : α} (h : c ≤ d) (w : List (α × β)) :
    recent d (recent c w) = recent d w := by
  rw [recent, recent, List.filter_filter]
  refine List.filter_congr fun e _ => ?_
  by_cases hd : d ≤ e.1
  · simp [hd, h.trans hd]
  · simp [hd]

/-- On an ordered queue dropping from the head is exact. -/
theorem Ordered.prune_eq_recent (c : α) : ∀ {w : List (α × β)}, Ordered w →
    prune c w = recent c w
  | [], _ => rfl
  | e :: w, h => by
      obtain ⟨hhead, htail⟩ := List.pairwise_cons.mp h
      rcases lt_or_ge e.1 c with hlt | hge
      · have hdrop : recent c (e :: w) = recent c w := by simp [recent, hlt]
        rw [prune_cons_of_lt hlt, hdrop]
        exact Ordered.prune_eq_recent c htail
      · rw [prune_cons_of_le hge]
        refine (recent_eq_self.mpr fun e' he' => ?_).symm
        rcases List.mem_cons.mp he' with rfl | he'
        · exact hge
        · exact hge.trans (hhead e' he')

/-- A queue on which dropping from the head is exact, at the times of its
entries, is ordered. -/
theorem ordered_of_prune_eq_recent : ∀ {w : List (α × β)},
    (∀ e ∈ w, prune e.1 w = recent e.1 w) → Ordered w
  | [], _ => .nil
  | e :: w, h => by
      have hhead : ∀ e' ∈ w, e.1 ≤ e'.1 := by
        have := h e List.mem_cons_self
        rw [prune_cons_of_le le_rfl, eq_comm, recent_eq_self] at this
        exact fun e' he' => this e' (List.mem_cons_of_mem _ he')
      refine List.pairwise_cons.mpr ⟨hhead, ordered_of_prune_eq_recent fun d hd => ?_⟩
      rcases lt_or_ge e.1 d.1 with hlt | hge
      · -- the head is dropped on both sides
        have := h d (List.mem_cons_of_mem _ hd)
        rw [prune_cons_of_lt hlt] at this
        simpa [recent, hlt] using this
      · -- nothing is dropped: every entry is as late as the head
        have hall : ∀ e' ∈ w, d.1 ≤ e'.1 := fun e' he' => hge.trans (hhead e' he')
        rw [recent_eq_self.mpr hall]
        cases w with
        | nil => rfl
        | cons f w => exact prune_cons_of_le (hall f List.mem_cons_self) w

theorem Ordered.recent {w : List (α × β)} (h : Ordered w) (c : α) : Ordered (recent c w) :=
  h.sublist List.filter_sublist

/-- An entry as late as all the others goes to the end. -/
theorem Ordered.snoc {w : List (α × β)} (h : Ordered w) {e : α × β} (hlast : ∀ d ∈ w, d.1 ≤ e.1) :
    Ordered (w ++ [e]) := by
  refine List.pairwise_append.mpr ⟨h, List.pairwise_singleton _ _, fun d hd e' he' => ?_⟩
  rw [List.mem_singleton.mp he']
  exact hlast d hd

/-- Pruning again at the same cutoff changes nothing. -/
theorem prune_prune (c : α) (w : List (α × β)) : prune c (prune c w) = prune c w := by
  induction w with
  | nil => rfl
  | cons e w ih =>
    rcases lt_or_ge e.1 c with hlt | hge
    · rw [prune_cons_of_lt hlt, ih]
    · rw [prune_cons_of_le hge, prune_cons_of_le hge]


end MultiForge.Window
