/-
MultiForge.Lib.Except — computations that end with a value.

What a sequence or a map over a list needs to end with a value: each of
its steps does.
-/
import Mathlib.Data.List.Forall2

namespace MultiForge

variable {α β ε : Type}

theorem bind_ok {x : Except ε α} {f : α → Except ε β} {b : β} :
    x >>= f = .ok b ↔ ∃ a, x = .ok a ∧ f a = .ok b := by
  cases x <;> simp [bind, Except.bind]

theorem exists_bind_ok {x : Except ε α} {f : α → Except ε β} :
    (∃ b, x >>= f = .ok b) ↔ ∃ a, x = .ok a ∧ ∃ b, f a = .ok b := by
  cases x <;> simp [bind, Except.bind]

/-- The results of a map are those of its elements, one by one. -/
theorem mapM_ok {f : α → Except ε β} {xs : List α} {ys : List β} (h : xs.mapM f = .ok ys) :
    List.Forall₂ (fun x y => f x = .ok y) xs ys := by
  induction xs generalizing ys with
  | nil =>
    cases h
    exact .nil
  | cons x xs ih =>
    rw [List.mapM_cons] at h
    obtain ⟨y, hy, h⟩ := bind_ok.mp h
    obtain ⟨rest, hrest, h⟩ := bind_ok.mp h
    cases h
    exact .cons hy (ih hrest)

/-- A map ends with a value exactly when it does on each element. -/
theorem exists_mapM_ok {f : α → Except ε β} {xs : List α} :
    (∃ ys, xs.mapM f = .ok ys) ↔ ∀ x ∈ xs, ∃ y, f x = .ok y := by
  induction xs with
  | nil => simp [pure, Except.pure]
  | cons x xs ih =>
    rw [List.mapM_cons, exists_bind_ok]
    constructor
    · intro h
      obtain ⟨y, hy, hrest⟩ := h
      obtain ⟨rest, hrest, -⟩ := exists_bind_ok.mp hrest
      intro z hz
      obtain rfl | hz := List.mem_cons.mp hz
      · exact ⟨y, hy⟩
      · exact ih.mp ⟨rest, hrest⟩ z hz
    · intro h
      obtain ⟨y, hy⟩ := h x List.mem_cons_self
      obtain ⟨rest, hrest⟩ := ih.mpr fun z hz => h z (List.mem_cons_of_mem x hz)
      exact ⟨y, hy, exists_bind_ok.mpr ⟨rest, hrest, _, rfl⟩⟩

/-- Every result of a map is that of an element. -/
theorem mem_of_mapM_ok {f : α → Except ε β} {xs : List α} {ys : List β} (h : xs.mapM f = .ok ys) :
    ∀ y ∈ ys, ∃ x ∈ xs, f x = .ok y := by
  have hall := mapM_ok h
  clear h
  induction hall with
  | nil => simp
  | cons hx _ ih =>
    intro y hy
    obtain rfl | hy := List.mem_cons.mp hy
    · exact ⟨_, List.mem_cons_self, hx⟩
    · obtain ⟨x, hmem, hfx⟩ := ih y hy
      exact ⟨x, List.mem_cons_of_mem _ hmem, hfx⟩

end MultiForge
