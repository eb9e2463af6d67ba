/-
MultiForge.Lib.KeyedUnion — adding what is missing to a list, and taking
it away again.

Elements are compared by an identity `id`. `fresh` is what a list adds to
another one: the elements whose identity is not there yet, each once.
`Grown id base cur ids` says that `cur` is `base` and elements that were
added to it, whose identities are `ids`. Adding keeps it, and taking away
`ids` gives `base` back.
-/
import Mathlib.Data.List.Basic

namespace MultiForge.KeyedUnion

set_option linter.unusedSectionVars false

variable {α κ : Type} [DecidableEq κ]

/-- The elements of a list whose identity has not been seen, each once. -/
def fresh (id : α → κ) : List κ → List α → List α
  | _, [] => []
  | seen, x :: xs =>
      if id x ∈ seen then fresh id seen xs else x :: fresh id (id x :: seen) xs

/-- The elements whose identity is not one of `ids`. -/
def without (id : α → κ) (ids : List κ) (l : List α) : List α := l.filter fun x => id x ∉ ids

theorem fresh_not_seen (id : α → κ) : ∀ (seen : List κ) (xs : List α),
    ∀ x ∈ fresh id seen xs, id x ∉ seen
  | _, [] => by simp [fresh]
  | seen, y :: ys => by
      intro x hx
      unfold fresh at hx
      split at hx
      · exact fresh_not_seen id seen ys x hx
      · rename_i hy
        rcases List.mem_cons.mp hx with rfl | hx
        · exact hy
        · exact fun h => fresh_not_seen id _ ys x hx (List.mem_cons_of_mem _ h)

/-- `cur` is `base` with elements of the identities `ids` added to it. -/
structure Grown (id : α → κ) (base cur : List α) (ids : List κ) : Prop where
  added : ∃ xs, cur = base ++ xs ∧ (∀ x ∈ xs, id x ∉ base.map id) ∧ ∀ c, c ∈ ids ↔ c ∈ xs.map id

theorem Grown.refl (id : α → κ) (base : List α) : Grown id base base [] :=
  ⟨[], by simp⟩

/-- Only the identities matter, not how they are listed. -/
theorem Grown.congr {id : α → κ} {base cur : List α} {ids ids' : List κ}
    (h : Grown id base cur ids) (heq : ∀ c, c ∈ ids' ↔ c ∈ ids) : Grown id base cur ids' := by
  obtain ⟨xs, hcur, hnew, hids⟩ := h.added
  exact ⟨xs, hcur, hnew, fun c => (heq c).trans (hids c)⟩

/-- Adding what is missing keeps the relation. -/
theorem Grown.union {id : α → κ} {base cur : List α} {ids : List κ} (h : Grown id base cur ids)
    (ys : List α) :
    Grown id base (cur ++ fresh id (cur.map id) ys)
      ((fresh id (cur.map id) ys).map id ++ ids) := by
  obtain ⟨xs, rfl, hnew, hids⟩ := h.added
  refine ⟨xs ++ fresh id ((base ++ xs).map id) ys, by simp, ?_, ?_⟩
  · intro x hx
    rcases List.mem_append.mp hx with hx | hx
    · exact hnew x hx
    · intro hbase
      refine fresh_not_seen id _ ys x hx ?_
      rw [List.map_append]
      exact List.mem_append_left _ hbase
  · intro c
    rw [List.mem_append, hids c, or_comm, ← List.mem_append, ← List.map_append]

/-- **Taking away what was added gives the base back.** -/
theorem Grown.without_eq {id : α → κ} {base cur : List α} {ids : List κ}
    (h : Grown id base cur ids) : without id ids cur = base := by
  obtain ⟨xs, rfl, hnew, hids⟩ := h.added
  have hbase : base.filter (fun x => decide (id x ∉ ids)) = base := by
    refine List.filter_eq_self.mpr fun x hx => ?_
    have : id x ∉ ids := by
      intro hmem
      obtain ⟨y, hy, hyx⟩ := List.mem_map.mp ((hids _).mp hmem)
      exact hnew y hy (hyx ▸ List.mem_map.mpr ⟨x, hx, rfl⟩)
    simpa using this
  have hxs : xs.filter (fun x => decide (id x ∉ ids)) = [] := by
    refine List.filter_eq_nil_iff.mpr fun x hx => ?_
    have : id x ∈ ids := (hids _).mpr (List.mem_map.mpr ⟨x, hx, rfl⟩)
    simpa using this
  rw [without, List.filter_append, hbase, hxs, List.append_nil]

/-- With no identities tracked there is only the base. -/
theorem Grown.eq_base {id : α → κ} {base cur : List α} (h : Grown id base cur []) :
    cur = base := by
  have := h.without_eq
  simpa [without] using this

end MultiForge.KeyedUnion
