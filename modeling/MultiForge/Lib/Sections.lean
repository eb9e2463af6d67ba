/-
MultiForge.Lib.Sections — a list cut before its headers.

A file of several parts is often written as one list of lines, where a
line of a certain form begins each part. `sections` cuts such a list before
every header, and `preface` is what stands before the first one. Together
they are the list (`preface_append_sections`), and parts that were written
one after the other are found again (`sections_flatMap`).
-/
import Mathlib.Data.List.TakeWhile

namespace MultiForge.Sections

variable {α β : Type} (header? : α → Option β)

/-! ## 1. Cutting -/

/-- The elements before the first header. -/
def preface (xs : List α) : List α := xs.takeWhile fun x => (header? x).isNone

/-- What each header says, with the header and all up to the next one. -/
def sections : List α → List (β × List α)
  | [] => []
  | x :: xs => match header? x with
    | some b => (b, x :: preface header? xs) :: sections xs
    | none => sections xs

variable {header?}

theorem preface_cons_none {x : α} (h : header? x = none) (xs : List α) :
    preface header? (x :: xs) = x :: preface header? xs := by
  simp [preface, h]

theorem preface_cons_some {x : α} {b : β} (h : header? x = some b) (xs : List α) :
    preface header? (x :: xs) = [] := by
  simp [preface, h]

theorem sections_cons_none {x : α} (h : header? x = none) (xs : List α) :
    sections header? (x :: xs) = sections header? xs := by
  simp [sections, h]

theorem sections_cons_some {x : α} {b : β} (h : header? x = some b) (xs : List α) :
    sections header? (x :: xs) = (b, x :: preface header? xs) :: sections header? xs := by
  simp [sections, h]

/-- Nothing is lost. -/
theorem preface_append_sections (xs : List α) :
    preface header? xs ++ (sections header? xs).flatMap (·.2) = xs := by
  induction xs with
  | nil => rfl
  | cons x xs ih =>
    cases h : header? x with
    | none => rw [preface_cons_none h, sections_cons_none h, List.cons_append, ih]
    | some b =>
      rw [preface_cons_some h, sections_cons_some h, List.flatMap_cons, List.nil_append,
        List.cons_append, ih]

/-- No header stands before the first one. -/
theorem header_of_mem_preface {x : α} {xs : List α} (h : x ∈ preface header? xs) :
    header? x = none := by
  simpa using List.mem_takeWhile_imp h

/-- A section is its header and what is no header. -/
theorem mem_sections {xs : List α} {part : β × List α} (h : part ∈ sections header? xs) :
    ∃ x rest, part.2 = x :: rest ∧ header? x = some part.1 ∧ ∀ y ∈ rest, header? y = none := by
  induction xs with
  | nil => cases h
  | cons x xs ih =>
    cases hx : header? x with
    | none =>
      rw [sections_cons_none hx] at h
      exact ih h
    | some b =>
      rw [sections_cons_some hx] at h
      rcases List.mem_cons.mp h with rfl | h
      · exact ⟨x, _, rfl, hx, fun y hy => header_of_mem_preface hy⟩
      · exact ih h

theorem sections_eq_nil_iff {xs : List α} :
    sections header? xs = [] ↔ ∀ x ∈ xs, header? x = none := by
  induction xs with
  | nil => simp [sections]
  | cons x xs ih =>
    cases h : header? x with
    | none => simp [sections_cons_none h, ih, h]
    | some b => simp [sections_cons_some h, h]

/-! ## 2. Parts that were written one after the other -/

/-- A list that is empty or begins with a header. -/
def Heads (header? : α → Option β) (xs : List α) : Prop := preface header? xs = []

theorem Heads.preface_append {ys : List α} (h : Heads header? ys) (xs : List α) :
    preface header? (xs ++ ys) = preface header? xs := by
  induction xs with
  | nil => exact h
  | cons x xs ih =>
    cases hx : header? x with
    | none => rw [List.cons_append, preface_cons_none hx, preface_cons_none hx, ih]
    | some b => rw [List.cons_append, preface_cons_some hx, preface_cons_some hx]

/-- What begins with a header is cut by itself. -/
theorem Heads.sections_append {ys : List α} (h : Heads header? ys) (xs : List α) :
    sections header? (xs ++ ys) = sections header? xs ++ sections header? ys := by
  induction xs with
  | nil => rfl
  | cons x xs ih =>
    cases hx : header? x with
    | none => rw [List.cons_append, sections_cons_none hx, sections_cons_none hx, ih]
    | some b =>
      rw [List.cons_append, sections_cons_some hx, sections_cons_some hx, h.preface_append, ih,
        List.cons_append]

theorem preface_of_none {xs : List α} (h : ∀ x ∈ xs, header? x = none) :
    preface header? xs = xs := by
  induction xs with
  | nil => rfl
  | cons x xs ih =>
    rw [preface_cons_none (h x List.mem_cons_self), ih fun y hy => h y (List.mem_cons_of_mem x hy)]

/-- One part is one section. -/
theorem sections_part {x : α} {b : β} {rest : List α} (hx : header? x = some b)
    (hrest : ∀ y ∈ rest, header? y = none) : sections header? (x :: rest) = [(b, x :: rest)] := by
  rw [sections_cons_some hx, preface_of_none hrest, sections_eq_nil_iff.mpr hrest]

/-- A part as it is written. -/
structure Part (header? : α → Option β) where
  head : α
  value : β
  rest : List α
  heads : header? head = some value
  plain : ∀ y ∈ rest, header? y = none

/-- The elements of a part. -/
def Part.elements (part : Part header?) : List α := part.head :: part.rest

/-- Parts begin with a header. -/
theorem heads_flatMap (parts : List (Part header?)) :
    Heads header? (parts.flatMap Part.elements) := by
  cases parts with
  | nil => rfl
  | cons part parts => exact preface_cons_some part.heads _

/-- **The parts are found again**, whatever stands before them. -/
theorem sections_flatMap {before : List α} (hbefore : ∀ x ∈ before, header? x = none)
    (parts : List (Part header?)) :
    sections header? (before ++ parts.flatMap Part.elements)
      = parts.map fun part => (part.value, part.elements) := by
  rw [(heads_flatMap parts).sections_append, sections_eq_nil_iff.mpr hbefore, List.nil_append]
  induction parts with
  | nil => rfl
  | cons part parts ih =>
    rw [List.flatMap_cons, (heads_flatMap parts).sections_append, ih, List.map_cons]
    exact congrArg (· ++ _) (sections_part part.heads part.plain)

end MultiForge.Sections
