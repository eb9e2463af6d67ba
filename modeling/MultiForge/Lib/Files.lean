/-
MultiForge.Lib.Files — names, the files behind them, and what is in the files.

A file that is open stays the same file when its name changes, and a name
may come to stand for another file while somebody still writes to the old
one. So a file is known by the name it was made under and a number of its
own, and writes go to it and not to a name.
-/
import Mathlib.Logic.Function.Basic

namespace MultiForge

universe u v

/-- A file: the name it was made under, and its number. -/
abbrev Inode (ν : Type u) := ν × Nat

structure Files (ν : Type u) (β : Type v) where
  entry : ν → Option (Inode ν)
  data : Inode ν → List β
  next : Nat

namespace Files

variable {ν : Type u} {β : Type v}

/-- No names yet. -/
def empty : Files ν β := ⟨fun _ => none, fun _ => [], 0⟩

/-- What is in the file under a name. -/
def read (fs : Files ν β) (n : ν) : Option (List β) := (fs.entry n).map fs.data

/-- The file that opening a name for writing gives. -/
def opened (fs : Files ν β) (n : ν) : Inode ν := (fs.entry n).getD (n, fs.next)

variable {fs fs' : Files ν β} {n m a b : ν} {i j : Inode ν}

theorem read_of_entry (h : fs.entry n = some i) : fs.read n = some (fs.data i) := by
  rw [read, h, Option.map_some]

theorem opened_of_entry (h : fs.entry n = some i) : fs.opened n = i := by
  rw [opened, h, Option.getD_some]

theorem opened_of_none (h : fs.entry n = none) : fs.opened n = (n, fs.next) := by
  rw [opened, h, Option.getD_none]

/-- The numbers of the files under names have been given out. -/
def Numbered (fs : Files ν β) : Prop := ∀ n i, fs.entry n = some i → i.2 < fs.next

theorem numbered_empty : Numbered (empty : Files ν β) := fun _ _ h => nomatch h

variable [DecidableEq ν]

/-- Opening a name for writing: an existing file is emptied. -/
def create (fs : Files ν β) (n : ν) : Files ν β where
  entry := Function.update fs.entry n (some (fs.opened n))
  data := Function.update fs.data (fs.opened n) []
  next := if (fs.entry n).isSome then fs.next else fs.next + 1

/-- Bytes written at an offset; a gap before them is filled. -/
def writeAt (fill : β) (old : List β) (offset : Nat) (chunk : List β) : List β :=
  old.take offset ++ List.replicate (offset - old.length) fill ++ chunk ++
    old.drop (offset + chunk.length)

def write (fs : Files ν β) (i : Inode ν) (fill : β) (offset : Nat) (chunk : List β) :
    Files ν β :=
  { fs with data := Function.update fs.data i (writeAt fill (fs.data i) offset chunk) }

/-- A name is given to another's file, and the other name is gone. -/
def rename (fs : Files ν β) (a b : ν) : Option (Files ν β) :=
  (fs.entry a).map fun i =>
    { fs with entry := Function.update (Function.update fs.entry a none) b (some i) }

/-! ## 1. Opening -/

@[simp] theorem create_entry_self : (fs.create n).entry n = some (fs.opened n) :=
  Function.update_self ..

theorem create_entry_of_ne (h : m ≠ n) : (fs.create n).entry m = fs.entry m :=
  Function.update_of_ne h ..

@[simp] theorem create_data_self : (fs.create n).data (fs.opened n) = [] :=
  Function.update_self ..

theorem create_data_of_ne (h : i ≠ fs.opened n) : (fs.create n).data i = fs.data i :=
  Function.update_of_ne h ..

theorem next_le_create : fs.next ≤ (fs.create n).next := by
  unfold create
  dsimp only
  split
  · exact Nat.le_refl _
  · exact Nat.le_succ _

/-! ## 2. Writing -/

@[simp] theorem write_entry {fill : β} {offset : Nat} {chunk : List β} :
    (fs.write i fill offset chunk).entry = fs.entry := rfl

@[simp] theorem write_next {fill : β} {offset : Nat} {chunk : List β} :
    (fs.write i fill offset chunk).next = fs.next := rfl

theorem write_data_of_ne {fill : β} {offset : Nat} {chunk : List β} (h : j ≠ i) :
    (fs.write i fill offset chunk).data j = fs.data j :=
  Function.update_of_ne h ..

theorem write_data_self {fill : β} {offset : Nat} {chunk : List β} :
    (fs.write i fill offset chunk).data i = writeAt fill (fs.data i) offset chunk :=
  Function.update_self ..

/-- A text written piece by piece. -/
theorem writeAt_take {fill : β} {text : List β} {n k : Nat} (h : n ≤ text.length) :
    writeAt fill (text.take n) n ((text.drop n).take k) = text.take (n + k) := by
  have hlen : (text.take n).length = n := by rw [List.length_take, Nat.min_eq_left h]
  have hdrop : (text.take n).drop (n + ((text.drop n).take k).length) = [] := by
    rw [List.drop_eq_nil_iff, hlen]
    exact Nat.le_add_right ..
  unfold writeAt
  rw [hdrop, hlen, Nat.sub_self, List.replicate_zero, List.append_nil, List.append_nil,
    List.take_take, Nat.min_self, List.take_add]

/-! ## 3. Renaming -/

theorem rename_eq_none : fs.rename a b = none ↔ fs.entry a = none := Option.map_eq_none_iff

/-- What a rename that is possible does. -/
theorem rename_spec (h : fs.rename a b = some fs') : ∃ i, fs.entry a = some i ∧
    fs' = { fs with entry := Function.update (Function.update fs.entry a none) b (some i) } := by
  unfold rename at h
  obtain ⟨i, hi, rfl⟩ := Option.map_eq_some_iff.mp h
  exact ⟨i, hi, rfl⟩

theorem rename_data (h : fs.rename a b = some fs') : fs'.data = fs.data := by
  obtain ⟨i, -, rfl⟩ := rename_spec h
  rfl

theorem rename_next (h : fs.rename a b = some fs') : fs'.next = fs.next := by
  obtain ⟨i, -, rfl⟩ := rename_spec h
  rfl

theorem rename_entry_new (h : fs.rename a b = some fs') : fs'.entry b = fs.entry a := by
  obtain ⟨i, hi, rfl⟩ := rename_spec h
  rw [hi]
  exact Function.update_self ..

theorem rename_entry_old (hne : a ≠ b) (h : fs.rename a b = some fs') : fs'.entry a = none := by
  obtain ⟨i, -, rfl⟩ := rename_spec h
  exact (Function.update_of_ne hne ..).trans (Function.update_self ..)

theorem rename_entry_other (ha : n ≠ a) (hb : n ≠ b) (h : fs.rename a b = some fs') :
    fs'.entry n = fs.entry n := by
  obtain ⟨i, -, rfl⟩ := rename_spec h
  exact (Function.update_of_ne hb ..).trans (Function.update_of_ne ha ..)

/-! ## 4. Numbers -/

theorem Numbered.opened (h : fs.Numbered) : (fs.opened n).2 < (fs.create n).next := by
  cases hn : fs.entry n with
  | some i =>
    rw [opened_of_entry hn]
    exact Nat.lt_of_lt_of_le (h n i hn) next_le_create
  | none =>
    rw [opened_of_none hn]
    simp [create, hn]

theorem Numbered.create (h : fs.Numbered) : (fs.create n).Numbered := by
  intro m i hi
  by_cases hm : m = n
  · subst hm
    rw [create_entry_self] at hi
    cases hi
    exact h.opened
  · rw [create_entry_of_ne hm] at hi
    exact Nat.lt_of_lt_of_le (h m i hi) next_le_create

theorem Numbered.rename (h : fs.Numbered) (hr : fs.rename a b = some fs') : fs'.Numbered := by
  obtain ⟨i, hi, rfl⟩ := rename_spec hr
  intro m j hj
  dsimp only at hj ⊢
  by_cases hb : m = b
  · subst hb
    rw [Function.update_self] at hj
    cases hj
    exact h a i hi
  · rw [Function.update_of_ne hb] at hj
    by_cases ha : m = a
    · subst ha
      rw [Function.update_self] at hj
      cases hj
    · rw [Function.update_of_ne ha] at hj
      exact h m j hj

end Files

end MultiForge
