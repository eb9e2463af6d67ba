/-
MultiForge.Json.PyDumps — writing the values of `PyValue`.

`json.dumps` with `ensure_ascii=False` writes the code points of a string
as they are, lone surrogates included, and the text can then not be
encoded. What it adds itself is ASCII, so the surrogates of the text are
those of the value's strings and keys (`surrogate_mem_pyDumps`).
-/
import Mathlib.Data.List.Lex
import Mathlib.Data.List.Sort
import MultiForge.Json.PyValue
import MultiForge.Json.Unicode

namespace MultiForge.PyValue

open PyStr

variable {F : Type}

/-! ## 1. `json.dumps` -/

/-- `py_encode_basestring`, one code point -/
def escapePoint (n : Nat) : PyStr :=
  if n < 0x80 then pyText (Json.escapeControl (Char.ofNat n)) else [n]

def dumpStr (s : PyStr) : PyStr := 0x22 :: (s.flatMap escapePoint ++ [0x22])

/-- `sorted(d.items())` by the key. -/
def sortByKey {α : Type} (items : List (PyStr × α)) : List (PyStr × α) :=
  items.insertionSort fun a b => a.1 ≤ b.1

section

variable [PyFloatText F]

mutual

/-- The text of a value, with `sort_keys=True` and the compact
separators. -/
def pyDumps : PyValue F → PyStr
  | .null => py "null"
  | .bool true => py "true"
  | .bool false => py "false"
  | .int n => pyText (Json.intChars n)
  | .float x => pyText (Json.floatChars (PyFloatText.repr x))
  | .str s => dumpStr s
  | .list xs => 0x5b :: ([0x2c].intercalate (pyDumpsList xs) ++ [0x5d])
  | .obj items =>
      0x7b :: ([0x2c].intercalate ((sortByKey (pyDumpsItems items)).map fun item =>
        dumpStr item.1 ++ 0x3a :: item.2) ++ [0x7d])

def pyDumpsList : List (PyValue F) → List PyStr
  | [] => []
  | v :: vs => pyDumps v :: pyDumpsList vs

def pyDumpsItems : List (PyStr × PyValue F) → List (PyStr × PyStr)
  | [] => []
  | (k, v) :: rest => (k, pyDumps v) :: pyDumpsItems rest

end

end

mutual

/-- The encoder does not raise: containers nest at most `depth` deep, and
integers are within the limit of digits. -/
def fits (limits : Limits) (depth : Nat) : PyValue F → Bool
  | .int n => (Json.natChars n.natAbs).length ≤ limits.digits
  | .list xs => 0 < depth && fitsList limits (depth - 1) xs
  | .obj items => 0 < depth && fitsItems limits (depth - 1) items
  | _ => true

def fitsList (limits : Limits) (depth : Nat) : List (PyValue F) → Bool
  | [] => true
  | v :: vs => fits limits depth v && fitsList limits depth vs

def fitsItems (limits : Limits) (depth : Nat) : List (PyStr × PyValue F) → Bool
  | [] => true
  | (_, v) :: rest => fits limits depth v && fitsItems limits depth rest

end

/-! ## 2. Surrogates -/

mutual

/-- A string or a key with a lone surrogate in it. -/
def hasLone : PyValue F → Bool
  | .str s => hasSurrogate s
  | .list xs => hasLoneList xs
  | .obj items => hasLoneItems items
  | _ => false

def hasLoneList : List (PyValue F) → Bool
  | [] => false
  | v :: vs => hasLone v || hasLoneList vs

def hasLoneItems : List (PyStr × PyValue F) → Bool
  | [] => false
  | (k, v) :: rest => hasSurrogate k || hasLone v || hasLoneItems rest

end

theorem hasSurrogate_escapePoint (n : Nat) : hasSurrogate (escapePoint n) = isSurrogate n := by
  by_cases h : n < 0x80
  · have hn : isSurrogate n = false := by
      simp only [isSurrogate, Bool.and_eq_false_imp, decide_eq_true_eq, decide_eq_false_iff_not]
      omega
    rw [escapePoint, if_pos h, hasSurrogate_pyText, hn]
  · simp [escapePoint, h]

@[simp] theorem hasSurrogate_dumpStr (s : PyStr) : hasSurrogate (dumpStr s) = hasSurrogate s := by
  have hflat : hasSurrogate (s.flatMap escapePoint) = hasSurrogate s := by
    induction s with
    | nil => rfl
    | cons n s ih => rw [List.flatMap_cons, hasSurrogate_append, ih, hasSurrogate_escapePoint]; rfl
  simp [dumpStr, hflat, isSurrogate]

theorem hasSurrogate_intercalate {c : Nat} (hc : isSurrogate c = false) (parts : List PyStr) :
    hasSurrogate ([c].intercalate parts) = parts.any hasSurrogate := by
  induction parts with
  | nil => rfl
  | cons part parts ih =>
    cases parts with
    | nil => simp [List.intercalate]
    | cons next rest =>
      have hcons : [c].intercalate (part :: next :: rest)
          = part ++ c :: [c].intercalate (next :: rest) := by
        simp [List.intercalate]
      rw [hcons, hasSurrogate_append, hasSurrogate_cons, hc, ih]
      rfl

/-- The items of an object in the order they are written. -/
theorem any_sortByKey {α : Type} (p : PyStr × α → Bool) (items : List (PyStr × α)) :
    (sortByKey items).any p = items.any p := by
  have hperm := List.perm_insertionSort (fun a b : PyStr × α => a.1 ≤ b.1) items
  rw [Bool.eq_iff_iff, List.any_eq_true, List.any_eq_true]
  constructor
  · intro h
    obtain ⟨item, hmem, hp⟩ := h
    exact ⟨item, hperm.mem_iff.mp hmem, hp⟩
  · intro h
    obtain ⟨item, hmem, hp⟩ := h
    exact ⟨item, hperm.mem_iff.mpr hmem, hp⟩

variable [PyFloatText F]

mutual

/-- The text of a value cannot be encoded exactly when a string of it has
a lone surrogate. -/
theorem hasSurrogate_pyDumps : ∀ v : PyValue F, hasSurrogate (pyDumps v) = hasLone v
  | .null => hasSurrogate_py _
  | .bool true => hasSurrogate_py _
  | .bool false => hasSurrogate_py _
  | .int n => hasSurrogate_pyText _
  | .float x => hasSurrogate_pyText _
  | .str s => hasSurrogate_dumpStr s
  | .list xs => by
      have hlist := any_pyDumpsList xs
      simp [pyDumps, hasLone, hasSurrogate_intercalate, isSurrogate, hlist]
  | .obj items => by
      have hitems := any_pyDumpsItems items
      have hcomma : isSurrogate 0x2c = false := rfl
      have hparts : ((sortByKey (pyDumpsItems items)).map fun item =>
          dumpStr item.1 ++ 0x3a :: item.2).any hasSurrogate = hasLoneItems items := by
        rw [List.any_map, any_sortByKey, ← hitems]
        congr 1
        funext item
        simp [isSurrogate]
      simp only [pyDumps, hasLone, hasSurrogate_cons, hasSurrogate_append,
        hasSurrogate_intercalate hcomma, hparts]
      simp [isSurrogate]

theorem any_pyDumpsList : ∀ xs : List (PyValue F),
    (pyDumpsList xs).any hasSurrogate = hasLoneList xs
  | [] => rfl
  | v :: vs => by
      rw [pyDumpsList, List.any_cons, hasSurrogate_pyDumps v, any_pyDumpsList vs, hasLoneList]

theorem any_pyDumpsItems : ∀ items : List (PyStr × PyValue F),
    ((pyDumpsItems items).any fun item => hasSurrogate item.1 || hasSurrogate item.2)
      = hasLoneItems items
  | [] => rfl
  | (k, v) :: rest => by
      rw [pyDumpsItems, List.any_cons, hasSurrogate_pyDumps v, any_pyDumpsItems rest, hasLoneItems]

end

end MultiForge.PyValue
