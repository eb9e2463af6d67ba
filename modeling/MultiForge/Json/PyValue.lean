/-
MultiForge.Json.PyValue — everything that `json.loads` can do.

`Json` reads a text into values whose strings are sequences of scalar
values, and leaves the limits of the interpreter out. Code that has to be
total over what it reads meets both: an escape such as `\ud800` puts a
lone surrogate into a string, a container that nests too deeply raises
`RecursionError`, and an integer with too many digits raises a plain
`ValueError`. Here a string is a sequence of code points, and `pyLoads`
is the scanner of `Json.Text` with these outcomes.
-/
import MultiForge.Json.Text
import MultiForge.Lib.Lines

namespace MultiForge

/-- A Python string: its code points, surrogates included. -/
abbrev PyStr := List Nat

/-- The code points of a literal. -/
def py (s : String) : PyStr := s.toList.map Char.toNat

/-- The code points of a text. -/
def pyText (cs : List Char) : PyStr := cs.map Char.toNat

theorem py_inj {a b : String} : py a = py b ↔ a = b := by
  constructor
  · intro h
    have htoNat : Function.Injective Char.toNat := by
      intro c d hcd
      exact Char.ext (UInt32.toNat_inj.mp hcd)
    exact String.toList_inj.mp (List.map_injective_iff.mpr htoNat h)
  · exact congrArg py

/-- A Python value built from JSON. -/
inductive PyValue (F : Type) where
  | null
  | bool (b : Bool)
  | int (n : Int)
  | float (x : F)
  | str (s : PyStr)
  | list (xs : List (PyValue F))
  | obj (items : List (PyStr × PyValue F))
  deriving Repr, Inhabited

namespace PyValue

variable {F : Type}

/-! ## 1. Dicts -/

/-- The value stored under `key`. -/
def lookup (key : PyStr) : List (PyStr × PyValue F) → Option (PyValue F)
  | [] => none
  | (k, v) :: rest => if k = key then some v else lookup key rest

/-- `d.get(key, default)` -/
def getD (items : List (PyStr × PyValue F)) (key : String) (default : PyValue F) : PyValue F :=
  (lookup (py key) items).getD default

/-- `d.get(key)` -/
def get (items : List (PyStr × PyValue F)) (key : String) : PyValue F :=
  getD items key .null

/-- `key in d` -/
def hasKey (items : List (PyStr × PyValue F)) (key : String) : Bool :=
  (lookup (py key) items).isSome

/-- `d[key] = v`: an existing key keeps its position. -/
def insert (key : PyStr) (v : PyValue F) : List (PyStr × PyValue F) → List (PyStr × PyValue F)
  | [] => [(key, v)]
  | (k, w) :: rest => if k = key then (k, v) :: rest else (k, w) :: insert key v rest

theorem lookup_insert (k key : PyStr) (v : PyValue F) (items : List (PyStr × PyValue F)) :
    lookup key (insert k v items) = if k = key then some v else lookup key items := by
  induction items with
  | nil => rfl
  | cons item rest ih =>
    obtain ⟨l, w⟩ := item
    by_cases hl : l = k
    · subst hl
      by_cases hk : l = key <;> simp [insert, lookup, hk]
    · by_cases hlk : l = key
      · subst hlk
        simp [insert, lookup, hl, Ne.symm hl]
      · simp [insert, lookup, hl, hlk, ih]

/-- A `dict` from its pairs: a repeated key keeps its first position and
its last value. -/
def dictOf (pairs : List (PyStr × PyValue F)) : List (PyStr × PyValue F) :=
  pairs.foldl (fun d kv => insert kv.1 kv.2 d) []

/-- `v == key`, for a string `key` -/
def isStr (key : String) : PyValue F → Bool
  | .str s => s = py key
  | _ => false

theorem isStr_iff {key : String} {v : PyValue F} : isStr key v = true ↔ v = .str (py key) := by
  cases v <;> simp [isStr]

@[simp] theorem isStr_py (key s : String) :
    isStr key (.str (py s) : PyValue F) = decide (s = key) := by
  simp [isStr, py_inj]

/-- `bool(v)` -/
def truthy [PyFloat F] : PyValue F → Bool
  | .null => false
  | .bool b => b
  | .int n => n ≠ 0
  | .float x => PyFloat.toInt? x ≠ some 0
  | .str s => s ≠ []
  | .list xs => !xs.isEmpty
  | .obj items => !items.isEmpty

end PyValue

/-! ## 2. `json.loads` -/

/-- The limits of an interpreter: how deeply containers may nest and how
many digits an integer may have. -/
structure Limits where
  depth : Nat
  digits : Nat
  deriving DecidableEq, Repr

/-- What `json.loads` raises. -/
inductive LoadError where
  /-- `json.JSONDecodeError` -/
  | decode
  /-- `ValueError`: an integer has too many digits -/
  | digits
  /-- `RecursionError`: containers nest too deeply -/
  | recursion
  deriving DecidableEq, Repr

namespace PyValue

open Json (skipWs scanHex4 backslash? scanWhole scanFrac scanExp)

variable {F : Type}

/-- A `\u` escape, after the `\u`. A high surrogate that is followed by a
low one makes one character with it; any other stands by itself. -/
def scanUnicode (cs : List Char) : Option (Nat × List Char) :=
  match scanHex4 cs with
  | none => none
  | some (n, rest) =>
      if 0xd800 ≤ n ∧ n < 0xdc00 then
        match rest with
        | '\\' :: 'u' :: rest' =>
            match scanHex4 rest' with
            | some (m, rest'') =>
                if 0xdc00 ≤ m ∧ m < 0xe000 then
                  some (0x10000 + (n - 0xd800) * 0x400 + (m - 0xdc00), rest'')
                else some (n, rest)
            | none => none
        | _ => some (n, rest)
      else some (n, rest)

/-- `py_scanstring`, after the opening quote. -/
def scanString : Nat → List Char → Option (PyStr × List Char)
  | 0, _ => none
  | _ + 1, [] => none
  | _ + 1, '"' :: cs => some ([], cs)
  | fuel + 1, '\\' :: 'u' :: cs =>
      match scanUnicode cs with
      | none => none
      | some (n, rest) => (scanString fuel rest).map fun r => (n :: r.1, r.2)
  | fuel + 1, '\\' :: e :: cs =>
      match backslash? e with
      | none => none
      | some c => (scanString fuel cs).map fun r => (c.toNat :: r.1, r.2)
  | fuel + 1, c :: cs =>
      if c.toNat < 0x20 ∨ c = '\\' then none
      else (scanString fuel cs).map fun r => (c.toNat :: r.1, r.2)

variable [PyFloatText F] (limits : Limits)

/-- A number, after its sign. Only an integer is subject to the limit of
its digits. -/
def scanUnsigned (neg : Bool) (cs : List Char) : Except LoadError (PyValue F × List Char) :=
  match scanWhole cs with
  | none => .error .decode
  | some (whole, r₁) =>
      let (frac, r₂) := scanFrac r₁
      let (exp, r₃) := scanExp r₂
      if h : frac.isSome || exp.isSome then
        .ok (.float (PyFloatText.ofText (.decimal ⟨neg, whole, frac, exp, h⟩)), r₃)
      else if cs.length - r₁.length ≤ limits.digits then
        .ok (.int (if neg then -(whole : Int) else whole), r₃)
      else .error .digits

mutual

/-- `scan_once`; the fuel bounds the number of nested and sequential
calls, and twice the length of the text is always enough: a bracket takes
two calls. `depth` is how many containers may still be entered. -/
def scanOnce : Nat → Nat → List Char → Except LoadError (PyValue F × List Char)
  | 0, _, _ => .error .decode
  | fuel + 1, depth, cs =>
      match cs with
      | '"' :: rest =>
          match scanString (rest.length + 1) rest with
          | some (s, rest') => .ok (.str s, rest')
          | none => .error .decode
      | '{' :: rest =>
          match depth with
          | 0 => .error .recursion
          | depth + 1 =>
              match skipWs rest with
              | '}' :: rest' => .ok (.obj [], rest')
              | rest' => do
                  let (items, rest'') ← scanItems fuel depth rest'
                  return (.obj (dictOf items), rest'')
      | '[' :: rest =>
          match depth with
          | 0 => .error .recursion
          | depth + 1 =>
              match skipWs rest with
              | ']' :: rest' => .ok (.list [], rest')
              | rest' => do
                  let (xs, rest'') ← scanValues fuel depth rest'
                  return (.list xs, rest'')
      | 'n' :: 'u' :: 'l' :: 'l' :: rest => .ok (.null, rest)
      | 't' :: 'r' :: 'u' :: 'e' :: rest => .ok (.bool true, rest)
      | 'f' :: 'a' :: 'l' :: 's' :: 'e' :: rest => .ok (.bool false, rest)
      | 'N' :: 'a' :: 'N' :: rest => .ok (.float (PyFloatText.ofText .nan), rest)
      | 'I' :: 'n' :: 'f' :: 'i' :: 'n' :: 'i' :: 't' :: 'y' :: rest =>
          .ok (.float (PyFloatText.ofText .posInf), rest)
      | '-' :: 'I' :: 'n' :: 'f' :: 'i' :: 'n' :: 'i' :: 't' :: 'y' :: rest =>
          .ok (.float (PyFloatText.ofText .negInf), rest)
      | '-' :: rest => scanUnsigned limits true rest
      | _ => scanUnsigned limits false cs

/-- The values of a non-empty array and its closing bracket. -/
def scanValues : Nat → Nat → List Char → Except LoadError (List (PyValue F) × List Char)
  | 0, _, _ => .error .decode
  | fuel + 1, depth, cs => do
      let (v, rest) ← scanOnce fuel depth cs
      match skipWs rest with
      | ']' :: rest' => return ([v], rest')
      | ',' :: rest' =>
          let (vs, rest'') ← scanValues fuel depth (skipWs rest')
          return (v :: vs, rest'')
      | _ => .error .decode

/-- The items of a non-empty object and its closing brace. -/
def scanItems : Nat → Nat → List Char → Except LoadError (List (PyStr × PyValue F) × List Char)
  | 0, _, _ => .error .decode
  | fuel + 1, depth, cs =>
      match cs with
      | '"' :: rest =>
          match scanString (rest.length + 1) rest with
          | none => .error .decode
          | some (k, r₁) =>
              match skipWs r₁ with
              | ':' :: r₂ => do
                  let (v, r₃) ← scanOnce fuel depth (skipWs r₂)
                  match skipWs r₃ with
                  | '}' :: r₄ => return ([(k, v)], r₄)
                  | ',' :: r₄ =>
                      let (items, r₅) ← scanItems fuel depth (skipWs r₄)
                      return ((k, v) :: items, r₅)
                  | _ => .error .decode
              | _ => .error .decode
      | _ => .error .decode

end

end PyValue

/-- `json.loads(text)` -/
def pyLoads {F : Type} [PyFloatText F] (limits : Limits) (text : List Char) :
    Except LoadError (PyValue F) := do
  let (v, rest) ← PyValue.scanOnce limits (2 * text.length + 1) limits.depth (Json.skipWs text)
  if Json.skipWs rest = [] then return v else .error .decode

/-! ## 3. Strings -/

namespace PyStr

/-- `str.isspace` of one code point -/
def isSpace (n : Nat) : Bool :=
  (0x09 ≤ n && n ≤ 0x0d) || (0x1c ≤ n && n ≤ 0x20) || n = 0x85 || n = 0xa0 || n = 0x1680
    || (0x2000 ≤ n && n ≤ 0x200a) || n = 0x2028 || n = 0x2029 || n = 0x202f || n = 0x205f
    || n = 0x3000

/-- `s.strip()` -/
def strip (s : PyStr) : PyStr := (s.dropWhile isSpace).rdropWhile isSpace

/-- The code points at which `str.splitlines` ends a line. -/
def isLineBreak (n : Nat) : Bool :=
  (0x0a ≤ n && n ≤ 0x0d) || (0x1c ≤ n && n ≤ 0x1e) || n = 0x85 || n = 0x2028 || n = 0x2029

/-- `s.splitlines()`: `\r\n` ends one line. -/
def splitLines : PyStr → List PyStr
  | [] => []
  | 0x0d :: 0x0a :: cs => [] :: splitLines cs
  | c :: cs => if isLineBreak c then [] :: splitLines cs else Lines.consHead c (splitLines cs)

/-- A surrogate code point; UTF-8 cannot encode one. -/
def isSurrogate (n : Nat) : Bool := 0xd800 ≤ n && n < 0xe000

/-- `s.encode("utf-8")` raises. -/
def hasSurrogate (s : PyStr) : Bool := s.any isSurrogate

@[simp] theorem hasSurrogate_nil : hasSurrogate [] = false := rfl

@[simp] theorem hasSurrogate_cons (n : Nat) (s : PyStr) :
    hasSurrogate (n :: s) = (isSurrogate n || hasSurrogate s) := rfl

@[simp] theorem hasSurrogate_append (s t : PyStr) :
    hasSurrogate (s ++ t) = (hasSurrogate s || hasSurrogate t) := List.any_append

/-- A character is a scalar value. -/
theorem isSurrogate_toNat (c : Char) : isSurrogate c.toNat = false := by
  have h : c.toNat < 0xd800 ∨ 0xdfff < c.toNat ∧ c.toNat < 0x110000 := c.valid
  simp only [isSurrogate, Bool.and_eq_false_imp, decide_eq_true_eq, decide_eq_false_iff_not]
  omega

@[simp] theorem hasSurrogate_pyText (cs : List Char) : hasSurrogate (pyText cs) = false := by
  simp [hasSurrogate, pyText, isSurrogate_toNat]

@[simp] theorem hasSurrogate_py (s : String) : hasSurrogate (py s) = false :=
  hasSurrogate_pyText s.toList

end PyStr

end MultiForge
