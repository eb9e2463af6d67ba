/-
MultiForge.Json.Text — `json.dumps` and `json.loads`.

`dumps` writes with `ensure_ascii=True` (the default everywhere in the
repository): every character outside printable ASCII is a `\uXXXX`
escape, and a character above the basic plane is a surrogate pair.
`loads` is the scanner of the standard library: its number pattern, its
string escapes, `NaN` / `Infinity` / `-Infinity`, insignificant
whitespace, and the rule that a repeated object key keeps its first
position and its last value. `none` is `json.JSONDecodeError`.

Two limits of the interpreter are not modelled (recursion depth and the
digit limit of `int`), and since a Lean `Char` is a Unicode scalar value,
an escape that denotes a lone surrogate is rejected here where Python
would build a string holding it.

A float is read and written through `FloatText`, the decimal literal
Python's `repr` gives it; that reading a float's own `repr` gives it back
is the law a `PyFloatText` instance carries.
-/
import Mathlib.Data.Nat.Digits.Defs
import MultiForge.Json.Value

namespace MultiForge

/-! ## 1. Float literals -/

/-- A non-empty run of decimal digits. -/
structure Digits where
  first : Fin 10
  rest : List (Fin 10)
  deriving DecidableEq, Repr

/-- A number literal with a fraction or an exponent. -/
structure Decimal where
  neg : Bool
  whole : Nat
  frac : Option Digits
  /-- the exponent's sign character, if one is written, and its digits -/
  exp : Option (Option Bool × Digits)
  isFloat : frac.isSome || exp.isSome
  deriving DecidableEq, Repr

/-- The text of a float in JSON. -/
inductive FloatText where
  | nan
  | posInf
  | negInf
  | decimal (d : Decimal)
  deriving DecidableEq, Repr

/-- Floats that can be written to JSON and read back. -/
class PyFloatText (F : Type) extends PyFloat F where
  repr : F → FloatText
  ofText : FloatText → F
  ofText_repr : ∀ x, ofText (repr x) = x

namespace Json

/-! ## 2. `json.dumps` -/

def digitChar (d : Fin 10) : Char := Char.ofNat (48 + d.val)

/-- `str(n)` for a natural number. -/
def natChars (n : Nat) : List Char :=
  if n = 0 then ['0'] else (Nat.digits 10 n).reverse.map fun d => digitChar (Fin.ofNat 10 d)

/-- `int.__repr__` -/
def intChars : Int → List Char
  | .ofNat n => natChars n
  | .negSucc n => '-' :: natChars (n + 1)

def digitsChars (ds : Digits) : List Char := digitChar ds.first :: ds.rest.map digitChar

def fracChars : Option Digits → List Char
  | none => []
  | some ds => '.' :: digitsChars ds

def signChars : Option Bool → List Char
  | none => []
  | some true => ['-']
  | some false => ['+']

def expChars : Option (Option Bool × Digits) → List Char
  | none => []
  | some (sign, ds) => 'e' :: (signChars sign ++ digitsChars ds)

def floatChars : FloatText → List Char
  | .nan => ['N', 'a', 'N']
  | .posInf => ['I', 'n', 'f', 'i', 'n', 'i', 't', 'y']
  | .negInf => ['-', 'I', 'n', 'f', 'i', 'n', 'i', 't', 'y']
  | .decimal d =>
      (if d.neg then ['-'] else []) ++ natChars d.whole ++ fracChars d.frac ++ expChars d.exp

def hexChar (n : Nat) : Char := if n < 10 then Char.ofNat (48 + n) else Char.ofNat (87 + n)

/-- `'\\u{0:04x}'.format(n)` -/
def unicodeEscape (n : Nat) : List Char :=
  ['\\', 'u', hexChar (n / 4096 % 16), hexChar (n / 256 % 16), hexChar (n / 16 % 16),
    hexChar (n % 16)]

/-- `py_encode_basestring_ascii`, one character. -/
def escapeChar (c : Char) : List Char :=
  if c = '"' then ['\\', '"']
  else if c = '\\' then ['\\', '\\']
  else if c = '\n' then ['\\', 'n']
  else if c = '\r' then ['\\', 'r']
  else if c = '\t' then ['\\', 't']
  else if c = '\x08' then ['\\', 'b']
  else if c = '\x0c' then ['\\', 'f']
  else if 0x20 ≤ c.toNat ∧ c.toNat ≤ 0x7e then [c]
  else if c.toNat < 0x10000 then unicodeEscape c.toNat
  else
    let n := c.toNat - 0x10000
    unicodeEscape (0xd800 + n / 0x400 % 0x400) ++ unicodeEscape (0xdc00 + n % 0x400)

def strChars (s : String) : List Char := '"' :: (s.toList.flatMap escapeChar ++ ['"'])

/-- The two separators of `json.dumps(separators=(item, key))`. -/
structure Separators where
  item : List Char
  key : List Char

/-- `json.dumps` without `separators`. -/
def Separators.default : Separators := ⟨[',', ' '], [':', ' ']⟩

/-- `separators=(",", ":")` -/
def Separators.compact : Separators := ⟨[','], [':']⟩

variable {F : Type} [PyFloatText F]

mutual

/-- The text of a value. -/
def dumpChars (sep : Separators) : Json F → List Char
  | .null => ['n', 'u', 'l', 'l']
  | .bool true => ['t', 'r', 'u', 'e']
  | .bool false => ['f', 'a', 'l', 's', 'e']
  | .int n => intChars n
  | .float x => floatChars (PyFloatText.repr x)
  | .str s => strChars s
  | .list [] => ['[', ']']
  | .list (v :: vs) => '[' :: (dumpChars sep v ++ dumpTail sep vs)
  | .obj [] => ['{', '}']
  | .obj ((k, v) :: rest) =>
      '{' :: (strChars k ++ sep.key ++ dumpChars sep v ++ dumpItems sep rest)

/-- The rest of an array, up to and including the bracket. -/
def dumpTail (sep : Separators) : List (Json F) → List Char
  | [] => [']']
  | v :: vs => sep.item ++ dumpChars sep v ++ dumpTail sep vs

/-- The rest of an object, up to and including the brace. -/
def dumpItems (sep : Separators) : List (String × Json F) → List Char
  | [] => ['}']
  | (k, v) :: rest =>
      sep.item ++ strChars k ++ sep.key ++ dumpChars sep v ++ dumpItems sep rest

end

/-- `json.dumps(v)` and `json.dumps(v, separators=...)` -/
def dumps (v : Json F) (sep : Separators := .default) : String := String.ofList (dumpChars sep v)

/-! ## 3. `json.loads` -/

def isWs (c : Char) : Bool := c = ' ' || c = '\t' || c = '\n' || c = '\r'

def skipWs : List Char → List Char
  | [] => []
  | c :: cs => if isWs c then skipWs cs else c :: cs

def digit? (c : Char) : Option (Fin 10) :=
  if h : 48 ≤ c.toNat ∧ c.toNat < 58 then some ⟨c.toNat - 48, by omega⟩ else none

/-- `[0-9]*` -/
def scanDigits : List Char → List (Fin 10) × List Char
  | [] => ([], [])
  | c :: cs =>
      match digit? c with
      | none => ([], c :: cs)
      | some d => ((d :: (scanDigits cs).1), (scanDigits cs).2)

/-- `[0-9]+` -/
def scanDigits1 (cs : List Char) : Option (Digits × List Char) :=
  match scanDigits cs with
  | ([], _) => none
  | (d :: ds, rest) => some (⟨d, ds⟩, rest)

/-- `(0|[1-9][0-9]*)` -/
def scanWhole (cs : List Char) : Option (Nat × List Char) :=
  match cs with
  | '0' :: rest => some (0, rest)
  | _ =>
      match scanDigits cs with
      | ([], _) => none
      | (ds, rest) => some (Nat.ofDigits 10 (ds.reverse.map Fin.val), rest)

/-- `(\.[0-9]+)?` -/
def scanFrac : List Char → Option Digits × List Char
  | '.' :: cs =>
      match scanDigits1 cs with
      | some (ds, rest) => (some ds, rest)
      | none => (none, '.' :: cs)
  | cs => (none, cs)

/-- `[-+]?` -/
def scanSign : List Char → Option Bool × List Char
  | '-' :: cs => (some true, cs)
  | '+' :: cs => (some false, cs)
  | cs => (none, cs)

/-- `([eE][-+]?[0-9]+)?` -/
def scanExp : List Char → Option (Option Bool × Digits) × List Char
  | [] => (none, [])
  | c :: cs =>
      if c = 'e' ∨ c = 'E' then
        match scanDigits1 (scanSign cs).2 with
        | some (ds, rest) => (some ((scanSign cs).1, ds), rest)
        | none => (none, c :: cs)
      else (none, c :: cs)

/-- The value of a matched number: an `int` unless a fraction or an
exponent was matched. -/
def numberOf (neg : Bool) (whole : Nat) (frac : Option Digits)
    (exp : Option (Option Bool × Digits)) : Json F :=
  if h : frac.isSome || exp.isSome then
    .float (PyFloatText.ofText (.decimal ⟨neg, whole, frac, exp, h⟩))
  else .int (if neg then -(whole : Int) else whole)

def scanUnsigned (neg : Bool) (cs : List Char) : Option (Json F × List Char) :=
  match scanWhole cs with
  | none => none
  | some (whole, r₁) =>
      let (frac, r₂) := scanFrac r₁
      let (exp, r₃) := scanExp r₂
      some (numberOf neg whole frac exp, r₃)

def hex? (c : Char) : Option Nat :=
  if 48 ≤ c.toNat ∧ c.toNat < 58 then some (c.toNat - 48)
  else if 97 ≤ c.toNat ∧ c.toNat < 103 then some (c.toNat - 87)
  else if 65 ≤ c.toNat ∧ c.toNat < 71 then some (c.toNat - 55)
  else none

/-- `_decode_uXXXX`: four hex digits. -/
def scanHex4 : List Char → Option (Nat × List Char)
  | a :: b :: c :: d :: rest =>
      match hex? a, hex? b, hex? c, hex? d with
      | some a, some b, some c, some d => some (a * 4096 + b * 256 + c * 16 + d, rest)
      | _, _, _, _ => none
  | _ => none

/-- A `\u` escape, after the `\u`: one code unit, or two when the first is
a high surrogate followed by a low one. -/
def scanUnicode (cs : List Char) : Option (Char × List Char) :=
  match scanHex4 cs with
  | none => none
  | some (n, rest) =>
      if 0xd800 ≤ n ∧ n < 0xdc00 then
        match rest with
        | '\\' :: 'u' :: rest' =>
            match scanHex4 rest' with
            | some (m, rest'') =>
                if 0xdc00 ≤ m ∧ m < 0xe000 then
                  some (Char.ofNat (0x10000 + (n - 0xd800) * 0x400 + (m - 0xdc00)), rest'')
                else none
            | none => none
        | _ => none
      else if 0xdc00 ≤ n ∧ n < 0xe000 then none
      else some (Char.ofNat n, rest)

/-- The one-character escapes. -/
def backslash? : Char → Option Char
  | '"' => some '"'
  | '\\' => some '\\'
  | '/' => some '/'
  | 'b' => some '\x08'
  | 'f' => some '\x0c'
  | 'n' => some '\n'
  | 'r' => some '\r'
  | 't' => some '\t'
  | _ => none

/-- `py_scanstring`, after the opening quote. -/
def scanString : Nat → List Char → Option (List Char × List Char)
  | 0, _ => none
  | _ + 1, [] => none
  | _ + 1, '"' :: cs => some ([], cs)
  | fuel + 1, '\\' :: 'u' :: cs =>
      match scanUnicode cs with
      | none => none
      | some (c, rest) => (scanString fuel rest).map fun r => (c :: r.1, r.2)
  | fuel + 1, '\\' :: e :: cs =>
      match backslash? e with
      | none => none
      | some c => (scanString fuel cs).map fun r => (c :: r.1, r.2)
  | fuel + 1, c :: cs =>
      if c.toNat < 0x20 ∨ c = '\\' then none
      else (scanString fuel cs).map fun r => (c :: r.1, r.2)

/-- A `dict` from its pairs: a repeated key keeps its first position and
its last value. -/
def dictOf (pairs : List (String × Json F)) : List (String × Json F) :=
  pairs.foldl (fun d kv => insert kv.1 kv.2 d) []

mutual

/-- `scan_once`; the fuel bounds the number of nested and sequential
calls, and the length of the text is always enough. -/
def scanOnce : Nat → List Char → Option (Json F × List Char)
  | 0, _ => none
  | fuel + 1, cs =>
      match cs with
      | '"' :: rest => (scanString (rest.length + 1) rest).map fun r => (.str (String.ofList r.1), r.2)
      | '{' :: rest =>
          match skipWs rest with
          | '}' :: rest' => some (.obj [], rest')
          | rest' => (scanItems fuel rest').map fun r => (.obj (dictOf r.1), r.2)
      | '[' :: rest =>
          match skipWs rest with
          | ']' :: rest' => some (.list [], rest')
          | rest' => (scanValues fuel rest').map fun r => (.list r.1, r.2)
      | 'n' :: 'u' :: 'l' :: 'l' :: rest => some (.null, rest)
      | 't' :: 'r' :: 'u' :: 'e' :: rest => some (.bool true, rest)
      | 'f' :: 'a' :: 'l' :: 's' :: 'e' :: rest => some (.bool false, rest)
      | 'N' :: 'a' :: 'N' :: rest => some (.float (PyFloatText.ofText .nan), rest)
      | 'I' :: 'n' :: 'f' :: 'i' :: 'n' :: 'i' :: 't' :: 'y' :: rest =>
          some (.float (PyFloatText.ofText .posInf), rest)
      | '-' :: 'I' :: 'n' :: 'f' :: 'i' :: 'n' :: 'i' :: 't' :: 'y' :: rest =>
          some (.float (PyFloatText.ofText .negInf), rest)
      | '-' :: rest => scanUnsigned true rest
      | _ => scanUnsigned false cs

/-- The values of a non-empty array and its closing bracket. -/
def scanValues : Nat → List Char → Option (List (Json F) × List Char)
  | 0, _ => none
  | fuel + 1, cs =>
      match scanOnce fuel cs with
      | none => none
      | some (v, rest) =>
          match skipWs rest with
          | ']' :: rest' => some ([v], rest')
          | ',' :: rest' => (scanValues fuel (skipWs rest')).map fun r => (v :: r.1, r.2)
          | _ => none

/-- The items of a non-empty object and its closing brace. -/
def scanItems : Nat → List Char → Option (List (String × Json F) × List Char)
  | 0, _ => none
  | fuel + 1, cs =>
      match cs with
      | '"' :: rest =>
          match scanString (rest.length + 1) rest with
          | none => none
          | some (k, r₁) =>
              match skipWs r₁ with
              | ':' :: r₂ =>
                  match scanOnce fuel (skipWs r₂) with
                  | none => none
                  | some (v, r₃) =>
                      match skipWs r₃ with
                      | '}' :: r₄ => some ([(String.ofList k, v)], r₄)
                      | ',' :: r₄ =>
                          (scanItems fuel (skipWs r₄)).map fun r =>
                            ((String.ofList k, v) :: r.1, r.2)
                      | _ => none
              | _ => none
      | _ => none

end

/-- `json.loads(text)` -/
def loads (text : String) : Option (Json F) :=
  match scanOnce (text.toList.length + 1) (skipWs text.toList) with
  | some (v, rest) => if skipWs rest = [] then some v else none
  | none => none

end Json

/-- The digits of a literal without its decimal point. -/
def Decimal.mantissa (d : Decimal) : Nat :=
  match d.frac with
  | none => d.whole
  | some ds => (ds.first :: ds.rest).foldl (fun n k => 10 * n + k.val) d.whole

/-- The power of ten that goes with `mantissa`. -/
def Decimal.scale (d : Decimal) : Int :=
  (match d.exp with
    | none => 0
    | some (sign, ds) =>
        let e : Int := ((ds.first :: ds.rest).foldl (fun n k => 10 * n + k.val) 0 : Nat)
        if sign = some true then -e else e)
    - (match d.frac with
        | none => 0
        | some ds => ds.rest.length + 1)

/-- Decimal literals themselves serve as floats whose text and exact
decimal value are all that is observed. -/
instance : PyFloatText FloatText where
  toInt?
    | .decimal d =>
        let n : Option Nat :=
          if 0 ≤ d.scale then some (d.mantissa * 10 ^ d.scale.toNat)
          else if d.mantissa % 10 ^ (-d.scale).toNat = 0 then
            some (d.mantissa / 10 ^ (-d.scale).toNat)
          else none
        n.map fun n => if d.neg then -(n : Int) else n
    | _ => none
  pos
    | .decimal d => !d.neg && d.mantissa ≠ 0
    | .posInf => true
    | _ => false
  eq
    | .decimal d, .decimal e =>
        let m (d : Decimal) : Int := if d.neg then -(d.mantissa : Int) else d.mantissa
        m d * 10 ^ (d.scale - e.scale).toNat = m e * 10 ^ (e.scale - d.scale).toNat
    | .nan, _ => false
    | x, y => x = y
  repr := id
  ofText := id
  ofText_repr _ := rfl

end MultiForge
