/-
MultiForge.Json.Unicode — `json.dumps(..., ensure_ascii=False)`.

The text keeps every character outside ASCII. Escaping those afterwards
gives the text that `dumps` writes (`toAscii_unicodeChars`), so this text
determines its value as well (`unicodeDumps_injective`).
-/
import MultiForge.Json.Sorted

namespace MultiForge.Json

/-- `py_encode_basestring`, one character. -/
def escapeControl (c : Char) : List Char :=
  if c = '"' then ['\\', '"']
  else if c = '\\' then ['\\', '\\']
  else if c = '\n' then ['\\', 'n']
  else if c = '\r' then ['\\', 'r']
  else if c = '\t' then ['\\', 't']
  else if c = '\x08' then ['\\', 'b']
  else if c = '\x0c' then ['\\', 'f']
  else if 0x20 ≤ c.toNat then [c]
  else unicodeEscape c.toNat

def unicodeStr (s : String) : List Char := '"' :: (s.toList.flatMap escapeControl ++ ['"'])

variable {F : Type} [PyFloatText F]

mutual

/-- The text of a value. -/
def unicodeChars (sep : Separators) : Json F → List Char
  | .null => ['n', 'u', 'l', 'l']
  | .bool true => ['t', 'r', 'u', 'e']
  | .bool false => ['f', 'a', 'l', 's', 'e']
  | .int n => intChars n
  | .float x => floatChars (PyFloatText.repr x)
  | .str s => unicodeStr s
  | .list [] => ['[', ']']
  | .list (v :: vs) => '[' :: (unicodeChars sep v ++ unicodeTail sep vs)
  | .obj [] => ['{', '}']
  | .obj ((k, v) :: rest) =>
      '{' :: (unicodeStr k ++ sep.key ++ unicodeChars sep v ++ unicodeItems sep rest)

def unicodeTail (sep : Separators) : List (Json F) → List Char
  | [] => [']']
  | v :: vs => sep.item ++ unicodeChars sep v ++ unicodeTail sep vs

def unicodeItems (sep : Separators) : List (String × Json F) → List Char
  | [] => ['}']
  | (k, v) :: rest =>
      sep.item ++ unicodeStr k ++ sep.key ++ unicodeChars sep v ++ unicodeItems sep rest

end

/-- `json.dumps(v, ensure_ascii=False, separators=...)` -/
def unicodeDumps (v : Json F) (sep : Separators) : String := String.ofList (unicodeChars sep v)

/-! ## 1. Escaping afterwards -/

/-- A character of the text, escaped if it is outside printable ASCII. -/
def toAscii (c : Char) : List Char := if c.toNat ≤ 0x7e then [c] else escapeChar c

theorem flatMap_toAscii_of_printable : ∀ {cs : List Char}, (∀ c ∈ cs, Printable c) →
    cs.flatMap toAscii = cs
  | [], _ => rfl
  | c :: cs, h => by
      have hc : toAscii c = [c] := if_pos (h c List.mem_cons_self).2
      rw [List.flatMap_cons, hc, flatMap_toAscii_of_printable fun d hd =>
        h d (List.mem_cons_of_mem _ hd)]
      rfl

theorem toAscii_escapeControl (c : Char) : (escapeControl c).flatMap toAscii = escapeChar c := by
  have hcontrol : ∀ n, (unicodeEscape n).flatMap toAscii = unicodeEscape n := fun n =>
    flatMap_toAscii_of_printable (unicodeEscape_printable n)
  unfold escapeControl
  split_ifs with h1 h2 h3 h4 h5 h6 h7 h8
  · rw [h1]; rfl
  · rw [h2]; rfl
  · rw [h3]; rfl
  · rw [h4]; rfl
  · rw [h5]; rfl
  · rw [h6]; rfl
  · rw [h7]; rfl
  · rw [List.flatMap_singleton, toAscii]
    split
    · rename_i hle
      simp [escapeChar, h1, h2, h3, h4, h5, h6, h7, h8, hle]
    · rfl
  · have hsmall : c.toNat < 0x10000 := by omega
    simp [hcontrol, escapeChar, h1, h2, h3, h4, h5, h6, h7, h8, hsmall]

theorem toAscii_unicodeStr (s : String) : (unicodeStr s).flatMap toAscii = strChars s := by
  have hbody : ∀ cs : List Char, (cs.flatMap escapeControl).flatMap toAscii
      = cs.flatMap escapeChar := by
    intro cs
    rw [List.flatMap_assoc]
    simp only [toAscii_escapeControl]
  rw [unicodeStr, List.flatMap_cons, List.flatMap_append, hbody]
  rfl

mutual

/-- **Escaping the text gives the ASCII text.** -/
theorem toAscii_unicodeChars {sep : Separators} (hsep : sep.Printable) :
    ∀ v : Json F, (unicodeChars sep v).flatMap toAscii = dumpChars sep v
  | .null => rfl
  | .bool true => rfl
  | .bool false => rfl
  | .int n => flatMap_toAscii_of_printable (intChars_printable n)
  | .float x => flatMap_toAscii_of_printable (floatChars_printable _)
  | .str s => toAscii_unicodeStr s
  | .list [] => rfl
  | .list (v :: vs) => by
      rw [unicodeChars, List.flatMap_cons, List.flatMap_append, toAscii_unicodeChars hsep v,
        toAscii_unicodeTail hsep vs]
      rfl
  | .obj [] => rfl
  | .obj ((k, v) :: rest) => by
      rw [unicodeChars, List.flatMap_cons, List.flatMap_append, List.flatMap_append,
        List.flatMap_append, toAscii_unicodeStr, toAscii_unicodeChars hsep v,
        toAscii_unicodeItems hsep rest, flatMap_toAscii_of_printable hsep.2]
      rfl

theorem toAscii_unicodeTail {sep : Separators} (hsep : sep.Printable) :
    ∀ vs : List (Json F), (unicodeTail sep vs).flatMap toAscii = dumpTail sep vs
  | [] => rfl
  | v :: vs => by
      rw [unicodeTail, List.flatMap_append, List.flatMap_append, toAscii_unicodeChars hsep v,
        toAscii_unicodeTail hsep vs, flatMap_toAscii_of_printable hsep.1]
      rfl

theorem toAscii_unicodeItems {sep : Separators} (hsep : sep.Printable) :
    ∀ items : List (String × Json F), (unicodeItems sep items).flatMap toAscii
      = dumpItems sep items
  | [] => rfl
  | (k, v) :: rest => by
      rw [unicodeItems, List.flatMap_append, List.flatMap_append, List.flatMap_append,
        List.flatMap_append, toAscii_unicodeStr, toAscii_unicodeChars hsep v,
        toAscii_unicodeItems hsep rest, flatMap_toAscii_of_printable hsep.1,
        flatMap_toAscii_of_printable hsep.2]
      rfl

end

/-- `json.dumps(ensure_ascii=False)` is injective on values whose dicts
have distinct keys. -/
theorem unicodeDumps_injective {sep : Separators} (hsep : sep.Valid) (hprint : sep.Printable)
    {v w : Json F} (hv : Proper v) (hw : Proper w) (h : unicodeDumps v sep = unicodeDumps w sep) :
    v = w := by
  refine dumps_injective hsep hv hw ?_
  have hchars : unicodeChars sep v = unicodeChars sep w := String.ofList_injective h
  rw [dumps, dumps, ← toAscii_unicodeChars hprint v, hchars, toAscii_unicodeChars hprint w]

end MultiForge.Json
