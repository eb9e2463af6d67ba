/-
MultiForge.Lib.FsCodec — `os.fsencode` and `os.fsdecode`.

A Python string is a sequence of code points. Bytes that are not UTF-8
become lone surrogates, one for each byte, and go back to these bytes, so
that every byte sequence survives (`fsencode_fsdecode`). An ASCII byte is
always a character of its own (`fsdecode_append_ascii`).
-/
import MultiForge.Lib.Utf8

namespace MultiForge.FsCodec

open Utf8

/-- A code point: a character, or the surrogate of a byte. -/
inductive PyChar where
  | scalar (c : Char)
  | escaped (b : UInt8)
  deriving DecidableEq, Repr

abbrev Text := List PyChar

/-! ## 1. The codec -/

def PyChar.encode : PyChar → List UInt8
  | .scalar c => String.utf8EncodeChar c
  | .escaped b => [b]

/-- `os.fsencode(text)` -/
def fsencode (text : Text) : List UInt8 := text.flatMap PyChar.encode

/-- The number of bytes that a first byte announces. -/
def announced (b : UInt8) : Nat :=
  if b.toNat < 0x80 then 1 else if b.toNat < 0xE0 then 2 else if b.toNat < 0xF0 then 3 else 4

/-- The character that bytes begin with. -/
def firstChar? : List UInt8 → Option Char
  | [] => none
  | b :: rest => match decode ((b :: rest).take (announced b)) with
    | some [c] => some c
    | _ => none

/-- `os.fsdecode`, with the number of bytes that are still part of the
last character. -/
def fsdecodeFrom : Nat → List UInt8 → Text
  | _, [] => []
  | skip + 1, _ :: rest => fsdecodeFrom skip rest
  | 0, b :: rest => match firstChar? (b :: rest) with
    | some c => .scalar c :: fsdecodeFrom (c.utf8Size - 1) rest
    | none => .escaped b :: fsdecodeFrom 0 rest

/-- `os.fsdecode(bytes)` -/
def fsdecode (bytes : List UInt8) : Text := fsdecodeFrom 0 bytes

/-- An ASCII text. -/
def ascii (text : String) : Text := text.toList.map .scalar

/-! ## 2. One character -/

theorem length_of_encoded {c : Char} {b : UInt8} {rest : List UInt8}
    (h : Encoded c (b :: rest)) : (b :: rest).length = announced b := by
  have hrange := scalar_range c
  unfold announced
  cases h with
  | one _ h₀ hv => simp only [List.length_cons, List.length_nil]; rw [if_pos (by omega)]
  | two _ b₁ h₀ h₁ hv hv' =>
    simp only [List.length_cons, List.length_nil]
    rw [if_neg (by omega), if_pos (by omega)]
  | three _ b₁ b₂ h₀ h₁ h₂ hv hv' =>
    simp only [List.length_cons, List.length_nil]
    rw [if_neg (by omega), if_neg (by omega), if_pos (by omega)]
  | four _ b₁ b₂ b₃ h₀ h₁ h₂ h₃ hv =>
    simp only [List.length_cons, List.length_nil]
    rw [if_neg (by omega), if_neg (by omega), if_neg (by omega)]

/-- Bytes begin with a character if what their first byte announces is
the character's encoding. -/
theorem firstChar?_iff {b : UInt8} {rest : List UInt8} {c : Char} :
    firstChar? (b :: rest) = some c
      ↔ (b :: rest).take (announced b) = String.utf8EncodeChar c := by
  simp only [firstChar?]
  constructor
  · intro h
    split at h
    · rename_i c' hdecode
      obtain rfl : c' = c := Option.some.inj h
      rw [← encode_decode hdecode]
      simp [encode]
    · cases h
  · intro h
    have hdecode : decode ((b :: rest).take (announced b)) = some [c] := by
      rw [h]
      have hone := decode_encode [c]
      rwa [encode_cons, encode_nil, List.append_nil] at hone
    rw [hdecode]

theorem firstChar?_eq {b : UInt8} {rest : List UInt8} {c : Char}
    (h : firstChar? (b :: rest) = some c) :
    ∃ tail, b :: rest = String.utf8EncodeChar c ++ tail :=
  ⟨(b :: rest).drop (announced b), by
    rw [← firstChar?_iff.mp h, List.take_append_drop]⟩

theorem fsdecodeFrom_drop : ∀ (skip : Nat) (bytes : List UInt8),
    fsdecodeFrom skip bytes = fsdecode (bytes.drop skip)
  | 0, _ => rfl
  | skip + 1, [] => by simp [fsdecode, fsdecodeFrom]
  | skip + 1, _ :: rest => by
      rw [fsdecodeFrom, List.drop_succ_cons]
      exact fsdecodeFrom_drop skip rest

@[simp] theorem fsdecode_nil : fsdecode [] = [] := rfl

/-- A character at the front is decoded. -/
theorem fsdecode_char {b : UInt8} {tail rest : List UInt8} {c : Char}
    (h : firstChar? (b :: tail) = some c) (hbytes : b :: tail = String.utf8EncodeChar c ++ rest) :
    fsdecode (b :: tail) = .scalar c :: fsdecode rest := by
  have hlength := String.length_utf8EncodeChar c
  have hpos := Char.utf8Size_pos c
  have hrest : tail.drop (c.utf8Size - 1) = rest := by
    have hdrop : (b :: tail).drop c.utf8Size = rest := by
      rw [hbytes, ← hlength, List.drop_left]
    obtain ⟨n, hn⟩ : ∃ n, c.utf8Size = n + 1 := ⟨c.utf8Size - 1, by omega⟩
    rw [hn, List.drop_succ_cons] at hdrop
    rw [hn]
    exact hdrop
  unfold fsdecode
  rw [fsdecodeFrom, h]
  simp only
  rw [fsdecodeFrom_drop, hrest]
  rfl

theorem fsdecode_escaped {b : UInt8} {rest : List UInt8} (h : firstChar? (b :: rest) = none) :
    fsdecode (b :: rest) = .escaped b :: fsdecode rest := by
  unfold fsdecode
  rw [fsdecodeFrom, h]

/-- How bytes begin: with a character, or with a byte that is none. -/
theorem fsdecode_cases (b : UInt8) (rest : List UInt8) :
    (∃ c tail, b :: rest = String.utf8EncodeChar c ++ tail
        ∧ fsdecode (b :: rest) = .scalar c :: fsdecode tail)
      ∨ fsdecode (b :: rest) = .escaped b :: fsdecode rest := by
  cases h : firstChar? (b :: rest) with
  | some c =>
    obtain ⟨tail, htail⟩ := firstChar?_eq h
    exact Or.inl ⟨c, tail, htail, fsdecode_char h htail⟩
  | none => exact Or.inr (fsdecode_escaped h)

/-- **Every byte sequence survives.** -/
theorem fsencode_fsdecode (bytes : List UInt8) : fsencode (fsdecode bytes) = bytes := by
  induction hn : bytes.length using Nat.strongRecOn generalizing bytes with
  | ind n ih =>
    cases bytes with
    | nil => rfl
    | cons b rest =>
      rcases fsdecode_cases b rest with ⟨c, tail, hbytes, hdecode⟩ | hdecode
      · have hlength := congrArg List.length hbytes
        have hpos := Char.utf8Size_pos c
        rw [List.length_append, String.length_utf8EncodeChar, List.length_cons] at hlength
        rw [List.length_cons] at hn
        have hrest := ih tail.length (by omega) tail rfl
        rw [hdecode, hbytes]
        exact congrArg (String.utf8EncodeChar c ++ ·) hrest
      · rw [List.length_cons] at hn
        have hrest := ih rest.length (by omega) rest rfl
        rw [hdecode]
        exact congrArg (b :: ·) hrest

/-! ## 3. ASCII -/

/-- Only one-byte characters have an ASCII byte. -/
theorem ascii_of_mem_encodeChar {c : Char} {b : UInt8} (hmem : b ∈ String.utf8EncodeChar c)
    (hb : b.toNat < 0x80) : String.utf8EncodeChar c = [b] := by
  have hc := encoded c
  generalize String.utf8EncodeChar c = bytes at hc hmem
  cases hc with
  | one b₀ h₀ hv => rw [List.mem_singleton.mp hmem]
  | two b₀ b₁ h₀ h₁ hv hv' =>
    simp only [List.mem_cons, List.not_mem_nil, or_false] at hmem
    rcases hmem with rfl | rfl <;> omega
  | three b₀ b₁ b₂ h₀ h₁ h₂ hv hv' =>
    simp only [List.mem_cons, List.not_mem_nil, or_false] at hmem
    rcases hmem with rfl | rfl | rfl <;> omega
  | four b₀ b₁ b₂ b₃ h₀ h₁ h₂ h₃ hv =>
    simp only [List.mem_cons, List.not_mem_nil, or_false] at hmem
    rcases hmem with rfl | rfl | rfl | rfl <;> omega

theorem encodeChar_ascii {b : UInt8} (hb : b.toNat < 0x80) :
    String.utf8EncodeChar (.ofNat b.toNat) = [b] := by
  have hv : (Char.ofNat b.toNat).val.toNat = b.toNat := val_ofNat (by omega)
  exact (encoded _).eq (.one b hv.symm (by omega))

theorem firstChar?_ascii {b : UInt8} (hb : b.toNat < 0x80) (rest : List UInt8) :
    firstChar? (b :: rest) = some (.ofNat b.toNat) := by
  have hone : announced b = 1 := if_pos hb
  rw [firstChar?_iff, hone, encodeChar_ascii hb]
  rfl

/-- An ASCII byte is a character. -/
theorem fsdecode_ascii {b : UInt8} (hb : b.toNat < 0x80) (rest : List UInt8) :
    fsdecode (b :: rest) = .scalar (.ofNat b.toNat) :: fsdecode rest :=
  fsdecode_char (firstChar?_ascii hb rest) (by rw [encodeChar_ascii hb]; rfl)

/-- What bytes begin with does not change where an ASCII byte follows. -/
theorem firstChar?_append_ascii {b : UInt8} (hb : b.toNat < 0x80) (after : List UInt8)
    (x : UInt8) (xs : List UInt8) :
    firstChar? (x :: (xs ++ b :: after)) = firstChar? (x :: xs) := by
  apply Option.ext
  intro c
  rw [firstChar?_iff, firstChar?_iff, ← List.cons_append]
  by_cases hlong : announced x ≤ (x :: xs).length
  · rw [List.take_append_of_le_length hlong]
  · -- the announced bytes run into the ASCII byte, or past the end
    constructor
    · intro h
      have hmem : b ∈ String.utf8EncodeChar c := by
        rw [← h, List.take_append, List.mem_append]
        obtain ⟨n, hn⟩ : ∃ n, announced x - (x :: xs).length = n + 1 :=
          ⟨announced x - (x :: xs).length - 1, by omega⟩
        rw [hn]
        exact Or.inr List.mem_cons_self
      have hlength := congrArg List.length (h.trans (ascii_of_mem_encodeChar hmem hb))
      simp only [List.length_take, List.length_append, List.length_cons, List.length_nil] at hlength
      simp only [List.length_cons] at hlong
      omega
    · intro h
      rw [List.take_of_length_le (by omega)] at h
      have hencoded := encoded c
      rw [← h] at hencoded
      have hlength := length_of_encoded hencoded
      omega

/-- An ASCII byte belongs to no character that began before it. -/
theorem fsdecode_append_ascii {b : UInt8} (hb : b.toNat < 0x80) (after before : List UInt8) :
    fsdecode (before ++ b :: after) = fsdecode before ++ fsdecode (b :: after) := by
  induction hn : before.length using Nat.strongRecOn generalizing before with
  | ind n ih =>
    cases before with
    | nil => rfl
    | cons x xs =>
      have hsame := firstChar?_append_ascii hb after x xs
      cases hfirst : firstChar? (x :: xs) with
      | some c =>
        obtain ⟨tail, htail⟩ := firstChar?_eq hfirst
        have hlength := congrArg List.length htail
        have hpos := Char.utf8Size_pos c
        rw [List.length_append, String.length_utf8EncodeChar, hn] at hlength
        rw [hfirst] at hsame
        have hbytes : x :: (xs ++ b :: after) = String.utf8EncodeChar c ++ (tail ++ b :: after) := by
          rw [← List.append_assoc, ← htail]
          rfl
        rw [fsdecode_char hfirst htail, List.cons_append, fsdecode_char hsame hbytes,
          ih tail.length (by omega) tail rfl]
        rfl
      | none =>
        rw [List.length_cons] at hn
        rw [hfirst] at hsame
        rw [fsdecode_escaped hfirst, List.cons_append, fsdecode_escaped hsame,
          ih xs.length (by omega) xs rfl]
        rfl

/-- ASCII text at the front. -/
theorem fsdecode_asciiBytes : ∀ {text : List Char}, (∀ c ∈ text, c.toNat < 0x80) →
    ∀ rest : List UInt8,
      fsdecode (text.map (fun c => UInt8.ofNat c.toNat) ++ rest) = text.map .scalar ++ fsdecode rest
  | [], _, _ => rfl
  | c :: text, h, rest => by
      have hc := h c List.mem_cons_self
      have hbyte : (UInt8.ofNat c.toNat).toNat = c.toNat := toNat_ofNat (by omega)
      have ih := fsdecode_asciiBytes (fun d hd => h d (List.mem_cons_of_mem c hd)) rest
      rw [List.map_cons, List.cons_append, fsdecode_ascii (by omega), ih, hbyte, Char.ofNat_toNat]
      rfl

end MultiForge.FsCodec
