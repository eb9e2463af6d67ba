/-
MultiForge.Lib.Utf8 — reading UTF-8.

`fold` reads bytes character by character. Where they are not UTF-8 it
passes over the longest valid beginning of a character, or stops when they
end inside one. `decode` fails in both cases, `decodeIgnore` leaves those
bytes out.

Any part of an encoded text decodes to the characters that lie wholly
inside it (`decodeIgnore_slice`). Cut into chunks that are decoded one by
one, a text loses the characters a boundary falls into
(`decodeIgnore_chunks`).
-/
import Mathlib.Data.List.Basic

namespace MultiForge.Utf8

/-! ## 1. Reading and writing -/

def isContinuation (b : UInt8) : Bool := 0x80 ≤ b.toNat && b.toNat ≤ 0xBF

/-- The second bytes a first byte allows: no overlong forms, no surrogates,
nothing past U+10FFFF. -/
def isSecond (b₀ b₁ : UInt8) : Bool :=
  isContinuation b₁
    && (b₀.toNat != 0xE0 || 0xA0 ≤ b₁.toNat) && (b₀.toNat != 0xED || b₁.toNat ≤ 0x9F)
    && (b₀.toNat != 0xF0 || 0x90 ≤ b₁.toNat) && (b₀.toNat != 0xF4 || b₁.toNat ≤ 0x8F)

/-- The low six bits of a continuation byte. -/
def low (b : UInt8) : Nat := b.toNat % 64

def fold {α : Type} (nil truncated : α) (cons : Char → α → α) (skip : α → α) : List UInt8 → α
  | [] => nil
  | b₀ :: rest₀ =>
      if b₀.toNat < 0x80 then
        cons (.ofNat b₀.toNat) (fold nil truncated cons skip rest₀)
      else if b₀.toNat < 0xC2 || 0xF4 < b₀.toNat then
        skip (fold nil truncated cons skip rest₀)
      else match rest₀ with
        | [] => truncated
        | b₁ :: rest₁ =>
            if isSecond b₀ b₁ = false then
              skip (fold nil truncated cons skip (b₁ :: rest₁))
            else if b₀.toNat < 0xE0 then
              cons (.ofNat (b₀.toNat % 32 * 64 + low b₁)) (fold nil truncated cons skip rest₁)
            else match rest₁ with
              | [] => truncated
              | b₂ :: rest₂ =>
                  if isContinuation b₂ = false then
                    skip (fold nil truncated cons skip (b₂ :: rest₂))
                  else if b₀.toNat < 0xF0 then
                    cons (.ofNat (b₀.toNat % 16 * 4096 + low b₁ * 64 + low b₂))
                      (fold nil truncated cons skip rest₂)
                  else match rest₂ with
                    | [] => truncated
                    | b₃ :: rest₃ =>
                        if isContinuation b₃ = false then
                          skip (fold nil truncated cons skip (b₃ :: rest₃))
                        else
                          cons (.ofNat (b₀.toNat % 8 * 262144 + low b₁ * 4096 + low b₂ * 64
                            + low b₃)) (fold nil truncated cons skip rest₃)

/-- `bytes.decode("utf-8")`; `none` is a `UnicodeDecodeError`. -/
def decode (bytes : List UInt8) : Option (List Char) :=
  fold (some []) none (fun c => Option.map (c :: ·)) (fun _ => none) bytes

/-- `bytes.decode("utf-8", errors="ignore")` -/
def decodeIgnore (bytes : List UInt8) : List Char := fold [] [] List.cons id bytes

/-- `bytes.decode("utf-8", errors="replace")` -/
def decodeReplace (bytes : List UInt8) : List Char :=
  fold [] ['\ufffd'] List.cons ('\ufffd' :: ·) bytes

/-- `text.encode("utf-8")` -/
def encode (text : List Char) : List UInt8 := text.flatMap String.utf8EncodeChar

example : decode [0xC3, 0xA9] = some ['é'] := by decide

example : decodeIgnore [0xE2, 0x82, 0x41] = ['A'] := by decide

/-! ## 2. One encoded character -/

section

variable {α : Type} {nil truncated : α} {cons : Char → α → α} {skip : α → α}

theorem toNat_ofNat {n : Nat} (h : n < 256) : (UInt8.ofNat n).toNat = n := by
  simp [Nat.mod_eq_of_lt h]

/-- A scalar value is no surrogate. -/
theorem scalar_range (c : Char) :
    c.val.toNat < 0xD800 ∨ 0xDFFF < c.val.toNat ∧ c.val.toNat < 0x110000 := c.valid

/-- The bytes of a character, by their number. -/
inductive Encoded (c : Char) : List UInt8 → Prop where
  | one (b₀ : UInt8) : b₀.toNat = c.val.toNat → c.val.toNat ≤ 0x7F → Encoded c [b₀]
  | two (b₀ b₁ : UInt8) : b₀.toNat = c.val.toNat / 64 + 0xC0 →
      b₁.toNat = c.val.toNat % 64 + 0x80 → 0x7F < c.val.toNat → c.val.toNat ≤ 0x7FF →
      Encoded c [b₀, b₁]
  | three (b₀ b₁ b₂ : UInt8) : b₀.toNat = c.val.toNat / 4096 + 0xE0 →
      b₁.toNat = c.val.toNat / 64 % 64 + 0x80 → b₂.toNat = c.val.toNat % 64 + 0x80 →
      0x7FF < c.val.toNat → c.val.toNat ≤ 0xFFFF → Encoded c [b₀, b₁, b₂]
  | four (b₀ b₁ b₂ b₃ : UInt8) : b₀.toNat = c.val.toNat / 262144 + 0xF0 →
      b₁.toNat = c.val.toNat / 4096 % 64 + 0x80 → b₂.toNat = c.val.toNat / 64 % 64 + 0x80 →
      b₃.toNat = c.val.toNat % 64 + 0x80 → 0xFFFF < c.val.toNat →
      Encoded c [b₀, b₁, b₂, b₃]

theorem encoded (c : Char) : Encoded c (String.utf8EncodeChar c) := by
  have hrange := scalar_range c
  unfold String.utf8EncodeChar
  simp only
  split
  · exact .one _ (toNat_ofNat (by omega)) (by omega)
  · split
    · refine .two _ _ ?_ (toNat_ofNat (by omega)) (by omega) (by omega)
      rw [toNat_ofNat (by omega)]
      omega
    · split
      · refine .three _ _ _ ?_ (toNat_ofNat (by omega)) (toNat_ofNat (by omega)) (by omega)
          (by omega)
        rw [toNat_ofNat (by omega)]
        omega
      · refine .four _ _ _ _ ?_ (toNat_ofNat (by omega)) (toNat_ofNat (by omega))
          (toNat_ofNat (by omega)) (by omega)
        rw [toNat_ofNat (by omega)]
        omega

theorem ofNat_eq {c : Char} {n : Nat} (h : n = c.val.toNat) : Char.ofNat n = c := by
  rw [h]
  exact Char.ofNat_toNat c

/-- An encoded character is read back. -/
theorem fold_encodeChar (c : Char) (rest : List UInt8) :
    fold nil truncated cons skip (String.utf8EncodeChar c ++ rest)
      = cons c (fold nil truncated cons skip rest) := by
  have hrange := scalar_range c
  have hc := encoded c
  generalize String.utf8EncodeChar c = bytes at hc ⊢
  cases hc with
  | one b₀ h₀ hv =>
    rw [List.cons_append, List.nil_append, fold.eq_def]
    simp only
    rw [if_pos (by omega), ofNat_eq h₀]
  | two b₀ b₁ h₀ h₁ hv hv' =>
    have hsecond : isSecond b₀ b₁ = true := by simp [isSecond, isContinuation]; omega
    have hvalue : b₀.toNat % 32 * 64 + low b₁ = c.val.toNat := by unfold low; omega
    simp only [List.cons_append, List.nil_append]
    rw [fold.eq_def]
    simp only
    rw [if_neg (by omega), if_neg (by simp; omega), if_neg (by simp [hsecond]),
      if_pos (by omega), ofNat_eq hvalue]
  | three b₀ b₁ b₂ h₀ h₁ h₂ hv hv' =>
    have hsecond : isSecond b₀ b₁ = true := by simp [isSecond, isContinuation]; omega
    have hcont : isContinuation b₂ = true := by simp [isContinuation]; omega
    have hvalue : b₀.toNat % 16 * 4096 + low b₁ * 64 + low b₂ = c.val.toNat := by
      unfold low
      omega
    simp only [List.cons_append, List.nil_append]
    rw [fold.eq_def]
    simp only
    rw [if_neg (by omega), if_neg (by simp; omega), if_neg (by simp [hsecond]),
      if_neg (by omega), if_neg (by simp [hcont]), if_pos (by omega), ofNat_eq hvalue]
  | four b₀ b₁ b₂ b₃ h₀ h₁ h₂ h₃ hv =>
    have hsecond : isSecond b₀ b₁ = true := by simp [isSecond, isContinuation]; omega
    have hcont : isContinuation b₂ = true := by simp [isContinuation]; omega
    have hcont' : isContinuation b₃ = true := by simp [isContinuation]; omega
    have hvalue : b₀.toNat % 8 * 262144 + low b₁ * 4096 + low b₂ * 64 + low b₃
        = c.val.toNat := by
      unfold low
      omega
    simp only [List.cons_append, List.nil_append]
    rw [fold.eq_def]
    simp only
    rw [if_neg (by omega), if_neg (by simp; omega), if_neg (by simp [hsecond]),
      if_neg (by omega), if_neg (by simp [hcont]), if_neg (by omega),
      if_neg (by simp [hcont']), ofNat_eq hvalue]

/-- The beginning of a character is cut off. -/
theorem fold_take_encodeChar (c : Char) {k : Nat} (hpos : 0 < k) (hk : k < c.utf8Size) :
    fold nil truncated cons skip ((String.utf8EncodeChar c).take k) = truncated := by
  have hrange := scalar_range c
  have hc := encoded c
  rw [← String.length_utf8EncodeChar] at hk
  generalize String.utf8EncodeChar c = bytes at hc hk ⊢
  cases hc with
  | one b₀ h₀ hv =>
    simp only [List.length_cons, List.length_nil] at hk
    omega
  | two b₀ b₁ h₀ h₁ hv hv' =>
    simp only [List.length_cons, List.length_nil] at hk
    obtain rfl : k = 1 := by omega
    simp only [List.take_succ_cons, List.take_zero]
    rw [fold.eq_def]
    simp only
    rw [if_neg (by omega), if_neg (by simp; omega)]
  | three b₀ b₁ b₂ h₀ h₁ h₂ hv hv' =>
    have hsecond : isSecond b₀ b₁ = true := by simp [isSecond, isContinuation]; omega
    simp only [List.length_cons, List.length_nil] at hk
    obtain rfl | rfl : k = 1 ∨ k = 2 := by omega
    · simp only [List.take_succ_cons, List.take_zero]
      rw [fold.eq_def]
      simp only
      rw [if_neg (by omega), if_neg (by simp; omega)]
    · simp only [List.take_succ_cons, List.take_zero]
      rw [fold.eq_def]
      simp only
      rw [if_neg (by omega), if_neg (by simp; omega), if_neg (by simp [hsecond]),
        if_neg (by omega)]
  | four b₀ b₁ b₂ b₃ h₀ h₁ h₂ h₃ hv =>
    have hsecond : isSecond b₀ b₁ = true := by simp [isSecond, isContinuation]; omega
    have hcont : isContinuation b₂ = true := by simp [isContinuation]; omega
    simp only [List.length_cons, List.length_nil] at hk
    obtain rfl | rfl | rfl : k = 1 ∨ k = 2 ∨ k = 3 := by omega
    · simp only [List.take_succ_cons, List.take_zero]
      rw [fold.eq_def]
      simp only
      rw [if_neg (by omega), if_neg (by simp; omega)]
    · simp only [List.take_succ_cons, List.take_zero]
      rw [fold.eq_def]
      simp only
      rw [if_neg (by omega), if_neg (by simp; omega), if_neg (by simp [hsecond]),
        if_neg (by omega)]
    · simp only [List.take_succ_cons, List.take_zero]
      rw [fold.eq_def]
      simp only
      rw [if_neg (by omega), if_neg (by simp; omega), if_neg (by simp [hsecond]),
        if_neg (by omega), if_neg (by simp [hcont]), if_neg (by omega)]

/-- After its first byte a character has continuation bytes only. -/
theorem continuation_of_mem_drop (c : Char) {k : Nat} (hpos : 0 < k) :
    ∀ b ∈ (String.utf8EncodeChar c).drop k, isContinuation b = true := by
  intro b hb
  replace hb : b ∈ (String.utf8EncodeChar c).drop 1 := by
    obtain ⟨j, rfl⟩ : ∃ j, k = 1 + j := ⟨k - 1, by omega⟩
    rw [← List.drop_drop] at hb
    exact List.mem_of_mem_drop hb
  have hc := encoded c
  generalize String.utf8EncodeChar c = bytes at hc hb
  unfold isContinuation
  cases hc with
  | one b₀ h₀ hv => simp at hb
  | two b₀ b₁ h₀ h₁ hv hv' =>
    simp at hb
    subst hb
    simp
    omega
  | three b₀ b₁ b₂ h₀ h₁ h₂ hv hv' =>
    simp at hb
    rcases hb with rfl | rfl <;> simp <;> omega
  | four b₀ b₁ b₂ b₃ h₀ h₁ h₂ h₃ hv =>
    simp at hb
    rcases hb with rfl | rfl | rfl <;> simp <;> omega

/-- Continuation bytes at the start are passed over one by one. -/
theorem fold_continuation {b : UInt8} (h : isContinuation b = true) (rest : List UInt8) :
    fold nil truncated cons skip (b :: rest) = skip (fold nil truncated cons skip rest) := by
  simp only [isContinuation, Bool.and_eq_true, decide_eq_true_eq] at h
  rw [fold.eq_def]
  simp only
  rw [if_neg (by omega), if_pos (by simp; omega)]

end

/-! ## 3. Texts -/

@[simp] theorem encode_nil : encode [] = [] := rfl

theorem encode_cons (c : Char) (text : List Char) :
    encode (c :: text) = String.utf8EncodeChar c ++ encode text := rfl

theorem encode_append (text text' : List Char) :
    encode (text ++ text') = encode text ++ encode text' := List.flatMap_append

/-- What was encoded is read back. -/
@[simp] theorem decode_encode : ∀ text : List Char, decode (encode text) = some text
  | [] => rfl
  | c :: text => by
      have ih := decode_encode text
      unfold decode at ih ⊢
      rw [encode_cons, fold_encodeChar, ih]
      rfl

theorem encode_injective {text text' : List Char} (h : encode text = encode text') :
    text = text' := by
  have hdecode := congrArg decode h
  simpa using hdecode

theorem decodeIgnore_continuation (rest : List UInt8) : ∀ {bytes : List UInt8},
    (∀ b ∈ bytes, isContinuation b = true) → decodeIgnore (bytes ++ rest) = decodeIgnore rest
  | [], _ => rfl
  | b :: bytes, h => by
      have ih := decodeIgnore_continuation rest fun x hx => h x (List.mem_cons_of_mem b hx)
      unfold decodeIgnore at ih ⊢
      rw [List.cons_append, fold_continuation (h b List.mem_cons_self)]
      exact ih

/-- Two readings of the same bytes stay related if their steps do. -/
theorem fold_rel {α β : Type} {R : α → β → Prop} {nil truncated : α} {cons : Char → α → α}
    {skip : α → α} {nil' truncated' : β} {cons' : Char → β → β} {skip' : β → β}
    (hnil : R nil nil') (htruncated : R truncated truncated')
    (hcons : ∀ c a b, R a b → R (cons c a) (cons' c b)) (hskip : ∀ a b, R a b → R (skip a) (skip' b))
    (bytes : List UInt8) :
    R (fold nil truncated cons skip bytes) (fold nil' truncated' cons' skip' bytes) := by
  have heq := fold.eq_def nil' truncated' cons' skip'
  fun_induction fold nil truncated cons skip bytes with
  | case1 => exact hnil
  | case2 b₀ rest h ih =>
    rw [heq]
    simp only [if_pos h]
    exact hcons _ _ _ ih
  | case3 b₀ rest h h' ih =>
    rw [heq]
    simp only [if_neg h, if_pos h']
    exact hskip _ _ ih
  | case4 b₀ h h' =>
    rw [heq]
    simp only [if_neg h, if_neg h']
    exact htruncated
  | case5 b₀ h h' b₁ rest h'' ih =>
    rw [heq]
    simp only [if_neg h, if_neg h', if_pos h'']
    exact hskip _ _ ih
  | case6 b₀ h h' b₁ rest h'' h₃ ih =>
    rw [heq]
    simp only [if_neg h, if_neg h', if_neg h'', if_pos h₃]
    exact hcons _ _ _ ih
  | case7 b₀ h h' b₁ h'' h₃ =>
    rw [heq]
    simp only [if_neg h, if_neg h', if_neg h'', if_neg h₃]
    exact htruncated
  | case8 b₀ h h' b₁ h'' h₃ b₂ rest h₄ ih =>
    rw [heq]
    simp only [if_neg h, if_neg h', if_neg h'', if_neg h₃, if_pos h₄]
    exact hskip _ _ ih
  | case9 b₀ h h' b₁ h'' h₃ b₂ rest h₄ h₅ ih =>
    rw [heq]
    simp only [if_neg h, if_neg h', if_neg h'', if_neg h₃, if_neg h₄, if_pos h₅]
    exact hcons _ _ _ ih
  | case10 b₀ h h' b₁ h'' h₃ b₂ h₄ h₅ =>
    rw [heq]
    simp only [if_neg h, if_neg h', if_neg h'', if_neg h₃, if_neg h₄, if_neg h₅]
    exact htruncated
  | case11 b₀ h h' b₁ h'' h₃ b₂ h₄ h₅ b₃ rest h₆ ih =>
    rw [heq]
    simp only [if_neg h, if_neg h', if_neg h'', if_neg h₃, if_neg h₄, if_neg h₅, if_pos h₆]
    exact hskip _ _ ih
  | case12 b₀ h h' b₁ h'' h₃ b₂ h₄ h₅ b₃ rest h₆ ih =>
    rw [heq]
    simp only [if_neg h, if_neg h', if_neg h'', if_neg h₃, if_neg h₄, if_neg h₅, if_neg h₆]
    exact hcons _ _ _ ih

/-- Bytes that can be read are read alike. -/
theorem decodeIgnore_of_decode {bytes : List UInt8} {text : List Char}
    (h : decode bytes = some text) : decodeIgnore bytes = text := by
  refine fold_rel (R := fun (a : Option (List Char)) b => ∀ text, a = some text → b = text)
    ?_ ?_ ?_ ?_ bytes text h
  · intro text h
    exact Option.some.inj h
  · intro text h
    cases h
  · intro c a b ih text h
    obtain ⟨rest, ha, rfl⟩ := Option.map_eq_some_iff.mp h
    rw [ih rest ha]
  · intro a b _ text h
    cases h

/-- A character has one encoding. -/
theorem Encoded.eq {c : Char} {bytes bytes' : List UInt8} (h : Encoded c bytes)
    (h' : Encoded c bytes') : bytes = bytes' := by
  have hbyte : ∀ {a b : UInt8}, a.toNat = b.toNat → a = b := UInt8.toNat_inj.mp
  cases h with
  | one b₀ h₀ hv =>
    cases h' with
    | one _ h₀' => rw [hbyte (h₀.trans h₀'.symm)]
    | two | three | four => omega
  | two b₀ b₁ h₀ h₁ hv hv' =>
    cases h' with
    | two _ _ h₀' h₁' => rw [hbyte (h₀.trans h₀'.symm), hbyte (h₁.trans h₁'.symm)]
    | one | three | four => omega
  | three b₀ b₁ b₂ h₀ h₁ h₂ hv hv' =>
    cases h' with
    | three _ _ _ h₀' h₁' h₂' =>
      rw [hbyte (h₀.trans h₀'.symm), hbyte (h₁.trans h₁'.symm), hbyte (h₂.trans h₂'.symm)]
    | one | two | four => omega
  | four b₀ b₁ b₂ b₃ h₀ h₁ h₂ h₃ hv =>
    cases h' with
    | four _ _ _ _ h₀' h₁' h₂' h₃' =>
      rw [hbyte (h₀.trans h₀'.symm), hbyte (h₁.trans h₁'.symm), hbyte (h₂.trans h₂'.symm),
        hbyte (h₃.trans h₃'.symm)]
    | one | two | three => omega

theorem val_ofNat {n : Nat} (h : n < 0xD800 ∨ 0xDFFF < n ∧ n < 0x110000) :
    (Char.ofNat n).val.toNat = n := by
  have hvalid : n.isValidChar := h
  rw [Char.ofNat, dif_pos hvalid]
  rfl

/-- What was read is written back. -/
theorem encode_decode {bytes : List UInt8} {text : List Char} (h : decode bytes = some text) :
    encode text = bytes := by
  unfold decode at h
  have hcons : ∀ {c : Char} {rest : Option (List Char)} {bytes tail : List UInt8} {text : List Char},
      rest.map (c :: ·) = some text → Encoded c bytes →
      (∀ text', rest = some text' → encode text' = tail) → encode text = bytes ++ tail := by
    intro c rest bytes tail text hmap hc htail
    obtain ⟨text', hrest, rfl⟩ := Option.map_eq_some_iff.mp hmap
    rw [encode_cons, htail text' hrest, (encoded c).eq hc]
  induction bytes using fold.induct generalizing text with
  | case1 =>
    rw [fold.eq_def] at h
    cases h
    rfl
  | case2 b₀ rest h₁ ih =>
    rw [fold.eq_def] at h
    simp only [if_pos h₁] at h
    have hv : (Char.ofNat b₀.toNat).val.toNat = b₀.toNat := val_ofNat (by omega)
    exact hcons h (.one b₀ hv.symm (by omega)) fun _ => ih
  | case6 b₀ h₁ h₂ b₁ rest h₃ h₄ ih =>
    rw [fold.eq_def] at h
    simp only [if_neg h₁, if_neg h₂, if_neg h₃, if_pos h₄] at h
    simp [isSecond, isContinuation] at h₂ h₃
    have hv : (Char.ofNat (b₀.toNat % 32 * 64 + low b₁)).val.toNat
        = b₀.toNat % 32 * 64 + b₁.toNat % 64 := val_ofNat (by unfold low; omega)
    exact hcons h (.two b₀ b₁ (by omega) (by omega) (by omega) (by omega)) fun _ => ih
  | case9 b₀ h₁ h₂ b₁ h₃ h₄ b₂ rest h₅ h₆ ih =>
    rw [fold.eq_def] at h
    simp only [if_neg h₁, if_neg h₂, if_neg h₃, if_neg h₄, if_neg h₅, if_pos h₆] at h
    simp [isSecond, isContinuation] at h₂ h₃ h₅
    have hv : (Char.ofNat (b₀.toNat % 16 * 4096 + low b₁ * 64 + low b₂)).val.toNat
        = b₀.toNat % 16 * 4096 + b₁.toNat % 64 * 64 + b₂.toNat % 64 :=
      val_ofNat (by unfold low; omega)
    exact hcons h (.three b₀ b₁ b₂ (by omega) (by omega) (by omega) (by omega) (by omega))
      fun _ => ih
  | case12 b₀ h₁ h₂ b₁ h₃ h₄ b₂ h₅ h₆ b₃ rest h₇ ih =>
    rw [fold.eq_def] at h
    simp only [if_neg h₁, if_neg h₂, if_neg h₃, if_neg h₄, if_neg h₅, if_neg h₆, if_neg h₇] at h
    simp [isSecond, isContinuation] at h₂ h₃ h₅ h₇
    have hv : (Char.ofNat (b₀.toNat % 8 * 262144 + low b₁ * 4096 + low b₂ * 64 + low b₃)).val.toNat
        = b₀.toNat % 8 * 262144 + b₁.toNat % 64 * 4096 + b₂.toNat % 64 * 64 + b₃.toNat % 64 :=
      val_ofNat (by unfold low; omega)
    exact hcons h (.four b₀ b₁ b₂ b₃ (by omega) (by omega) (by omega) (by omega) (by omega))
      fun _ => ih
  | case3 b₀ rest h₁ h₂ ih =>
    rw [fold.eq_def] at h
    simp only [if_neg h₁, if_pos h₂] at h
    cases h
  | case4 b₀ h₁ h₂ =>
    rw [fold.eq_def] at h
    simp only [if_neg h₁, if_neg h₂] at h
    cases h
  | case5 b₀ h₁ h₂ b₁ rest h₃ ih =>
    rw [fold.eq_def] at h
    simp only [if_neg h₁, if_neg h₂, if_pos h₃] at h
    cases h
  | case7 b₀ h₁ h₂ b₁ h₃ h₄ =>
    rw [fold.eq_def] at h
    simp only [if_neg h₁, if_neg h₂, if_neg h₃, if_neg h₄] at h
    cases h
  | case8 b₀ h₁ h₂ b₁ h₃ h₄ b₂ rest h₅ ih =>
    rw [fold.eq_def] at h
    simp only [if_neg h₁, if_neg h₂, if_neg h₃, if_neg h₄, if_pos h₅] at h
    cases h
  | case10 b₀ h₁ h₂ b₁ h₃ h₄ b₂ h₅ h₆ =>
    rw [fold.eq_def] at h
    simp only [if_neg h₁, if_neg h₂, if_neg h₃, if_neg h₄, if_neg h₅, if_neg h₆] at h
    cases h
  | case11 b₀ h₁ h₂ b₁ h₃ h₄ b₂ h₅ h₆ b₃ rest h₇ ih =>
    rw [fold.eq_def] at h
    simp only [if_neg h₁, if_neg h₂, if_neg h₃, if_neg h₄, if_neg h₅, if_neg h₆, if_pos h₇] at h
    cases h
/-! ## 4. Parts of a text -/

/-- The characters of a text, each with the number of bytes before it. -/
def spans : Nat → List Char → List (Nat × Char)
  | _, [] => []
  | a, c :: text => (a, c) :: spans (a + c.utf8Size) text

theorem map_snd_spans : ∀ (a : Nat) (text : List Char), (spans a text).map Prod.snd = text
  | _, [] => rfl
  | a, c :: text => congrArg (c :: ·) (map_snd_spans (a + c.utf8Size) text)

/-- The characters that lie wholly between two positions. -/
def inside (lo hi a : Nat) (text : List Char) : List Char :=
  ((spans a text).filter fun e => lo ≤ e.1 && e.1 + e.2.utf8Size ≤ hi).map Prod.snd

theorem inside_cons (lo hi a : Nat) (c : Char) (text : List Char) :
    inside lo hi a (c :: text)
      = (if lo ≤ a ∧ a + c.utf8Size ≤ hi then [c] else []) ++ inside lo hi (a + c.utf8Size) text := by
  unfold inside
  rw [spans, List.filter_cons]
  by_cases h : lo ≤ a ∧ a + c.utf8Size ≤ hi
  · simp [h]
  · rw [if_neg (by simpa using h), if_neg h]
    rfl

/-- Past the upper position there is nothing. -/
theorem inside_past {lo hi : Nat} : ∀ {a : Nat} (text : List Char), hi ≤ a →
    inside lo hi a text = []
  | _, [], _ => rfl
  | a, c :: text, h => by
      have hsize := Char.utf8Size_pos c
      rw [inside_cons, if_neg (by omega), inside_past text (by omega)]
      rfl

/-- Any part of an encoded text decodes to the characters inside it. -/
theorem decodeIgnore_part (lo hi : Nat) : ∀ (a : Nat) (text : List Char),
    decodeIgnore (((encode text).take (hi - a)).drop (lo - a)) = inside lo hi a text
  | a, [] => by simp [inside, spans, decodeIgnore, fold]
  | a, c :: text => by
      have ih := decodeIgnore_part lo hi (a + c.utf8Size) text
      have hlen := String.length_utf8EncodeChar c
      have hsize := Char.utf8Size_pos c
      rw [encode_cons, inside_cons, List.take_append, hlen]
      by_cases hhi : a + c.utf8Size ≤ hi
      · rw [List.take_of_length_le (by omega), List.drop_append, hlen]
        rw [show hi - a - c.utf8Size = hi - (a + c.utf8Size) by omega,
          show lo - a - c.utf8Size = lo - (a + c.utf8Size) by omega]
        by_cases hlo : lo ≤ a
        · rw [show lo - a = 0 by omega, List.drop_zero, if_pos ⟨hlo, hhi⟩, ← ih]
          exact fold_encodeChar c _
        · rw [decodeIgnore_continuation _ (continuation_of_mem_drop c (by omega)), if_neg (by omega)]
          exact ih
      · rw [show hi - a - c.utf8Size = 0 by omega, List.take_zero, List.append_nil,
          if_neg (by omega), inside_past text (by omega), List.append_nil]
        by_cases hlo : lo ≤ a
        · rw [show lo - a = 0 by omega, List.drop_zero]
          by_cases hzero : hi - a = 0
          · rw [hzero]
            rfl
          · exact fold_take_encodeChar c (by omega) (by omega)
        · have hcont : ∀ b ∈ ((String.utf8EncodeChar c).take (hi - a)).drop (lo - a),
              isContinuation b = true := by
            intro b hb
            rw [List.drop_take] at hb
            exact continuation_of_mem_drop c (by omega) b (List.mem_of_mem_take hb)
          have hskip := decodeIgnore_continuation [] hcont
          rw [List.append_nil] at hskip
          exact hskip

/-! ## 5. Chunks -/

theorem le_of_mem_spans {e : Nat × Char} : ∀ {a : Nat} {text : List Char}, e ∈ spans a text →
    a ≤ e.1 ∧ e.1 + e.2.utf8Size ≤ a + (encode text).length
  | a, c :: text, h => by
      rw [encode_cons, List.length_append, String.length_utf8EncodeChar]
      rcases List.mem_cons.mp h with rfl | h
      · exact ⟨Nat.le_refl _, by simp only; omega⟩
      · have ih := le_of_mem_spans h
        omega

theorem spans_pairwise : ∀ (a : Nat) (text : List Char),
    (spans a text).Pairwise fun e f => e.1 + e.2.utf8Size ≤ f.1
  | _, [] => .nil
  | a, c :: text =>
      .cons (fun _ hf => (le_of_mem_spans hf).1) (spans_pairwise (a + c.utf8Size) text)

/-- A filter is the elements of one kind and then those of another, if
these come in this order. -/
theorem filter_eq_append {α : Type} {p q r : α → Bool} : ∀ {l : List α},
    (∀ a ∈ l, (p a = true ↔ q a = true ∨ r a = true) ∧ ¬ (q a = true ∧ r a = true)) →
    l.Pairwise (fun a b => r a = true → q b = false) →
    l.filter p = l.filter q ++ l.filter r
  | [], _, _ => rfl
  | a :: l, hp, hl => by
      rw [List.pairwise_cons] at hl
      have ih := filter_eq_append (fun b hb => hp b (List.mem_cons_of_mem a hb)) hl.2
      obtain ⟨hiff, hboth⟩ := hp a List.mem_cons_self
      by_cases hq : q a = true
      · have hr : ¬ r a = true := fun hr => hboth ⟨hq, hr⟩
        rw [List.filter_cons_of_pos (hiff.mpr (.inl hq)), List.filter_cons_of_pos hq,
          List.filter_cons_of_neg hr, ih]
        rfl
      · by_cases hr : r a = true
        · have hnone : l.filter q = [] := by
            rw [List.filter_eq_nil_iff]
            intro b hb
            simpa using hl.1 b hb hr
          rw [hnone, List.nil_append] at ih
          rw [List.filter_cons_of_pos (hiff.mpr (.inr hr)), List.filter_cons_of_neg hq,
            List.filter_cons_of_pos hr, hnone, ih]
          rfl
        · rw [List.filter_cons_of_neg (fun h => (hiff.mp h).elim hq hr),
            List.filter_cons_of_neg hq, List.filter_cons_of_neg hr, ih]

/-- The positions at which the chunks end. -/
def boundaries : Nat → List (List UInt8) → List Nat
  | _, [] => []
  | a, chunk :: rest => (a + chunk.length) :: boundaries (a + chunk.length) rest

/-- No position falls into the character. -/
def isWhole (cuts : List Nat) (e : Nat × Char) : Bool :=
  cuts.all fun b => b ≤ e.1 || e.1 + e.2.utf8Size ≤ b

/-- The text without the characters that a position falls into. -/
def uncut (cuts : List Nat) (text : List Char) : List Char :=
  ((spans 0 text).filter (isWhole cuts)).map Prod.snd

theorem le_of_mem_boundaries {b : Nat} : ∀ {a : Nat} {chunks : List (List UInt8)},
    b ∈ boundaries a chunks → a ≤ b
  | a, chunk :: rest, h => by
      rcases List.mem_cons.mp h with rfl | h
      · omega
      · have ih := le_of_mem_boundaries h
        omega

theorem decodeIgnore_chunks_from (text : List Char) : ∀ (lo : Nat) (chunks : List (List UInt8)),
    chunks.flatten = (encode text).drop lo →
    chunks.flatMap decodeIgnore
      = ((spans 0 text).filter fun e => lo ≤ e.1 && isWhole (boundaries lo chunks) e).map Prod.snd
  | lo, [], h => by
      have hnone : (spans 0 text).filter (fun e => lo ≤ e.1 && isWhole (boundaries lo []) e) = [] := by
        rw [List.filter_eq_nil_iff]
        intro e he
        have hspan := le_of_mem_spans he
        have hsize := Char.utf8Size_pos e.2
        have hlen : (encode text).length ≤ lo := List.drop_eq_nil_iff.mp h.symm
        simp [boundaries, isWhole]
        omega
      rw [hnone]
      rfl
  | lo, chunk :: rest, h => by
      rw [List.flatten_cons] at h
      have hrest : rest.flatten = (encode text).drop (lo + chunk.length) := by
        rw [← List.drop_drop, ← h, List.drop_left]
      have hchunk : chunk = ((encode text).take (lo + chunk.length)).drop lo := by
        rw [List.drop_take, ← h, Nat.add_sub_cancel_left, List.take_left]
      have hpart := decodeIgnore_part lo (lo + chunk.length) 0 text
      rw [Nat.sub_zero, Nat.sub_zero, ← hchunk] at hpart
      rw [List.flatMap_cons, hpart, decodeIgnore_chunks_from text _ rest hrest, inside,
        ← List.map_append]
      congr 1
      refine (filter_eq_append (fun e he => ?_) ((spans_pairwise 0 text).imp fun {e f} hef => ?_)).symm
      · have hsize := Char.utf8Size_pos e.2
        have hlater : e.1 + e.2.utf8Size ≤ lo + chunk.length →
            isWhole (boundaries (lo + chunk.length) rest) e = true := by
          intro hend
          rw [isWhole, List.all_eq_true]
          intro b hb
          have hle := le_of_mem_boundaries hb
          simp
          omega
        have hcons : isWhole (boundaries lo (chunk :: rest)) e
            = ((lo + chunk.length ≤ e.1 || e.1 + e.2.utf8Size ≤ lo + chunk.length)
              && isWhole (boundaries (lo + chunk.length) rest) e) := rfl
        rw [hcons]
        simp only [Bool.and_eq_true, Bool.or_eq_true, decide_eq_true_eq]
        constructor
        · constructor
          · rintro ⟨hlo, hside | hside, hwhole⟩
            · exact .inr ⟨hside, hwhole⟩
            · exact .inl ⟨hlo, hside⟩
          · rintro (⟨hlo, hend⟩ | ⟨hlo, hwhole⟩)
            · exact ⟨hlo, .inr hend, hlater hend⟩
            · exact ⟨by omega, .inl hlo, hwhole⟩
        · omega
      · have hsize := Char.utf8Size_pos f.2
        simp only [Bool.and_eq_true, decide_eq_true_eq, Bool.and_eq_false_iff, decide_eq_false_iff_not]
        intro hlo
        exact .inr (by omega)

/-- Chunks decoded one by one lose the characters they cut. -/
theorem decodeIgnore_chunks {text : List Char} {chunks : List (List UInt8)}
    (h : chunks.flatten = encode text) :
    chunks.flatMap decodeIgnore = uncut (boundaries 0 chunks) text := by
  rw [decodeIgnore_chunks_from text 0 chunks h]
  simp [uncut]

end MultiForge.Utf8
