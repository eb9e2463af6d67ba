/-
MultiForge.Json.RoundTrip — what `json.dumps` writes, `json.loads` reads
back.

The scanner is deterministic and greedy, so each lemma says what it does
on a text it can consume followed by an arbitrary continuation: a number
needs a continuation that does not extend it (`NumEnd`), everything else
stops at its own closing character. The main induction follows the three
mutually recursive scanner functions.
-/
import Mathlib.Data.Nat.Digits.Lemmas
import Mathlib.Tactic.FinCases
import MultiForge.Json.Text

namespace MultiForge.Json

/-! ## 1. Digits and numbers -/

theorem digit?_digitChar (d : Fin 10) : digit? (digitChar d) = some d := by
  revert d; decide

/-- What may follow a number literal: nothing that would extend it. -/
def NumEnd (r : List Char) : Prop :=
  ∀ c cs, r = c :: cs → digit? c = none ∧ c ≠ '.' ∧ c ≠ 'e' ∧ c ≠ 'E'

theorem NumEnd.nil : NumEnd [] := by
  intro c cs h
  cases h

theorem NumEnd.cons {c : Char} {cs : List Char}
    (h : digit? c = none ∧ c ≠ '.' ∧ c ≠ 'e' ∧ c ≠ 'E') : NumEnd (c :: cs) := by
  intro c' cs' h'
  cases h'
  exact h

/-- What may follow a run of digits. -/
def DigitEnd (r : List Char) : Prop := ∀ c cs, r = c :: cs → digit? c = none

theorem DigitEnd.cons {c : Char} {cs : List Char} (h : digit? c = none) : DigitEnd (c :: cs) := by
  intro c' cs' h'
  cases h'
  exact h

theorem NumEnd.digitEnd {r : List Char} (h : NumEnd r) : DigitEnd r :=
  fun c cs hr => (h c cs hr).1

theorem scanDigits_append {r : List Char} (hr : DigitEnd r) :
    ∀ ds : List (Fin 10), scanDigits (ds.map digitChar ++ r) = (ds, r)
  | [] => by
      cases r with
      | nil => rfl
      | cons c cs => simp [scanDigits, hr c cs rfl]
  | d :: ds => by
      simp [scanDigits, digit?_digitChar, scanDigits_append hr ds]

theorem scanDigits1_append {r : List Char} (hr : DigitEnd r) (ds : Digits) :
    scanDigits1 (digitsChars ds ++ r) = some (ds, r) := by
  have h := scanDigits_append hr (ds.first :: ds.rest)
  simp only [List.map_cons, List.cons_append] at h
  simp [scanDigits1, digitsChars, h]

theorem digitChar_eq_zero {d : Fin 10} (h : digitChar d = '0') : d = 0 := by
  revert d; decide

theorem natChars_eq_digits (n : Nat) : ∃ ds : List (Fin 10),
    natChars n = ds.map digitChar ∧ ds ≠ [] ∧
    Nat.ofDigits 10 (ds.reverse.map Fin.val) = n ∧ (n ≠ 0 → ∀ d ∈ ds.head?, d ≠ 0) := by
  by_cases hn : n = 0
  · refine ⟨[0], ?_, by simp, by simp [hn], fun h => absurd hn h⟩
    simp only [natChars, hn, if_true]
    rfl
  · refine ⟨(Nat.digits 10 n).reverse.map (Fin.ofNat 10), by simp [natChars, hn], ?_, ?_, ?_⟩
    · simpa using Nat.digits_ne_nil_iff_ne_zero.mpr hn
    · rw [← List.map_reverse, List.reverse_reverse, List.map_map]
      have : (Nat.digits 10 n).map (Fin.val ∘ Fin.ofNat 10) = Nat.digits 10 n := by
        conv_rhs => rw [← List.map_id (Nat.digits 10 n)]
        refine List.map_congr_left fun d hd => ?_
        have := Nat.digits_lt_base (by norm_num : 1 < 10) hd
        simp [Nat.mod_eq_of_lt this]
      rw [this, Nat.ofDigits_digits]
    · intro _ d hd
      have hne : Nat.digits 10 n ≠ [] := Nat.digits_ne_nil_iff_ne_zero.mpr hn
      rw [List.head?_map, List.head?_reverse, List.getLast?_eq_some_getLast hne] at hd
      simp only [Option.map_some, Option.mem_some_iff] at hd
      have h0 := Nat.getLast_digit_ne_zero 10 hn
      have hlt := Nat.digits_lt_base (by norm_num : 1 < 10) (List.getLast_mem hne)
      rintro rfl
      apply h0
      have := congrArg Fin.val hd
      simpa [Nat.mod_eq_of_lt hlt] using this

theorem scanWhole_natChars {r : List Char} (hr : DigitEnd r) (n : Nat) :
    scanWhole (natChars n ++ r) = some (n, r) := by
  obtain ⟨ds, hds, hne, hval, hhead⟩ := natChars_eq_digits n
  by_cases hn : n = 0
  · simp [natChars, hn, scanWhole]
  · obtain ⟨d, ds, rfl⟩ := List.exists_cons_of_ne_nil hne
    have h0 : digitChar d ≠ '0' := fun h => hhead hn d (by simp) (digitChar_eq_zero h)
    have hscan := scanDigits_append hr (d :: ds)
    rw [hds]
    unfold scanWhole
    split
    · rename_i heq
      simp only [List.map_cons, List.cons_append, List.cons.injEq] at heq
      exact absurd heq.1 h0
    · rw [hscan]
      simp only [hval]

theorem scanFrac_none {r : List Char} (h : ∀ c cs, r = c :: cs → c ≠ '.') :
    scanFrac r = (none, r) := by
  unfold scanFrac
  split
  · exact absurd rfl (h _ _ rfl)
  · rfl

theorem scanExp_none {r : List Char} (h : NumEnd r) : scanExp r = (none, r) := by
  cases r with
  | nil => rfl
  | cons c cs =>
    obtain ⟨-, -, he, hE⟩ := h c cs rfl
    simp [scanExp, he, hE]

theorem scanSign_digit (d : Fin 10) (cs : List Char) :
    scanSign (digitChar d :: cs) = (none, digitChar d :: cs) := by
  have h : digitChar d ≠ '-' ∧ digitChar d ≠ '+' := by revert d; decide
  unfold scanSign
  split
  · rename_i heq
    simp only [List.cons.injEq] at heq
    exact absurd heq.1 h.1
  · rename_i heq
    simp only [List.cons.injEq] at heq
    exact absurd heq.1 h.2
  · rfl

theorem scanSign_signChars (sign : Option Bool) (ds : Digits) (r : List Char) :
    scanSign (signChars sign ++ (digitsChars ds ++ r)) = (sign, digitsChars ds ++ r) := by
  cases sign with
  | none => exact scanSign_digit _ _
  | some b => cases b <;> rfl

theorem scanExp_expChars {r : List Char} (hr : NumEnd r) (exp : Option (Option Bool × Digits)) :
    scanExp (expChars exp ++ r) = (exp, r) := by
  cases exp with
  | none => exact scanExp_none hr
  | some e =>
    obtain ⟨sign, ds⟩ := e
    simp [expChars, scanExp, scanSign_signChars, scanDigits1_append hr.digitEnd ds]

/-- The optional exponent and what follows it ends a run of digits, and
does not start with a point. -/
theorem expChars_end {r : List Char} (hr : NumEnd r) (exp : Option (Option Bool × Digits)) :
    DigitEnd (expChars exp ++ r) ∧ ∀ c cs, expChars exp ++ r = c :: cs → c ≠ '.' := by
  cases exp with
  | none => exact ⟨hr.digitEnd, fun c cs h => (hr c cs h).2.1⟩
  | some e =>
    refine ⟨DigitEnd.cons (by decide), ?_⟩
    intro c cs h
    simp only [expChars, List.cons_append, List.cons.injEq] at h
    rw [← h.1]
    decide

theorem scanFrac_fracChars {r : List Char} (hd : DigitEnd r)
    (hp : ∀ c cs, r = c :: cs → c ≠ '.') (frac : Option Digits) :
    scanFrac (fracChars frac ++ r) = (frac, r) := by
  cases frac with
  | none => exact scanFrac_none hp
  | some ds => simp [fracChars, scanFrac, scanDigits1_append hd ds]

theorem fracChars_end {r : List Char} (hd : DigitEnd r) (frac : Option Digits) :
    DigitEnd (fracChars frac ++ r) := by
  cases frac with
  | none => exact hd
  | some ds => exact DigitEnd.cons (by decide)

theorem scanUnsigned_text {F : Type} [PyFloatText F] {r : List Char} (hr : NumEnd r) (neg : Bool)
    (whole : Nat) (frac : Option Digits) (exp : Option (Option Bool × Digits)) :
    scanUnsigned (F := F) neg (natChars whole ++ (fracChars frac ++ (expChars exp ++ r)))
      = some (numberOf neg whole frac exp, r) := by
  obtain ⟨hend, hpoint⟩ := expChars_end hr exp
  simp only [scanUnsigned, scanWhole_natChars (fracChars_end hend frac),
    scanFrac_fracChars hend hpoint, scanExp_expChars hr]

/-! ## 2. Strings -/

theorem hex?_hexChar {n : Nat} (h : n < 16) : hex? (hexChar n) = some n := by
  have : ∀ k : Fin 16, hex? (hexChar k.val) = some k.val := by decide
  exact this ⟨n, h⟩

theorem scanHex4_escape {n : Nat} (h : n < 0x10000) (rest : List Char) :
    scanHex4 (hexChar (n / 4096 % 16) :: hexChar (n / 256 % 16) :: hexChar (n / 16 % 16)
      :: hexChar (n % 16) :: rest) = some (n, rest) := by
  simp only [scanHex4, hex?_hexChar (Nat.mod_lt _ (by decide : 16 > 0))]
  congr 2
  omega

theorem char_not_surrogate (c : Char) : ¬ (0xd800 ≤ c.toNat ∧ c.toNat < 0xe000) := by
  rcases c.valid with h | h
  · intro h'
    have : c.toNat < 0xd800 := h
    omega
  · intro h'
    have : 0xdfff < c.toNat := h.1
    omega

theorem char_lt (c : Char) : c.toNat < 0x110000 := by
  rcases c.valid with h | h
  · have : c.toNat < 0xd800 := h
    omega
  · exact h.2

theorem scanUnicode_basic {c : Char} (h : c.toNat < 0x10000) (rest : List Char) :
    scanUnicode ((unicodeEscape c.toNat).drop 2 ++ rest) = some (c, rest) := by
  have hs := char_not_surrogate c
  simp only [unicodeEscape, List.drop_succ_cons, List.drop_zero, List.cons_append, List.nil_append]
  rw [scanUnicode, scanHex4_escape h]
  simp only
  rw [if_neg (by omega), if_neg (by omega), Char.ofNat_toNat]

theorem scanUnicode_pair {c : Char} (h : ¬ c.toNat < 0x10000) (rest : List Char) :
    scanUnicode ((unicodeEscape (0xd800 + (c.toNat - 0x10000) / 0x400 % 0x400)).drop 2
      ++ (unicodeEscape (0xdc00 + (c.toNat - 0x10000) % 0x400) ++ rest)) = some (c, rest) := by
  have hlt := char_lt c
  simp only [unicodeEscape, List.drop_succ_cons, List.drop_zero, List.cons_append, List.nil_append]
  rw [scanUnicode, scanHex4_escape (by omega)]
  simp only
  rw [if_pos (by omega), scanHex4_escape (by omega)]
  simp only
  rw [if_pos (by omega)]
  have : 0x10000 + (0xd800 + (c.toNat - 0x10000) / 0x400 % 0x400 - 0xd800) * 0x400
      + (0xdc00 + (c.toNat - 0x10000) % 0x400 - 0xdc00) = c.toNat := by omega
  rw [this, Char.ofNat_toNat]

theorem scanString_plain (fuel : Nat) {c : Char} (rest : List Char) (hquote : c ≠ '"')
    (hback : c ≠ '\\') (hctl : 0x20 ≤ c.toNat) :
    scanString (fuel + 1) (c :: rest)
      = (scanString fuel rest).map fun r => (c :: r.1, r.2) := by
  rw [scanString, if_neg]
  · rintro (h | h)
    · omega
    · exact hback h
  · exact fun h => absurd h hquote
  · exact fun _ h => absurd h hback
  · exact fun _ _ h => absurd h hback

/-- An escaped character is read back as the character. -/
theorem scanString_escapeChar (fuel : Nat) (c : Char) (rest : List Char) :
    scanString (fuel + 1) (escapeChar c ++ rest)
      = (scanString fuel rest).map fun r => (c :: r.1, r.2) := by
  unfold escapeChar
  split
  · subst_vars; rfl
  split
  · subst_vars; rfl
  split
  · subst_vars; rfl
  split
  · subst_vars; rfl
  split
  · subst_vars; rfl
  split
  · subst_vars; rfl
  split
  · subst_vars; rfl
  rename_i hquote hback _ _ _ _ _
  split
  · rename_i hprint
    simp only [List.cons_append, List.nil_append]
    exact scanString_plain fuel rest hquote hback hprint.1
  split
  · rename_i h
    have := scanUnicode_basic h rest
    simp only [unicodeEscape, List.drop_succ_cons, List.drop_zero, List.cons_append,
      List.nil_append] at this ⊢
    rw [scanString, this]
  · rename_i h
    have := scanUnicode_pair h rest
    simp only [unicodeEscape, List.drop_succ_cons, List.drop_zero, List.cons_append,
      List.nil_append] at this ⊢
    rw [scanString, this]

theorem escapeChar_ne_nil (c : Char) : 1 ≤ (escapeChar c).length := by
  unfold escapeChar
  repeat' split
  all_goals simp [unicodeEscape]

theorem length_le_escaped : ∀ s : List Char, s.length ≤ (s.flatMap escapeChar).length
  | [] => Nat.le_refl _
  | c :: s => by
      have := length_le_escaped s
      have := escapeChar_ne_nil c
      simp only [List.length_cons, List.flatMap_cons, List.length_append]
      omega

theorem scanString_escaped (r : List Char) : ∀ (s : List Char) (fuel : Nat), s.length < fuel →
    scanString fuel (s.flatMap escapeChar ++ '"' :: r) = some (s, r)
  | _, 0, h => by simp at h
  | [], fuel + 1, _ => rfl
  | c :: s, fuel + 1, h => by
      simp only [List.flatMap_cons, List.append_assoc]
      rw [scanString_escapeChar, scanString_escaped r s fuel (by simpa using h)]
      rfl

/-- What follows the opening quote of a string is read back. -/
theorem scanString_body (s : String) (r : List Char) :
    scanString ((s.toList.flatMap escapeChar ++ '"' :: r).length + 1)
      (s.toList.flatMap escapeChar ++ '"' :: r) = some (s.toList, r) := by
  refine scanString_escaped r _ _ ?_
  have := length_le_escaped s.toList
  simp only [List.length_append]
  omega

/-! ## 3. Values -/

variable {F : Type}

/-- Separators a JSON reader accepts: a comma and a colon, each followed
by insignificant whitespace. -/
structure Separators.Valid (sep : Separators) : Prop where
  item : ∃ ws, sep.item = ',' :: ws ∧ ∀ c ∈ ws, isWs c = true
  key : ∃ ws, sep.key = ':' :: ws ∧ ∀ c ∈ ws, isWs c = true

theorem Separators.default_valid : Separators.default.Valid :=
  ⟨⟨[' '], rfl, by simp [isWs]⟩, ⟨[' '], rfl, by simp [isWs]⟩⟩

theorem Separators.compact_valid : Separators.compact.Valid :=
  ⟨⟨[], rfl, by simp⟩, ⟨[], rfl, by simp⟩⟩

mutual

/-- The dicts in a value have distinct keys, as every Python `dict` has. -/
def Proper : Json F → Prop
  | .list vs => ProperList vs
  | .obj items => (items.map Prod.fst).Nodup ∧ ProperItems items
  | _ => True

def ProperList : List (Json F) → Prop
  | [] => True
  | v :: vs => Proper v ∧ ProperList vs

def ProperItems : List (String × Json F) → Prop
  | [] => True
  | (_, v) :: rest => Proper v ∧ ProperItems rest

end

theorem properItems_iff {items : List (String × Json F)} :
    ProperItems items ↔ ∀ kv ∈ items, Proper kv.2 := by
  induction items with
  | nil => simp [ProperItems]
  | cons kv rest ih =>
    obtain ⟨k, v⟩ := kv
    simp only [ProperItems, ih, List.forall_mem_cons]

theorem properList_iff {vs : List (Json F)} : ProperList vs ↔ ∀ v ∈ vs, Proper v := by
  induction vs with
  | nil => simp [ProperList]
  | cons v rest ih => simp only [ProperList, ih, List.forall_mem_cons]

theorem Proper.lookup {key : String} {v : Json F} : ∀ {items : List (String × Json F)},
    Proper (.obj items) → lookup key items = some v → Proper v
  | [], _, h => nomatch h
  | (k, w) :: rest, hproper, h => by
      obtain ⟨hnodup, hw, hrest⟩ := hproper
      rw [lookup_cons] at h
      split at h
      · cases h
        exact hw
      · exact Proper.lookup ⟨(List.nodup_cons.mp hnodup).2, hrest⟩ h

theorem lookup_eq_none {key : String} : ∀ {items : List (String × Json F)},
    key ∉ items.map Prod.fst → Json.lookup key items = none
  | [], _ => rfl
  | (k, v) :: rest, h => by
      obtain ⟨hk, hrest⟩ := not_or.mp (mt List.mem_cons.mpr h)
      rw [lookup_cons, if_neg (Ne.symm hk)]
      exact lookup_eq_none hrest

theorem proper_erase {key : String} {items : List (String × Json F)} (h : Proper (.obj items)) :
    Proper (.obj (erase key items)) :=
  ⟨h.1.sublist (List.filter_sublist.map _),
    properItems_iff.mpr fun kv hkv => properItems_iff.mp h.2 kv (List.mem_filter.mp hkv).1⟩

theorem keys_insert {k key : String} {v : Json F} : ∀ {items : List (String × Json F)},
    key ∈ (insert k v items).map Prod.fst → key = k ∨ key ∈ items.map Prod.fst
  | [], h => Or.inl (List.mem_singleton.mp h)
  | (j, w) :: rest, h => by
      rw [insert] at h
      split at h
      · exact Or.inr h
      · rcases List.mem_cons.mp h with rfl | h
        · exact Or.inr List.mem_cons_self
        · exact (keys_insert h).imp_right (List.mem_cons_of_mem j)

theorem proper_insert {k : String} {v : Json F} (hv : Proper v) :
    ∀ {items : List (String × Json F)}, Proper (.obj items) → Proper (.obj (insert k v items))
  | [], _ => ⟨List.nodup_singleton k, hv, trivial⟩
  | (j, w) :: rest, ⟨hnodup, hw, hrest⟩ => by
      obtain ⟨hj, hnodup'⟩ := List.nodup_cons.mp hnodup
      rw [insert]
      split
      · exact ⟨hnodup, hv, hrest⟩
      · next hne =>
        obtain ⟨hnd, hitems⟩ := proper_insert (k := k) hv ⟨hnodup', hrest⟩
        exact ⟨List.nodup_cons.mpr ⟨fun hmem => (keys_insert hmem).elim hne hj, hnd⟩, hw, hitems⟩

theorem insert_of_not_mem {k : String} {v : Json F} : ∀ {items : List (String × Json F)},
    k ∉ items.map Prod.fst → insert k v items = items ++ [(k, v)]
  | [], _ => rfl
  | (k', w) :: rest, h => by
      simp only [List.map_cons, List.mem_cons, not_or] at h
      rw [insert, if_neg (fun h' => h.1 h'.symm), insert_of_not_mem h.2]
      rfl

theorem foldl_insert {pairs acc : List (String × Json F)}
    (h : ((acc ++ pairs).map Prod.fst).Nodup) :
    pairs.foldl (fun d kv => insert kv.1 kv.2 d) acc = acc ++ pairs := by
  induction pairs generalizing acc with
  | nil => simp
  | cons kv pairs ih =>
    obtain ⟨k, v⟩ := kv
    have hk : k ∉ acc.map Prod.fst := by
      rw [List.map_append, List.map_cons] at h
      have := List.nodup_append.mp h
      intro hmem
      exact this.2.2 _ hmem _ List.mem_cons_self rfl
    rw [List.foldl_cons, insert_of_not_mem hk, ih (by simpa using h)]
    simp

/-- A dict with distinct keys is read back as it is. -/
theorem dictOf_of_nodup {pairs : List (String × Json F)} (h : (pairs.map Prod.fst).Nodup) :
    dictOf pairs = pairs :=
  foldl_insert (by simpa using h)

theorem skipWs_cons {c : Char} (h : isWs c = false) (cs : List Char) :
    skipWs (c :: cs) = c :: cs := by
  simp [skipWs, h]

theorem skipWs_append {ws r : List Char} (h : ∀ c ∈ ws, isWs c = true) :
    skipWs (ws ++ r) = skipWs r := by
  induction ws with
  | nil => rfl
  | cons c ws ih =>
    simp [skipWs, h c List.mem_cons_self, ih fun c hc => h c (List.mem_cons_of_mem _ hc)]

variable [PyFloatText F]

theorem scanOnce_digit (fuel : Nat) (d : Fin 10) (cs : List Char) :
    scanOnce (F := F) (fuel + 1) (digitChar d :: cs) = scanUnsigned false (digitChar d :: cs) := by
  fin_cases d <;> rfl

theorem scanOnce_minus (fuel : Nat) (d : Fin 10) (cs : List Char) :
    scanOnce (F := F) (fuel + 1) ('-' :: digitChar d :: cs)
      = scanUnsigned true (digitChar d :: cs) := by
  fin_cases d <;> rfl

theorem natChars_cons (n : Nat) : ∃ d cs, natChars n = digitChar d :: cs := by
  obtain ⟨ds, hds, hne, -, -⟩ := natChars_eq_digits n
  obtain ⟨d, ds, rfl⟩ := List.exists_cons_of_ne_nil hne
  exact ⟨d, ds.map digitChar, by simpa using hds⟩

/-- A signed number literal is read back. -/
theorem scanOnce_number (fuel : Nat) {r : List Char} (hr : NumEnd r) (neg : Bool) (whole : Nat)
    (frac : Option Digits) (exp : Option (Option Bool × Digits)) :
    scanOnce (F := F) (fuel + 1) ((if neg then ['-'] else [])
      ++ (natChars whole ++ (fracChars frac ++ (expChars exp ++ r))))
      = some (numberOf neg whole frac exp, r) := by
  obtain ⟨d, cs, hd⟩ := natChars_cons whole
  have h := scanUnsigned_text (F := F) hr neg whole frac exp
  rw [hd] at h ⊢
  cases neg with
  | true =>
    simp only [if_true, List.cons_append, List.nil_append] at h ⊢
    rw [scanOnce_minus, h]
  | false =>
    simp only [Bool.false_eq_true, if_false, List.cons_append, List.nil_append] at h ⊢
    rw [scanOnce_digit, h]

theorem scanOnce_int (fuel : Nat) {r : List Char} (hr : NumEnd r) (n : Int) :
    scanOnce (F := F) (fuel + 1) (intChars n ++ r) = some (.int n, r) := by
  cases n with
  | ofNat n => simpa [intChars, fracChars, expChars, numberOf] using
      scanOnce_number (F := F) fuel hr false n none none
  | negSucc n =>
    have h := scanOnce_number (F := F) fuel hr true (n + 1) none none
    simp only [fracChars, expChars, List.nil_append, if_true] at h
    simp only [intChars, List.cons_append]
    rw [List.cons_append, List.nil_append] at h
    rw [h]
    simp [numberOf, Int.negSucc_eq]

theorem floatChars_decimal (d : Decimal) : floatChars (.decimal d)
    = (if d.neg then ['-'] else [])
      ++ (natChars d.whole ++ (fracChars d.frac ++ expChars d.exp)) := by
  rw [floatChars, List.append_assoc, List.append_assoc]

theorem scanOnce_float (fuel : Nat) {r : List Char} (hr : NumEnd r) (x : F) :
    scanOnce (F := F) (fuel + 1) (floatChars (PyFloatText.repr x) ++ r) = some (.float x, r) := by
  have hx := PyFloatText.ofText_repr x
  cases hrepr : PyFloatText.repr x with
  | nan => rw [hrepr] at hx; rw [← hx]; rfl
  | posInf => rw [hrepr] at hx; rw [← hx]; rfl
  | negInf => rw [hrepr] at hx; rw [← hx]; rfl
  | decimal d =>
    rw [hrepr] at hx
    have h := scanOnce_number (F := F) fuel hr d.neg d.whole d.frac d.exp
    have hnum : numberOf d.neg d.whole d.frac d.exp = .float x := by
      rw [numberOf, dif_pos d.isFloat, ← hx]
    rw [hnum] at h
    rw [floatChars_decimal, List.append_assoc, List.append_assoc, List.append_assoc, h]

/-- The text of a value starts with a character that is neither blank nor
a closing bracket. -/
theorem dumpChars_head (sep : Separators) (v : Json F) :
    ∃ c cs, dumpChars sep v = c :: cs ∧ isWs c = false ∧ c ≠ ']' := by
  have hdigit : ∀ d : Fin 10, isWs (digitChar d) = false ∧ digitChar d ≠ ']' := by decide
  cases v with
  | null => exact ⟨'n', _, rfl, by decide, by decide⟩
  | bool b =>
    cases b with
    | true => exact ⟨'t', _, rfl, by decide, by decide⟩
    | false => exact ⟨'f', _, rfl, by decide, by decide⟩
  | int n =>
    cases n with
    | ofNat n =>
      obtain ⟨d, cs, hd⟩ := natChars_cons n
      exact ⟨digitChar d, cs, hd, hdigit d⟩
    | negSucc n => exact ⟨'-', _, rfl, by decide, by decide⟩
  | float x =>
    cases hx : PyFloatText.repr x with
    | nan => exact ⟨'N', ['a', 'N'], by rw [dumpChars, hx]; rfl, by decide, by decide⟩
    | posInf => exact ⟨'I', ['n', 'f', 'i', 'n', 'i', 't', 'y'], by rw [dumpChars, hx]; rfl, by decide, by decide⟩
    | negInf => exact ⟨'-', ['I', 'n', 'f', 'i', 'n', 'i', 't', 'y'], by rw [dumpChars, hx]; rfl, by decide, by decide⟩
    | decimal d =>
      obtain ⟨e, cs, he⟩ := natChars_cons d.whole
      cases hneg : d.neg with
      | true =>
        refine ⟨'-', natChars d.whole ++ (fracChars d.frac ++ expChars d.exp), ?_, by decide,
          by decide⟩
        rw [dumpChars, hx, floatChars_decimal, hneg]
        rfl
      | false =>
        refine ⟨digitChar e, cs ++ (fracChars d.frac ++ expChars d.exp), ?_, hdigit e⟩
        rw [dumpChars, hx, floatChars_decimal, hneg, he]
        rfl
  | str s => exact ⟨'"', _, rfl, by decide, by decide⟩
  | list vs => cases vs <;> exact ⟨'[', _, rfl, by decide, by decide⟩
  | obj items => cases items <;> exact ⟨'{', _, rfl, by decide, by decide⟩

theorem skipWs_dumpChars (sep : Separators) (v : Json F) (r : List Char) :
    skipWs (dumpChars sep v ++ r) = dumpChars sep v ++ r := by
  obtain ⟨c, cs, h, hws, -⟩ := dumpChars_head sep v
  rw [h]
  simp [skipWs, hws]

theorem numEnd_dumpTail {sep : Separators} (hsep : sep.Valid) (vs : List (Json F))
    (r : List Char) : NumEnd (dumpTail sep vs ++ r) := by
  obtain ⟨ws, hitem, -⟩ := hsep.item
  cases vs with
  | nil => exact NumEnd.cons (by decide)
  | cons v vs =>
    simp only [dumpTail, hitem, List.cons_append]
    exact NumEnd.cons (by decide)

theorem numEnd_dumpItems {sep : Separators} (hsep : sep.Valid) (items : List (String × Json F))
    (r : List Char) : NumEnd (dumpItems sep items ++ r) := by
  obtain ⟨ws, hitem, -⟩ := hsep.item
  cases items with
  | nil => exact NumEnd.cons (by decide)
  | cons kv items =>
    simp only [dumpItems, hitem, List.cons_append]
    exact NumEnd.cons (by decide)

theorem skipWs_strChars (k : String) (r : List Char) :
    skipWs (strChars k ++ r) = strChars k ++ r :=
  skipWs_cons (by decide) _

/-! What the scanner does at each bracket, comma and colon. -/

theorem scanOnce_bracket {fuel : Nat} {rest cs : List Char} {c : Char}
    (h : skipWs rest = c :: cs) (hc : c ≠ ']') :
    scanOnce (F := F) (fuel + 1) ('[' :: rest)
      = (scanValues fuel (c :: cs)).map fun r => (.list r.1, r.2) := by
  rw [scanOnce, h]
  split
  · rename_i heq
    simp only [List.cons.injEq] at heq
    exact absurd heq.1 hc
  · rfl

theorem scanOnce_brace {fuel : Nat} {rest cs : List Char} {c : Char}
    (h : skipWs rest = c :: cs) (hc : c ≠ '}') :
    scanOnce (F := F) (fuel + 1) ('{' :: rest)
      = (scanItems fuel (c :: cs)).map fun r => (.obj (dictOf r.1), r.2) := by
  rw [scanOnce, h]
  split
  · rename_i heq
    simp only [List.cons.injEq] at heq
    exact absurd heq.1 hc
  · rfl

theorem scanValues_last {fuel : Nat} {cs rest : List Char} {v : Json F}
    (h : scanOnce fuel cs = some (v, ']' :: rest)) :
    scanValues (fuel + 1) cs = some ([v], rest) := by
  rw [scanValues, h]
  rfl

theorem scanValues_comma {fuel : Nat} {cs rest : List Char} {v : Json F}
    (h : scanOnce fuel cs = some (v, ',' :: rest)) :
    scanValues (fuel + 1) cs
      = (scanValues fuel (skipWs rest)).map fun r => (v :: r.1, r.2) := by
  rw [scanValues, h]
  rfl

theorem scanItems_last {fuel : Nat} {k : String} {cs rest : List Char} {v : Json F}
    (h : scanOnce fuel (skipWs cs) = some (v, '}' :: rest)) :
    scanItems (fuel + 1) (strChars k ++ ':' :: cs) = some ([(k, v)], rest) := by
  simp only [strChars, List.cons_append, List.append_assoc, List.nil_append]
  rw [scanItems, scanString_body]
  simp only [skipWs_cons (show isWs ':' = false by decide), h,
    skipWs_cons (show isWs '}' = false by decide), String.ofList_toList]

theorem scanItems_comma {fuel : Nat} {k : String} {cs rest : List Char} {v : Json F}
    (h : scanOnce fuel (skipWs cs) = some (v, ',' :: rest)) :
    scanItems (fuel + 1) (strChars k ++ ':' :: cs)
      = (scanItems fuel (skipWs rest)).map fun r => ((k, v) :: r.1, r.2) := by
  simp only [strChars, List.cons_append, List.append_assoc, List.nil_append]
  rw [scanItems, scanString_body]
  simp only [skipWs_cons (show isWs ':' = false by decide), h,
    skipWs_cons (show isWs ',' = false by decide), String.ofList_toList]

mutual

/-- The scanner reads a dumped value back and stops behind it, with any
fuel above the length of the text. -/
theorem scanOnce_dumpChars {sep : Separators} (hsep : sep.Valid) :
    ∀ (v : Json F) (fuel : Nat) (r : List Char), Proper v → (dumpChars sep v).length < fuel →
      NumEnd r → scanOnce fuel (dumpChars sep v ++ r) = some (v, r)
  | _, 0, _, _, h, _ => by simp at h
  | .null, fuel + 1, r, _, _, _ => rfl
  | .bool true, fuel + 1, r, _, _, _ => rfl
  | .bool false, fuel + 1, r, _, _, _ => rfl
  | .int n, fuel + 1, r, _, _, hr => scanOnce_int fuel hr n
  | .float x, fuel + 1, r, _, _, hr => scanOnce_float fuel hr x
  | .str s, fuel + 1, r, _, _, _ => by
      simp only [dumpChars, strChars, List.cons_append, List.append_assoc, List.nil_append,
        scanOnce]
      rw [scanString_body s r]
      simp
  | .list [], fuel + 1, r, _, _, _ => rfl
  | .obj [], fuel + 1, r, _, _, _ => rfl
  | .list (v :: vs), fuel + 1, r, hp, h, _ => by
      simp only [dumpChars, List.length_cons, List.length_append] at h
      have hvs := scanValues_dump hsep v vs fuel r hp.1 hp.2 (by
        simp only [List.length_append]; omega)
      obtain ⟨c, cs, hc, hws, hbr⟩ := dumpChars_head sep v
      simp only [dumpChars, List.cons_append, hc] at hvs ⊢
      rw [scanOnce_bracket (skipWs_cons hws _) hbr, hvs]
      rfl
  | .obj ((k, v) :: items), fuel + 1, r, hp, h, _ => by
      simp only [dumpChars, List.length_cons, List.length_append] at h
      have hitems := scanItems_dump hsep k v items fuel r hp.2.1 hp.2.2 (by
        simp only [List.length_append]; omega)
      simp only [dumpChars, strChars, List.cons_append] at hitems ⊢
      rw [scanOnce_brace (skipWs_cons (by decide) _) (by decide), hitems]
      simp only [Option.map_some, dictOf_of_nodup hp.1]

theorem scanValues_dump {sep : Separators} (hsep : sep.Valid) :
    ∀ (v : Json F) (vs : List (Json F)) (fuel : Nat) (r : List Char), Proper v → ProperList vs →
      (dumpChars sep v ++ dumpTail sep vs).length < fuel →
      scanValues fuel (dumpChars sep v ++ dumpTail sep vs ++ r) = some (v :: vs, r)
  | _, _, 0, _, _, _, h => by simp at h
  | v, [], fuel + 1, r, hv, _, h => by
      simp only [dumpTail, List.length_append, List.length_cons, List.length_nil] at h
      have hone := scanOnce_dumpChars hsep v fuel (']' :: r) hv (by omega)
        (NumEnd.cons (by decide))
      simp only [dumpTail, List.append_assoc, List.cons_append, List.nil_append]
      exact scanValues_last hone
  | v, w :: vs, fuel + 1, r, hv, hvs, h => by
      obtain ⟨ws, hitem, hws⟩ := hsep.item
      simp only [dumpTail, hitem, List.length_append, List.length_cons] at h
      have hone := scanOnce_dumpChars hsep v fuel (dumpTail sep (w :: vs) ++ r) hv
        (by omega) (numEnd_dumpTail hsep _ r)
      have hrest := scanValues_dump hsep w vs fuel r hvs.1 hvs.2
        (by simp only [List.length_append]; omega)
      simp only [dumpTail, hitem, List.cons_append, List.append_assoc] at hone hrest ⊢
      rw [scanValues_comma hone, skipWs_append hws, skipWs_dumpChars, hrest]
      rfl

theorem scanItems_dump {sep : Separators} (hsep : sep.Valid) :
    ∀ (k : String) (v : Json F) (items : List (String × Json F)) (fuel : Nat) (r : List Char),
      Proper v → ProperItems items →
      (strChars k ++ sep.key ++ dumpChars sep v ++ dumpItems sep items).length < fuel →
      scanItems fuel (strChars k ++ sep.key ++ dumpChars sep v ++ dumpItems sep items ++ r)
        = some ((k, v) :: items, r)
  | _, _, _, 0, _, _, _, h => by simp at h
  | k, v, [], fuel + 1, r, hv, _, h => by
      obtain ⟨kws, hkey, hkws⟩ := hsep.key
      simp only [hkey, dumpItems, List.length_append, List.length_cons, List.length_nil] at h
      have hone := scanOnce_dumpChars hsep v fuel ('}' :: r) hv (by omega)
        (NumEnd.cons (by decide))
      simp only [hkey, dumpItems, List.append_assoc, List.cons_append, List.nil_append]
      refine scanItems_last ?_
      rw [skipWs_append hkws, skipWs_dumpChars, hone]
  | k, v, (k', w) :: items, fuel + 1, r, hv, hitems, h => by
      obtain ⟨kws, hkey, hkws⟩ := hsep.key
      obtain ⟨iws, hitem, hiws⟩ := hsep.item
      simp only [hkey, dumpItems, hitem, List.length_append, List.length_cons] at h
      have hone := scanOnce_dumpChars hsep v fuel (dumpItems sep ((k', w) :: items) ++ r) hv
        (by omega) (numEnd_dumpItems hsep _ r)
      have hrest := scanItems_dump hsep k' w items fuel r hitems.1 hitems.2 (by
        simp only [hkey, List.length_append, List.length_cons]; omega)
      simp only [hkey, dumpItems, hitem, List.cons_append, List.append_assoc] at hone hrest ⊢
      have hvalue := (congrArg (scanOnce fuel) ((skipWs_append hkws).trans
        (skipWs_dumpChars sep v _))).trans hone
      rw [scanItems_comma hvalue, skipWs_append hiws, skipWs_strChars, hrest]
      rfl

end

theorem numEnd_ws {r : List Char} (hr : ∀ c ∈ r, isWs c = true) : NumEnd r := by
  cases r with
  | nil => exact NumEnd.nil
  | cons c cs =>
    have hc := hr c List.mem_cons_self
    simp only [isWs, Bool.or_eq_true, decide_eq_true_eq] at hc
    rcases hc with ((rfl | rfl) | rfl) | rfl
    all_goals
      refine NumEnd.cons ?_
      decide

/-- `json.loads` of the text of a value and whitespace after it. -/
theorem loads_dumpChars {sep : Separators} (hsep : sep.Valid) {v : Json F} (hv : Proper v)
    {r : List Char} (hr : ∀ c ∈ r, isWs c = true) :
    loads (String.ofList (dumpChars sep v ++ r)) = some v := by
  have h := scanOnce_dumpChars hsep v ((dumpChars sep v ++ r).length + 1) r hv
    (by rw [List.length_append]; omega) (numEnd_ws hr)
  have hrest : skipWs r = [] := by
    have := skipWs_append (r := []) hr
    rwa [List.append_nil] at this
  unfold loads
  rw [String.toList_ofList, skipWs_dumpChars, h]
  show (if skipWs r = [] then some v else none) = some v
  rw [if_pos hrest]

/-- **`json.loads(json.dumps(v)) == v`**, with either choice of
separators, for every value whose dicts have distinct keys. -/
theorem loads_dumps {sep : Separators} (hsep : sep.Valid) {v : Json F} (hv : Proper v) :
    loads (dumps v sep) = some v := by
  have h := loads_dumpChars hsep hv (r := []) nofun
  rwa [List.append_nil] at h

/-- Where the text of a value ends can be told from the text. -/
theorem dumpChars_append_injective {sep : Separators} (hsep : sep.Valid) {v w : Json F}
    (hv : Proper v) (hw : Proper w) {r r' : List Char} (hr : NumEnd r) (hr' : NumEnd r')
    (h : dumpChars sep v ++ r = dumpChars sep w ++ r') : v = w ∧ r = r' := by
  have hscan := scanOnce_dumpChars hsep v
    ((dumpChars sep v).length + (dumpChars sep w).length + 1) r hv (by omega) hr
  have hscan' := scanOnce_dumpChars hsep w
    ((dumpChars sep v).length + (dumpChars sep w).length + 1) r' hw (by omega) hr'
  rw [h, hscan'] at hscan
  obtain ⟨hvalue, hrest⟩ := Prod.mk.inj (Option.some.inj hscan)
  exact ⟨hvalue.symm, hrest.symm⟩

/-- `json.dumps` is injective on values whose dicts have distinct keys. -/
theorem dumps_injective {sep : Separators} (hsep : sep.Valid) {v w : Json F} (hv : Proper v)
    (hw : Proper w) (h : dumps v sep = dumps w sep) : v = w := by
  have hv' := loads_dumps hsep hv
  rw [h, loads_dumps hsep hw] at hv'
  exact (Option.some.inj hv').symm

end MultiForge.Json
