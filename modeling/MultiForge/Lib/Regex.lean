/-
MultiForge.Lib.Regex — searching text for a regular expression with word
boundaries.

`Matches` is the meaning: from a place of the text the expression can read
up to another place. A place knows the text that is left and whether the
character before it is a word character, which is all a boundary looks at.
`accepts` and `search` decide it by consuming one character after another
(`accepts_iff`, `search_iff`).

`parts` lists what can be left of an expression after some characters. An
expression stops at a text when no part of it reads anything there and it
matches nothing inside; then that text can follow any other one without a
change of what is found (`Stops.search_append`).
-/
import Mathlib.Data.List.Basic

namespace MultiForge

/-- Regular expressions over characters. -/
inductive Regex where
  | empty
  | boundary
  | char (p : Char → Bool)
  | star (p : Char → Bool)
  | seq (r s : Regex)
  | alt (r s : Regex)

/-- Which characters are word characters, as documented for ASCII. -/
structure WordClass where
  isWord : Char → Bool
  ascii : ∀ c, c.toNat < 128 → isWord c = (c.isAlphanum || c == '_')

namespace WordClass

/-- Only ASCII letters, digits and the underscore. -/
def asciiOnly : WordClass where
  isWord c := c.toNat < 128 && (c.isAlphanum || c == '_')
  ascii c h := by simp [h]

/-- Whether the text starts with a word character. -/
def starts (W : WordClass) : List Char → Bool
  | [] => false
  | c :: _ => W.isWord c

end WordClass

namespace Regex

/-! ## 1. Expressions and their meaning -/

/-- The characters of a text. -/
def lit (s : String) : Regex := s.toList.foldr (fun c r => .seq (.char (· == c)) r) .empty

/-- `p+` -/
def plus (p : Char → Bool) : Regex := .seq (.char p) (.star p)

/-- `r?` -/
def opt (r : Regex) : Regex := .alt r .empty

/-- One expression after another. -/
def cat : List Regex → Regex
  | [] => .empty
  | [r] => r
  | r :: rest => .seq r (cat rest)

variable (W : WordClass)

/-- The text that is left, and whether a word character is before it. -/
abbrev Place := Bool × List Char

/-- The expression reads from the first place up to the second. -/
inductive Matches : Regex → Place → Place → Prop
  | empty (p : Place) : Matches .empty p p
  | boundary (after : Bool) (text : List Char) (h : after ≠ W.starts text) :
      Matches .boundary (after, text) (after, text)
  | char {q : Char → Bool} {c : Char} (after : Bool) (text : List Char) (h : q c = true) :
      Matches (.char q) (after, c :: text) (W.isWord c, text)
  | done {q : Char → Bool} (p : Place) : Matches (.star q) p p
  | more {q : Char → Bool} {c : Char} (after : Bool) {text : List Char} {p : Place} (h : q c = true)
      (rest : Matches (.star q) (W.isWord c, text) p) : Matches (.star q) (after, c :: text) p
  | seq {r s : Regex} {p₁ p₂ p₃ : Place} (first : Matches r p₁ p₂) (second : Matches s p₂ p₃) :
      Matches (.seq r s) p₁ p₃
  | left {r s : Regex} {p₁ p₂ : Place} (h : Matches r p₁ p₂) : Matches (.alt r s) p₁ p₂
  | right {r s : Regex} {p₁ p₂ : Place} (h : Matches s p₁ p₂) : Matches (.alt r s) p₁ p₂

/-! ## 2. One character after another -/

/-- Whether the expression can read nothing, between characters that are
word characters or not. -/
def nullable (after before : Bool) : Regex → Bool
  | .empty => true
  | .boundary => after != before
  | .char _ => false
  | .star _ => true
  | .seq r s => nullable after before r && nullable after before s
  | .alt r s => nullable after before r || nullable after before s

/-- What is left of the expression after it has read a character. -/
def step (after before : Bool) (c : Char) : Regex → List Regex
  | .empty => []
  | .boundary => []
  | .char q => if q c then [.empty] else []
  | .star q => if q c then [.star q] else []
  | .seq r s => (step after before c r).map (.seq · s)
      ++ if nullable after before r then step after before c s else []
  | .alt r s => step after before c r ++ step after before c s

/-- Whether the expression matches at a place. -/
def accepts (r : Regex) (after : Bool) : List Char → Bool
  | [] => nullable after false r
  | c :: text => nullable after (W.isWord c) r
      || (step after (W.isWord c) c r).any fun r' => accepts r' (W.isWord c) text

/-- Whether the expression matches at a place or a later one. -/
def searchFrom (r : Regex) (after : Bool) : List Char → Bool
  | [] => accepts W r after []
  | c :: text => accepts W r after (c :: text) || searchFrom r (W.isWord c) text

/-- `re.search` -/
def search (r : Regex) (text : List Char) : Bool := searchFrom W r false text

/-! ## 3. The search decides the meaning -/

variable {W}

/-- At the end of the text an expression can only read nothing. -/
theorem matches_nil_iff {r : Regex} {after : Bool} {p : Place} :
    Matches W r (after, []) p ↔ nullable after false r = true ∧ p = (after, []) := by
  induction r generalizing p with
  | empty =>
    constructor
    · rintro ⟨⟩
      exact ⟨rfl, rfl⟩
    · rintro ⟨-, rfl⟩
      exact .empty _
  | boundary =>
    constructor
    · intro h
      cases h with
      | boundary _ _ hne => exact ⟨by simpa [nullable, WordClass.starts] using hne, rfl⟩
    · rintro ⟨h, rfl⟩
      exact .boundary _ _ (by simpa [nullable, WordClass.starts] using h)
  | char q =>
    constructor
    · intro h
      cases h
    · rintro ⟨h, -⟩
      cases h
  | star q =>
    constructor
    · intro h
      cases h
      exact ⟨rfl, rfl⟩
    · rintro ⟨-, rfl⟩
      exact .done _
  | seq r s ihr ihs =>
    constructor
    · intro h
      cases h with
      | seq first second =>
        obtain ⟨hr, rfl⟩ := ihr.mp first
        obtain ⟨hs, rfl⟩ := ihs.mp second
        exact ⟨by simp [nullable, hr, hs], rfl⟩
    · rintro ⟨h, rfl⟩
      rw [nullable, Bool.and_eq_true] at h
      exact .seq (ihr.mpr ⟨h.1, rfl⟩) (ihs.mpr ⟨h.2, rfl⟩)
  | alt r s ihr ihs =>
    constructor
    · intro h
      cases h with
      | left h =>
        obtain ⟨hr, rfl⟩ := ihr.mp h
        exact ⟨by simp [nullable, hr], rfl⟩
      | right h =>
        obtain ⟨hs, rfl⟩ := ihs.mp h
        exact ⟨by simp [nullable, hs], rfl⟩
    · rintro ⟨h, rfl⟩
      rw [nullable, Bool.or_eq_true] at h
      rcases h with h | h
      · exact .left (ihr.mpr ⟨h, rfl⟩)
      · exact .right (ihs.mpr ⟨h, rfl⟩)

/-- Before a character it reads nothing, or the character and then with
what is left. -/
theorem matches_cons_iff {r : Regex} {after : Bool} {c : Char} {text : List Char} {p : Place} :
    Matches W r (after, c :: text) p ↔
      (nullable after (W.isWord c) r = true ∧ p = (after, c :: text))
      ∨ ∃ r' ∈ step after (W.isWord c) c r, Matches W r' (W.isWord c, text) p := by
  induction r generalizing p with
  | empty =>
    constructor
    · rintro ⟨⟩
      exact .inl ⟨rfl, rfl⟩
    · rintro (⟨-, rfl⟩ | ⟨r', hr', -⟩)
      · exact .empty _
      · cases hr'
  | boundary =>
    constructor
    · intro h
      cases h with
      | boundary _ _ hne => exact .inl ⟨by simpa [nullable, WordClass.starts] using hne, rfl⟩
    · rintro (⟨h, rfl⟩ | ⟨r', hr', -⟩)
      · exact .boundary _ _ (by simpa [nullable, WordClass.starts] using h)
      · cases hr'
  | char q =>
    constructor
    · intro h
      cases h with
      | char _ _ hq => exact .inr ⟨.empty, by simp [step, hq], .empty _⟩
    · rintro (⟨h, -⟩ | ⟨r', hr', h⟩)
      · cases h
      · by_cases hq : q c = true
        · rw [step, if_pos hq, List.mem_singleton] at hr'
          subst hr'
          cases h
          exact .char _ _ hq
        · rw [step, if_neg hq] at hr'
          cases hr'
  | star q =>
    constructor
    · intro h
      cases h with
      | done => exact .inl ⟨rfl, rfl⟩
      | more _ hq rest => exact .inr ⟨.star q, by simp [step, hq], rest⟩
    · rintro (⟨-, rfl⟩ | ⟨r', hr', h⟩)
      · exact .done _
      · by_cases hq : q c = true
        · rw [step, if_pos hq, List.mem_singleton] at hr'
          subst hr'
          exact .more _ hq h
        · rw [step, if_neg hq] at hr'
          cases hr'
  | seq r s ihr ihs =>
    constructor
    · intro h
      cases h with
      | seq first second =>
        rcases ihr.mp first with ⟨hr, rfl⟩ | ⟨r', hr', hrest⟩
        · rcases ihs.mp second with ⟨hs, rfl⟩ | ⟨s', hs', hrest⟩
          · exact .inl ⟨by simp [nullable, hr, hs], rfl⟩
          · exact .inr ⟨s', List.mem_append_right _ (by rwa [if_pos hr]), hrest⟩
        · exact .inr ⟨.seq r' s, List.mem_append_left _ (List.mem_map.mpr ⟨r', hr', rfl⟩),
            .seq hrest second⟩
    · rintro (⟨h, rfl⟩ | ⟨r', hr', h⟩)
      · rw [nullable, Bool.and_eq_true] at h
        exact .seq (ihr.mpr (.inl ⟨h.1, rfl⟩)) (ihs.mpr (.inl ⟨h.2, rfl⟩))
      · rcases List.mem_append.mp hr' with hr' | hr'
        · obtain ⟨r₁, hr₁, rfl⟩ := List.mem_map.mp hr'
          cases h with
          | seq first second => exact .seq (ihr.mpr (.inr ⟨r₁, hr₁, first⟩)) second
        · by_cases hr : nullable after (W.isWord c) r = true
          · rw [if_pos hr] at hr'
            exact .seq (ihr.mpr (.inl ⟨hr, rfl⟩)) (ihs.mpr (.inr ⟨r', hr', h⟩))
          · rw [if_neg hr] at hr'
            cases hr'
  | alt r s ihr ihs =>
    constructor
    · intro h
      cases h with
      | left h =>
        rcases ihr.mp h with ⟨hr, rfl⟩ | ⟨r', hr', hrest⟩
        · exact .inl ⟨by simp [nullable, hr], rfl⟩
        · exact .inr ⟨r', List.mem_append_left _ hr', hrest⟩
      | right h =>
        rcases ihs.mp h with ⟨hs, rfl⟩ | ⟨s', hs', hrest⟩
        · exact .inl ⟨by simp [nullable, hs], rfl⟩
        · exact .inr ⟨s', List.mem_append_right _ hs', hrest⟩
    · rintro (⟨h, rfl⟩ | ⟨r', hr', h⟩)
      · rw [nullable, Bool.or_eq_true] at h
        rcases h with h | h
        · exact .left (ihr.mpr (.inl ⟨h, rfl⟩))
        · exact .right (ihs.mpr (.inl ⟨h, rfl⟩))
      · rcases List.mem_append.mp hr' with hr' | hr'
        · exact .left (ihr.mpr (.inr ⟨r', hr', h⟩))
        · exact .right (ihs.mpr (.inr ⟨r', hr', h⟩))

/-- Consuming characters decides whether there is a match at a place. -/
theorem accepts_iff {r : Regex} {after : Bool} {text : List Char} :
    accepts W r after text = true ↔ ∃ p, Matches W r (after, text) p := by
  induction text generalizing r after with
  | nil =>
    constructor
    · intro h
      exact ⟨(after, []), matches_nil_iff.mpr ⟨h, rfl⟩⟩
    · rintro ⟨p, h⟩
      exact (matches_nil_iff.mp h).1
  | cons c text ih =>
    rw [accepts, Bool.or_eq_true, List.any_eq_true]
    constructor
    · rintro (h | ⟨r', hr', h⟩)
      · exact ⟨_, matches_cons_iff.mpr (.inl ⟨h, rfl⟩)⟩
      · obtain ⟨p, hp⟩ := ih.mp h
        exact ⟨p, matches_cons_iff.mpr (.inr ⟨r', hr', hp⟩)⟩
    · rintro ⟨p, h⟩
      rcases matches_cons_iff.mp h with ⟨h, -⟩ | ⟨r', hr', h⟩
      · exact .inl h
      · exact .inr ⟨r', hr', ih.mpr ⟨p, h⟩⟩

/-- A place in a text: what is before it and what is left. -/
theorem searchFrom_iff {r : Regex} {after : Bool} {text : List Char} :
    searchFrom W r after text = true ↔ ∃ before rest p, text = before ++ rest
      ∧ Matches W r ((before.map W.isWord).getLastD after, rest) p := by
  induction text generalizing after with
  | nil =>
    rw [searchFrom, accepts_iff]
    constructor
    · rintro ⟨p, h⟩
      exact ⟨[], [], p, rfl, h⟩
    · rintro ⟨before, rest, p, heq, h⟩
      obtain ⟨rfl, rfl⟩ := List.append_eq_nil_iff.mp heq.symm
      exact ⟨p, h⟩
  | cons c text ih =>
    rw [searchFrom, Bool.or_eq_true, accepts_iff, ih]
    constructor
    · rintro (⟨p, h⟩ | ⟨before, rest, p, rfl, h⟩)
      · exact ⟨[], c :: text, p, rfl, h⟩
      · refine ⟨c :: before, rest, p, rfl, ?_⟩
        rwa [List.map_cons, List.getLastD_cons]
    · rintro ⟨before, rest, p, heq, h⟩
      cases before with
      | nil =>
        obtain rfl : c :: text = rest := heq
        exact .inl ⟨p, h⟩
      | cons b before =>
        obtain ⟨rfl, rfl⟩ := List.cons_eq_cons.mp heq
        rw [List.map_cons, List.getLastD_cons] at h
        exact .inr ⟨before, rest, p, rfl, h⟩

/-- **`search` finds a match if there is one at some place.** -/
theorem search_iff {r : Regex} {text : List Char} :
    search W r text = true ↔ ∃ before rest p, text = before ++ rest
      ∧ Matches W r ((before.map W.isWord).getLastD false, rest) p := searchFrom_iff

/-! ## 4. What is left of an expression -/

/-- What can be left of the expression after some characters. -/
def parts : Regex → List Regex
  | .empty => [.empty]
  | .boundary => [.boundary]
  | .char q => [.char q, .empty]
  | .star q => [.star q]
  | .seq r s => (parts r).map (.seq · s) ++ parts s
  | .alt r s => .alt r s :: (parts r ++ parts s)

theorem self_mem_parts (r : Regex) : r ∈ parts r := by
  induction r with
  | seq r s ihr _ => exact List.mem_append_left _ (List.mem_map.mpr ⟨r, ihr, rfl⟩)
  | _ => simp [parts]

theorem parts_trans {r r' r'' : Regex} (h' : r' ∈ parts r) (h'' : r'' ∈ parts r') :
    r'' ∈ parts r := by
  induction r generalizing r' r'' with
  | empty =>
    rw [parts, List.mem_singleton] at h'
    subst h'
    exact h''
  | boundary =>
    rw [parts, List.mem_singleton] at h'
    subst h'
    exact h''
  | char q =>
    rcases List.mem_cons.mp h' with rfl | h'
    · exact h''
    · rw [List.mem_singleton.mp h', parts, List.mem_singleton] at h''
      exact h''.symm ▸ List.mem_cons_of_mem _ (List.mem_singleton_self _)
  | star q =>
    rw [parts, List.mem_singleton] at h'
    subst h'
    exact h''
  | seq r s ihr ihs =>
    rcases List.mem_append.mp h' with h' | h'
    · obtain ⟨r₁, hr₁, rfl⟩ := List.mem_map.mp h'
      rcases List.mem_append.mp h'' with h'' | h''
      · obtain ⟨r₂, hr₂, rfl⟩ := List.mem_map.mp h''
        exact List.mem_append_left _ (List.mem_map.mpr ⟨r₂, ihr hr₁ hr₂, rfl⟩)
      · exact List.mem_append_right _ h''
    · exact List.mem_append_right _ (ihs h' h'')
  | alt r s ihr ihs =>
    rcases List.mem_cons.mp h' with rfl | h'
    · exact h''
    · refine List.mem_cons_of_mem _ ?_
      rcases List.mem_append.mp h' with h' | h'
      · exact List.mem_append_left _ (ihr h' h'')
      · exact List.mem_append_right _ (ihs h' h'')

theorem step_mem_parts {r r' : Regex} {after before : Bool} {c : Char}
    (h : r' ∈ step after before c r) : r' ∈ parts r := by
  induction r generalizing r' with
  | empty => cases h
  | boundary => cases h
  | char q =>
    rw [step] at h
    split at h
    · exact List.mem_cons_of_mem _ h
    · cases h
  | star q =>
    rw [step] at h
    split at h
    · exact h
    · cases h
  | seq r s ihr ihs =>
    rcases List.mem_append.mp h with h | h
    · obtain ⟨r₁, hr₁, rfl⟩ := List.mem_map.mp h
      exact List.mem_append_left _ (List.mem_map.mpr ⟨r₁, ihr hr₁, rfl⟩)
    · split at h
      · exact List.mem_append_right _ (ihs h)
      · cases h
  | alt r s ihr ihs =>
    rw [parts]
    refine List.mem_cons_of_mem _ ?_
    rcases List.mem_append.mp h with h | h
    · exact List.mem_append_left _ (ihr h)
    · exact List.mem_append_right _ (ihs h)

/-! ## 5. Texts that end every match -/

/-- Nothing of the expression reads into the text, which starts with no
word character, and it matches nothing in the text's rest. -/
def Stops (r : Regex) : List Char → Prop
  | [] => True
  | c :: text => WordClass.asciiOnly.isWord c = false
      ∧ (∀ r' ∈ parts r, ∀ after, accepts WordClass.asciiOnly r' after (c :: text)
          = nullable after false r')
      ∧ searchFrom WordClass.asciiOnly r false text = false

instance (r : Regex) : (text : List Char) → Decidable (Stops r text)
  | [] => inferInstanceAs (Decidable True)
  | _ :: _ => inferInstanceAs (Decidable (_ ∧ _ ∧ _))

/-- ASCII text. -/
def IsAscii (text : List Char) : Prop := ∀ c ∈ text, c.toNat < 128

theorem isWord_ascii (W : WordClass) {c : Char} (h : c.toNat < 128) :
    W.isWord c = WordClass.asciiOnly.isWord c := by
  rw [W.ascii c h, WordClass.asciiOnly.ascii c h]

theorem accepts_ascii (W : WordClass) {text : List Char} (h : IsAscii text) (r : Regex)
    (after : Bool) : accepts W r after text = accepts WordClass.asciiOnly r after text := by
  induction text generalizing r after with
  | nil => rfl
  | cons c text ih =>
    have hc := isWord_ascii W (h c List.mem_cons_self)
    have ih' := ih fun d hd => h d (List.mem_cons_of_mem _ hd)
    rw [accepts, accepts, hc]
    congr 2
    funext r'
    exact ih' r' _

theorem searchFrom_ascii (W : WordClass) {text : List Char} (h : IsAscii text) (r : Regex)
    (after : Bool) : searchFrom W r after text = searchFrom WordClass.asciiOnly r after text := by
  induction text generalizing after with
  | nil => rfl
  | cons c text ih =>
    have hc := isWord_ascii W (h c List.mem_cons_self)
    rw [searchFrom, searchFrom, accepts_ascii W h, hc,
      ih fun d hd => h d (List.mem_cons_of_mem _ hd)]

variable {stop : List Char}

/-- At a place before the stop a match is one before it. -/
theorem accepts_append (W : WordClass) {r r' : Regex} (hstop : Stops r stop) (hascii : IsAscii stop)
    (hpart : r' ∈ parts r) (after : Bool) (text : List Char) :
    accepts W r' after (text ++ stop) = accepts W r' after text := by
  induction text generalizing r' after with
  | nil =>
    rw [List.nil_append, accepts_ascii W hascii]
    cases stop with
    | nil => rfl
    | cons c rest => exact hstop.2.1 r' hpart after
  | cons c text ih =>
    rw [List.cons_append, accepts, accepts]
    congr 1
    rw [Bool.eq_iff_iff, List.any_eq_true, List.any_eq_true]
    constructor
    · rintro ⟨r₁, hr₁, h⟩
      exact ⟨r₁, hr₁, by rwa [ih (parts_trans hpart (step_mem_parts hr₁))] at h⟩
    · rintro ⟨r₁, hr₁, h⟩
      exact ⟨r₁, hr₁, by rwa [ih (parts_trans hpart (step_mem_parts hr₁))]⟩

theorem searchFrom_append (W : WordClass) {r : Regex} (hstop : Stops r stop)
    (hascii : IsAscii stop) (after : Bool) (text : List Char) :
    searchFrom W r after (text ++ stop) = searchFrom W r after text := by
  induction text generalizing after with
  | nil =>
    rw [List.nil_append]
    cases stop with
    | nil => rfl
    | cons c rest =>
      have haccepts := accepts_append W hstop hascii (self_mem_parts r) after []
      rw [List.nil_append] at haccepts
      rw [searchFrom, searchFrom, haccepts, isWord_ascii W (hascii c List.mem_cons_self),
        hstop.1, searchFrom_ascii W fun d hd => hascii d (List.mem_cons_of_mem _ hd),
        hstop.2.2, Bool.or_false]
  | cons c text ih =>
    have haccepts := accepts_append W hstop hascii (self_mem_parts r) after (c :: text)
    rw [List.cons_append] at haccepts
    rw [List.cons_append, searchFrom, searchFrom, haccepts, ih]

/-- **A text that ends every match** can follow any text without a change
of what is found. -/
theorem Stops.search_append (W : WordClass) {r : Regex} (hstop : Stops r stop)
    (hascii : IsAscii stop) (text : List Char) :
    search W r (text ++ stop) = search W r text := searchFrom_append W hstop hascii false text

end Regex

end MultiForge
