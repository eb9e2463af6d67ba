/-
MultiForge.Lib.Shlex — splitting a command line into words.

`split` is `shlex.split` in its POSIX mode: quotes join, a backslash
escapes, unfinished quotes and escapes are errors. `quote` is
`shlex.quote`; joined with spaces, quoted words split into the words they
quote (`split_quoted`).
-/
import Mathlib.Data.List.Basic

namespace MultiForge.Shlex

/-! ## 1. Splitting -/

def isWhitespace (c : Char) : Bool := c = ' ' || c = '\t' || c = '\r' || c = '\n'

def isQuote (c : Char) : Bool := c = '\'' || c = '"'

/-- Where the scanner is: between words, in a word, inside quotes, or
after a backslash outside or inside quotes. -/
inductive Mode where
  | between
  | word
  | quoted (mark : Char)
  | escaped (mark : Option Char)
  deriving DecidableEq, Repr

/-- A word that is not empty, or that quotes were part of. -/
def emit (token : List Char) (hadQuotes : Bool) (words : List (List Char)) : List (List Char) :=
  if token = [] ∧ hadQuotes = false then words else token :: words

/-- The words from here on; `token` is what the current word has so far,
and `hadQuotes` whether quotes were part of it. -/
def scan (mode : Mode) (token : List Char) (hadQuotes : Bool) :
    List Char → Option (List (List Char))
  | [] => match mode with
    | .between => some []
    | .word => some (emit token hadQuotes [])
    | .quoted _ => none
    | .escaped _ => none
  | c :: cs => match mode with
    | .between =>
        if isWhitespace c then scan .between [] false cs
        else if c = '\\' then scan (.escaped none) [] false cs
        else if isQuote c then scan (.quoted c) [] false cs
        else scan .word [c] false cs
    | .word =>
        if isWhitespace c then (scan .between [] false cs).map (emit token hadQuotes)
        else if isQuote c then scan (.quoted c) token hadQuotes cs
        else if c = '\\' then scan (.escaped none) token hadQuotes cs
        else scan .word (token ++ [c]) hadQuotes cs
    | .quoted mark =>
        if c = mark then scan .word token true cs
        else if c = '\\' ∧ mark = '"' then scan (.escaped (some mark)) token true cs
        else scan (.quoted mark) (token ++ [c]) true cs
    | .escaped none => scan .word (token ++ [c]) hadQuotes cs
    | .escaped (some mark) =>
        -- within quotes a backslash stays unless it escapes one or the mark
        if c ≠ '\\' ∧ c ≠ mark then scan (.quoted mark) (token ++ ['\\', c]) hadQuotes cs
        else scan (.quoted mark) (token ++ [c]) hadQuotes cs

/-- `shlex.split(text)`, or `none` where it raises `ValueError`. -/
def split (text : List Char) : Option (List (List Char)) := scan .between [] false text

/-! ## 2. Quoting -/

/-- The characters that need no quotes: letters, digits and a few marks,
all ASCII. -/
def isSafe (c : Char) : Bool :=
  ('a' ≤ c && c ≤ 'z') || ('A' ≤ c && c ≤ 'Z') || ('0' ≤ c && c ≤ '9')
    || c ∈ ['_', '@', '%', '+', '=', ':', ',', '.', '/', '-']

/-- The replacement of single quotes, one character. -/
def escapeMark (c : Char) : List Char :=
  if c = '\'' then ['\'', '"', '\'', '"', '\''] else [c]

/-- `shlex.quote(text)` -/
def quote (text : List Char) : List Char :=
  if text = [] then ['\'', '\'']
  else if text.all isSafe then text
  else '\'' :: (text.flatMap escapeMark ++ ['\''])

/-! ## 3. Quoted words -/

theorem isSafe_plain {c : Char} (h : isSafe c = true) :
    isWhitespace c = false ∧ isQuote c = false ∧ c ≠ '\\' := by
  have hother : ∀ d : Char, isSafe d = false → c ≠ d := by
    rintro d hd rfl
    rw [h] at hd
    cases hd
  refine ⟨?_, ?_, hother _ (by decide)⟩
  · simp [isWhitespace, hother ' ' (by decide), hother '\t' (by decide), hother '\r' (by decide),
      hother '\n' (by decide)]
  · simp [isQuote, hother '\'' (by decide), hother '"' (by decide)]

/-- Plain characters are added to the word. -/
theorem scan_word_safe (rest : List Char) : ∀ {text : List Char} (token : List Char)
    (hadQuotes : Bool), text.all isSafe = true →
    scan .word token hadQuotes (text ++ rest) = scan .word (token ++ text) hadQuotes rest
  | [], token, hadQuotes, _ => by simp
  | c :: cs, token, hadQuotes, h => by
      rw [List.all_cons, Bool.and_eq_true] at h
      obtain ⟨hspace, hquote, hescape⟩ := isSafe_plain h.1
      have ih := scan_word_safe rest (token ++ [c]) hadQuotes h.2
      rw [List.cons_append, scan]
      simp only [hspace, hquote, hescape, if_false, Bool.false_eq_true]
      rw [ih, List.append_assoc]
      rfl

/-- Inside single quotes the escaped characters are added to the word. -/
theorem scan_quoted_escaped (rest : List Char) : ∀ (text token : List Char) (hadQuotes : Bool),
    scan (.quoted '\'') token hadQuotes (text.flatMap escapeMark ++ '\'' :: rest)
      = scan .word (token ++ text) true rest
  | [], token, hadQuotes => by simp [scan]
  | c :: cs, token, hadQuotes => by
      have ih := scan_quoted_escaped rest cs (token ++ [c]) true
      rw [List.flatMap_cons, List.append_assoc, escapeMark]
      by_cases hc : c = '\''
      · subst hc
        simpa [scan, isWhitespace, isQuote] using ih
      · rw [if_neg hc, List.singleton_append, scan]
        simp only [hc, if_false]
        rw [if_neg (by simp), ih, List.append_assoc]
        rfl

/-- Between words, a quoted word comes to the word it quotes. -/
theorem scan_quote (rest text : List Char) : ∃ hadQuotes, (text = [] → hadQuotes = true)
    ∧ scan .between [] false (quote text ++ rest) = scan .word text hadQuotes rest := by
  unfold quote
  split
  · rename_i hempty
    exact ⟨true, fun _ => rfl, by simp [hempty, scan, isWhitespace, isQuote]⟩
  · rename_i hne
    split
    · rename_i hsafe
      cases text with
      | nil => exact absurd rfl hne
      | cons c cs =>
        rw [List.all_cons, Bool.and_eq_true] at hsafe
        obtain ⟨hspace, hquote, hescape⟩ := isSafe_plain hsafe.1
        refine ⟨false, nofun, ?_⟩
        rw [List.cons_append, scan]
        simp only [hspace, hquote, hescape, if_false, Bool.false_eq_true]
        exact scan_word_safe rest [c] false hsafe.2
    · refine ⟨true, fun _ => rfl, ?_⟩
      have hscan := scan_quoted_escaped rest text [] false
      simpa [scan, isWhitespace, isQuote] using hscan

/-- Words quoted and joined by a space split into the words. -/
theorem split_quoted (first second : List Char) :
    split (quote first ++ ' ' :: quote second) = some [first, second] := by
  obtain ⟨q₁, hfirst, hscan₁⟩ := scan_quote (' ' :: quote second) first
  obtain ⟨q₂, hsecond, hscan₂⟩ := scan_quote [] second
  rw [List.append_nil] at hscan₂
  rw [split, hscan₁, scan, if_pos (by decide), hscan₂, scan]
  have hemit₁ : ∀ ws, emit first q₁ ws = first :: ws := by
    intro ws
    by_cases hempty : first = []
    · simp [emit, hfirst hempty]
    · simp [emit, hempty]
  have hemit₂ : emit second q₂ [] = [second] := by
    by_cases hempty : second = []
    · simp [emit, hsecond hempty]
    · simp [emit, hempty]
  simp [hemit₁, hemit₂]

/-- A quoted text begins and ends with a safe character or a mark, and its
characters are those of the text or marks. -/
theorem quote_ends (text : List Char) :
    (∃ c rest, quote text = c :: rest ∧ (isSafe c = true ∨ c = '\''))
      ∧ ∃ c rest, quote text = rest ++ [c] ∧ (isSafe c = true ∨ c = '\'') := by
  unfold quote
  split
  · exact ⟨⟨_, _, rfl, .inr rfl⟩, ⟨'\'', ['\''], rfl, .inr rfl⟩⟩
  · rename_i hne
    split
    · rename_i hsafe
      have hall := List.all_eq_true.mp hsafe
      constructor
      · cases text with
        | nil => exact absurd rfl hne
        | cons c cs => exact ⟨c, cs, rfl, .inl (hall c List.mem_cons_self)⟩
      · exact ⟨text.getLast hne, text.dropLast, (List.dropLast_concat_getLast hne).symm,
          .inl (hall _ (List.getLast_mem hne))⟩
    · exact ⟨⟨_, _, rfl, .inr rfl⟩, ⟨'\'', '\'' :: text.flatMap escapeMark, rfl, .inr rfl⟩⟩

theorem mem_quote {text : List Char} {c : Char} (h : c ∈ quote text) :
    c ∈ text ∨ c = '\'' ∨ c = '"' := by
  unfold quote at h
  split at h
  · simp at h
    exact .inr (.inl h)
  · split at h
    · exact .inl h
    · simp only [List.mem_cons, List.mem_append, List.mem_flatMap, List.not_mem_nil, or_false] at h
      rcases h with h | ⟨d, hd, hc⟩ | h
      · exact .inr (.inl h)
      · unfold escapeMark at hc
        split at hc
        · simp at hc
          rcases hc with hc | hc | hc | hc | hc
          all_goals simp [hc]
        · exact .inl (List.mem_singleton.mp hc ▸ hd)
      · exact .inr (.inl h)

end MultiForge.Shlex
