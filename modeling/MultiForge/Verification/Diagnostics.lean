/-
MultiForge.Verification.Diagnostics — what a verification check shows of a
command's output (`cli/hooks/verification.py`).

`redactedDiagnostic` takes terminal controls out of the text, replaces
secrets, moves the cursor as a terminal would, and replaces secrets again
where that changed the text. The three replacements of `redactSecrets`
(configured values, the right sides of assignments, tokens by their
prefix) are runs of one scanner, `Substitution.sub`.

`redacted_diagnostic_safe` is what is relied on: no configured secret and
no control is in the result, and a second pass changes nothing. The first
holds of whatever `redactSecrets` returns, since a secret would have to
stand between the brackets of two replacements. For the second pass, each
pattern matches in a redacted text only what is already replaced
(`assignment_stable`, `token_stable`).

Which characters beyond ASCII `re` calls word characters is a parameter.
-/
import MultiForge.Json.PyValue
import MultiForge.Lib.Substitution
import MultiForge.Lib.Utf8

namespace MultiForge.Verification.Diagnostics

open Substitution

/-! ## 1. Characters -/

def isDigit (c : Nat) : Bool := 0x30 ≤ c && c ≤ 0x39

def isUpper (c : Nat) : Bool := 0x41 ≤ c && c ≤ 0x5a

def isLower (c : Nat) : Bool := 0x61 ≤ c && c ≤ 0x7a

/-- `[A-Za-z0-9]` -/
def isAlphanum (c : Nat) : Bool := isUpper c || isLower c || isDigit c

/-- The letters beyond ASCII that ignoring case makes equal to one of it:
`İ`, `ı`, `ſ` and the Kelvin sign. -/
def isCaseVariant (c : Nat) : Bool := c = 0x130 || c = 0x131 || c = 0x17f || c = 0x212a

/-- The characters that `\w` matches. -/
structure WordChars where
  isWord : Nat → Bool
  ascii : ∀ c, c < 128 → isWord c = (isAlphanum c || c = 0x5f)
  variants : ∀ c, isCaseVariant c = true → isWord c = true

/-- Those of ASCII, and the case variants of its letters. -/
def WordChars.asciiOnly : WordChars where
  isWord c := isAlphanum c || c = 0x5f || isCaseVariant c
  ascii c h := by
    have : isCaseVariant c = false := by
      simp only [isCaseVariant, Bool.or_eq_false_iff, decide_eq_false_iff_not]
      omega
    simp [this]
  variants c h := by simp [h]

section

variable (w : WordChars)

/-- `\b` between two characters of a text -/
def boundary (before next : Option Nat) : Bool := before.any w.isWord != next.any w.isWord

/-! ## 2. Terminal controls -/

/-- The end of an OSC control: `(?:[^\x07\x1b\r\n]|\x1b(?!\\))*(?:\x07|\x1b\\)`. -/
def oscLength : PyStr → Option Nat
  | [] => none
  | 0x1b :: 0x5c :: _ => some 2
  | c :: cs =>
      if c = 0x07 then some 1
      else if c = 0x0a || c = 0x0d then none
      else (oscLength cs).map (· + 1)

/-- The end of a string control: `[^\r\n]*?\x1b\\`. -/
def stringLength : PyStr → Option Nat
  | [] => none
  | 0x1b :: 0x5c :: _ => some 2
  | c :: cs => if c = 0x0a || c = 0x0d then none else (stringLength cs).map (· + 1)

/-- The end of a CSI control: its parameters, its intermediate bytes and its
final one. -/
def csiLength (text : PyStr) : Option Nat :=
  let parameters := text.takeWhile fun c => 0x30 ≤ c && c ≤ 0x3f
  let rest := text.drop parameters.length
  let intermediates := rest.takeWhile fun c => 0x20 ≤ c && c ≤ 0x2f
  match rest.drop intermediates.length with
  | c :: _ =>
      if 0x40 ≤ c && c ≤ 0x7e then some (parameters.length + intermediates.length + 1) else none
  | [] => none

/-- A control behind its escape character. -/
def escapeLength : PyStr → Option Nat
  | [] => none
  | c :: cs =>
      if c = 0x28 || c = 0x29 then match cs with
        | d :: _ => if 0x30 ≤ d && d ≤ 0x32 || isUpper d then some 2 else none
        | [] => none
      else if 0x40 ≤ c && c ≤ 0x5f then
        let long :=
          if c = 0x5d then oscLength cs
          else if c = 0x50 || c = 0x5e || c = 0x5f then stringLength cs
          else if c = 0x5b then csiLength cs
          else none
        -- where the longer form does not match, the two-byte sequence does
        some (1 + long.getD 0)
      else none

/-- `_TERMINAL_CONTROL_SEQUENCE_RE` at the beginning of a text -/
def controlLength : PyStr → Option Nat
  | [] => none
  | c :: cs =>
      if c = 0x1b then (escapeLength cs).map (· + 1)
      else if c = 0x9b then some (1 + (csiLength cs).getD 0)
      else if 0x80 ≤ c && c ≤ 0x9f then some 1
      else none

theorem oscLength_le {text : PyStr} {n : Nat} (h : oscLength text = some n) :
    n ≤ text.length := by
  fun_induction oscLength text generalizing n with
  | case1 => cases h
  | case2 => cases h; simp
  | case3 => cases h; simp
  | case4 => cases h
  | case5 c cs _ _ _ ih =>
    obtain ⟨m, hm, rfl⟩ := Option.map_eq_some_iff.mp h
    simpa using ih hm

theorem stringLength_le {text : PyStr} {n : Nat} (h : stringLength text = some n) :
    n ≤ text.length := by
  fun_induction stringLength text generalizing n with
  | case1 => cases h
  | case2 => cases h; simp
  | case3 => cases h
  | case4 c cs _ _ ih =>
    obtain ⟨m, hm, rfl⟩ := Option.map_eq_some_iff.mp h
    simpa using ih hm

theorem csiLength_le {text : PyStr} {n : Nat} (h : csiLength text = some n) :
    n ≤ text.length := by
  unfold csiLength at h
  dsimp only at h
  generalize (text.takeWhile fun c => 0x30 ≤ c && c ≤ 0x3f).length = k at h
  generalize ((text.drop k).takeWhile fun c => 0x20 ≤ c && c ≤ 0x2f).length = m at h
  split at h
  · rename_i c rest hrest
    have hlen := congrArg List.length hrest
    simp only [List.length_drop, List.length_cons] at hlen
    split at h
    · cases h
      omega
    · cases h
  · cases h

theorem escapeLength_le {text : PyStr} {n : Nat} (h : escapeLength text = some n) :
    n ≤ text.length := by
  unfold escapeLength at h
  split at h
  · cases h
  rename_i c cs
  split at h
  · split at h
    · split at h
      · cases h
        simp
      · cases h
    · cases h
  · split at h
    · cases h
      have hlong : ∀ long : Option Nat, (∀ m, long = some m → m ≤ cs.length) →
          1 + long.getD 0 ≤ (c :: cs).length := by
        intro long hle
        cases long with
        | none => simp
        | some m =>
          have := hle m rfl
          simp only [Option.getD_some, List.length_cons]
          omega
      refine hlong _ ?_
      intro m hm
      split at hm
      · exact oscLength_le hm
      · split at hm
        · exact stringLength_le hm
        · split at hm
          · exact csiLength_le hm
          · cases hm
    · cases h

/-- A control is one character or more of the text. -/
theorem controlLength_le {text : PyStr} {n : Nat} (h : controlLength text = some n) :
    0 < n ∧ n ≤ text.length := by
  unfold controlLength at h
  split at h
  · cases h
  rename_i c cs
  split at h
  · obtain ⟨m, hm, rfl⟩ := Option.map_eq_some_iff.mp h
    have := escapeLength_le hm
    simp only [List.length_cons]
    omega
  · split at h
    · cases h
      cases hcsi : csiLength cs with
      | none => simp
      | some m =>
        have := csiLength_le hcsi
        simp only [Option.getD_some, List.length_cons]
        omega
    · split at h
      · cases h
        simp
      · cases h

/-- `_TERMINAL_CONTROL_SEQUENCE_RE` -/
def controls : Pattern Nat where
  find _ text := (controlLength text).map (0, ·)
  sound h := by
    obtain ⟨n, hn, heq⟩ := Option.map_eq_some_iff.mp h
    cases heq
    simpa using controlLength_le hn

/-- The text without its control sequences and escape characters. -/
def stripControls (text : PyStr) : PyStr := (sub controls [] none 0 text).filter (· ≠ 0x1b)

/-! ## 3. Secrets -/

def redacted : PyStr := py "[REDACTED]"

/-- `EnvVar`, as far as redaction looks at it -/
structure EnvVar where
  name : String
  secret : Bool := true

/-- The variables of `CREDENTIALS`, credential by credential. -/
def credentials : List (String × List EnvVar) :=
  [("openrouter", [⟨"OPENROUTER_API_KEY", true⟩, ⟨"OPENROUTER_BASE_URL", false⟩]),
    ("anthropic-api", [⟨"ANTHROPIC_API_KEY", true⟩]),
    ("openai-api", [⟨"OPENAI_API_KEY", true⟩]),
    ("gemini-api", [⟨"GEMINI_API_KEY", true⟩]),
    ("codex-api", [⟨"CODEX_API_KEY", true⟩]),
    ("litellm-remote", [⟨"LITELLM_API_KEY", true⟩, ⟨"LITELLM_BASE_URL", false⟩])]

/-- `os.environ` -/
abbrev Environ := String → Option PyStr

/-- The secrets that are configured, in the order of the registry. -/
def configuredSecrets (environ : Environ) : List PyStr :=
  ((credentials.flatMap Prod.snd).filter (·.secret)).filterMap fun envVar =>
    (environ envVar.name).filter (· ≠ [])

/-- A value to look for. -/
def literal (secret : PyStr) : Pattern Nat where
  find _ text := if secret ≠ [] ∧ secret <+: text then some (0, secret.length) else none
  sound {before text kept cut} h := by
    split at h
    · rename_i hfound
      cases h
      have := List.length_pos_iff.mpr hfound.1
      have := hfound.2.length_le
      omega
    · cases h

/-- A letter of a keyword, in either case. -/
def matchLetter (letter c : Nat) : Bool :=
  c = letter || isLower letter && (c + 0x20 = letter || letter = 0x69 && (c = 0x130 || c = 0x131)
    || letter = 0x73 && c = 0x17f || letter = 0x6b && c = 0x212a)

def matchWord : PyStr → PyStr → Bool
  | [], _ => true
  | letter :: letters, c :: cs => matchLetter letter c && matchWord letters cs
  | _ :: _, [] => false

/-- The keywords of `_SECRET_ASSIGNMENT_RE`. -/
def keywords : List PyStr :=
  [py "api_key", py "api-key", py "apikey", py "token", py "secret", py "password",
    py "authorization"]

/-- How long the keyword at the beginning of a text is. -/
def keywordLength (text : PyStr) : Option Nat :=
  (keywords.find? (matchWord · text)).map List.length

def isLineEnd (c : Nat) : Bool := c = 0x0a || c = 0x0d

/-- `\s*[:=]\s*` and what is left of the line behind it -/
def separator (text : PyStr) : Option (Nat × Nat) :=
  let spaces := (text.takeWhile PyStr.isSpace).length
  match text.drop spaces with
  | c :: cs =>
      if c = 0x3a || c = 0x3d then
        let spaces' := (cs.takeWhile PyStr.isSpace).length
        some (spaces + 1 + spaces', ((cs.drop spaces').takeWhile (!isLineEnd ·)).length)
      else none
  | [] => none

/-- `_SECRET_ASSIGNMENT_RE`: the keyword and the separator stay. -/
def findAssignment (before : Option Nat) (text : PyStr) : Option (Nat × Nat) :=
  if boundary w before text.head? then
    match keywordLength text with
    | none => none
    | some n =>
        if boundary w (text.take n).getLast? (text.drop n).head? then
          (separator (text.drop n)).map fun (kept, cut) => (n + kept, cut)
        else none
  else none

/-- The prefix of a token, and the characters that may follow it. -/
def tokenPrefix : PyStr → Option (Nat × (Nat → Bool))
  | 0x73 :: 0x6b :: 0x2d :: _ => some (3, fun c => isAlphanum c || c = 0x5f || c = 0x2d)
  | 0x67 :: 0x68 :: c :: 0x2d :: _ =>
      if c ∈ py "pousr" then some (4, fun c => isAlphanum c || c = 0x5f || c = 0x2d) else none
  | 0x67 :: 0x68 :: c :: 0x5f :: _ =>
      if c ∈ py "pousr" then some (4, fun c => isAlphanum c || c = 0x5f) else none
  | _ => none

/-- `[\x00-\x09\x0b-\x0c\x0e-\x1f\x7f]` -/
def isOverwriting (c : Nat) : Bool := c < 0x20 && !isLineEnd c || c = 0x7f

/-- `\b(?![\x00-\x09\x0b-\x0c\x0e-\x1f\x7f])` behind a token -/
def endsToken (token rest : PyStr) : Bool :=
  boundary w token.getLast? rest.head? && !rest.head?.any isOverwriting

/-- `_TOKEN_PREFIX_RE`: the longest run behind a prefix that ends as a token
does. -/
def findToken (before : Option Nat) (text : PyStr) : Option (Nat × Nat) :=
  if boundary w before text.head? then
    match tokenPrefix text with
    | none => none
    | some (n, isTokenChar) =>
        let run := ((text.drop n).takeWhile isTokenChar).length
        ((List.range' 8 (run + 1 - 8)).reverse.find? fun len =>
          endsToken w (text.take (n + len)) (text.drop (n + len))).map fun len => (0, n + len)
  else none

end

/-! ## 4. Matches as parts of a text -/

theorem matchWord_iff {letters text : PyStr} : matchWord letters text = true ↔
    ∃ word rest, text = word ++ rest ∧ List.Forall₂ (matchLetter · · = true) letters word := by
  induction letters generalizing text with
  | nil => exact ⟨fun _ => ⟨[], text, rfl, .nil⟩, fun _ => by simp [matchWord]⟩
  | cons letter letters ih =>
    cases text with
    | nil =>
      constructor
      · intro h
        cases h
      · rintro ⟨word, rest, heq, hword⟩
        cases hword
        cases heq
    | cons c cs =>
      rw [matchWord, Bool.and_eq_true, ih]
      constructor
      · rintro ⟨hc, word, rest, rfl, hword⟩
        exact ⟨c :: word, rest, rfl, .cons hc hword⟩
      · rintro ⟨word, rest, heq, hword⟩
        cases hword with
        | cons hc hword =>
          cases heq
          exact ⟨hc, _, rest, rfl, hword⟩

/-- A keyword as it stands in a text. -/
def IsKeyword (word : PyStr) : Prop :=
  ∃ letters ∈ keywords, List.Forall₂ (matchLetter · · = true) letters word

/-- No letter of a keyword matches what another one matches. -/
theorem matchLetter_inj {a b c : Nat} (ha : isLower a ∨ a = 0x5f ∨ a = 0x2d)
    (hb : isLower b ∨ b = 0x5f ∨ b = 0x2d) (hac : matchLetter a c = true)
    (hbc : matchLetter b c = true) : a = b := by
  simp only [matchLetter, isLower, Bool.or_eq_true, Bool.and_eq_true, decide_eq_true_eq] at *
  omega

theorem keyword_letters : ∀ letters ∈ keywords, ∀ letter ∈ letters,
    isLower letter ∨ letter = 0x5f ∨ letter = 0x2d := by
  decide +kernel

theorem keywords_apart : ∀ letters ∈ keywords, ∀ letters' ∈ keywords,
    letters <+: letters' → letters = letters' := by
  decide +kernel

/-- Two keywords that begin one text are the same. -/
theorem prefix_of_matches {letters letters' word word' : PyStr}
    (hletters : ∀ letter ∈ letters, isLower letter ∨ letter = 0x5f ∨ letter = 0x2d)
    (hletters' : ∀ letter ∈ letters', isLower letter ∨ letter = 0x5f ∨ letter = 0x2d)
    (h : List.Forall₂ (matchLetter · · = true) letters word)
    (h' : List.Forall₂ (matchLetter · · = true) letters' word') (hle : word <+: word') :
    letters <+: letters' := by
  induction h generalizing letters' word' with
  | nil => exact List.nil_prefix
  | cons hc _ ih =>
    cases h' with
    | nil => simp at hle
    | cons hc' hrest' =>
      obtain ⟨rfl, htail⟩ := List.cons_prefix_cons.mp hle
      have heq := matchLetter_inj (hletters _ List.mem_cons_self)
        (hletters' _ List.mem_cons_self) hc hc'
      refine List.cons_prefix_cons.mpr ⟨heq, ih ?_ ?_ hrest' htail⟩
      · exact fun letter hmem => hletters letter (List.mem_cons_of_mem _ hmem)
      · exact fun letter hmem => hletters' letter (List.mem_cons_of_mem _ hmem)

theorem keywordLength_iff {text : PyStr} {n : Nat} : keywordLength text = some n ↔
    ∃ word rest, text = word ++ rest ∧ word.length = n ∧ IsKeyword word := by
  constructor
  · intro h
    obtain ⟨letters, hfind, rfl⟩ := Option.map_eq_some_iff.mp h
    have hmatch := List.find?_some hfind
    obtain ⟨word, rest, rfl, hword⟩ := matchWord_iff.mp hmatch
    exact ⟨word, rest, rfl, hword.length_eq.symm, letters, List.mem_of_find?_eq_some hfind, hword⟩
  · rintro ⟨word, rest, rfl, rfl, letters, hletters, hword⟩
    have hmatch : matchWord letters (word ++ rest) = true :=
      matchWord_iff.mpr ⟨word, rest, rfl, hword⟩
    unfold keywordLength
    cases hfind : keywords.find? (matchWord · (word ++ rest)) with
    | none => exact absurd hmatch (by simpa using List.find?_eq_none.mp hfind letters hletters)
    | some letters' =>
      have hmem' := List.mem_of_find?_eq_some hfind
      have hmatch' := List.find?_some hfind
      obtain ⟨word', rest', heq, hword'⟩ := matchWord_iff.mp hmatch'
      have hsame : letters' = letters := by
        obtain hle | hle := List.prefix_or_prefix_of_prefix (List.prefix_append word rest)
          (heq ▸ List.prefix_append word' rest')
        · exact (keywords_apart _ hletters _ hmem' (prefix_of_matches
            (keyword_letters _ hletters) (keyword_letters _ hmem') hword hword' hle)).symm
        · exact keywords_apart _ hmem' _ hletters (prefix_of_matches
            (keyword_letters _ hmem') (keyword_letters _ hletters) hword' hword hle)
      rw [hsame]
      exact congrArg some hword.length_eq

theorem takeWhile_append_stop {p : Nat → Bool} {part rest : PyStr} (hpart : ∀ c ∈ part, p c = true)
    (hrest : ∀ c, rest.head? = some c → p c = false) : (part ++ rest).takeWhile p = part := by
  rw [List.takeWhile_append_of_pos hpart]
  cases rest with
  | nil => simp
  | cons c cs => simp [hrest c rfl]

/-- A separator is blanks, a colon or an equals sign, and blanks. -/
theorem separator_append {spaces t : PyStr} {sep : Nat} (hspaces : ∀ c ∈ spaces, PyStr.isSpace c = true)
    (hsep : sep = 0x3a ∨ sep = 0x3d) : separator (spaces ++ sep :: t) =
      some (spaces.length + 1 + (t.takeWhile PyStr.isSpace).length,
        ((t.dropWhile PyStr.isSpace).takeWhile (!isLineEnd ·)).length) := by
  have hstop : ∀ c, (sep :: t).head? = some c → PyStr.isSpace c = false := by
    intro c hc
    cases hc
    obtain rfl | rfl := hsep <;> rfl
  have hdrop : t.drop (t.takeWhile PyStr.isSpace).length = t.dropWhile PyStr.isSpace := by
    conv_lhs => arg 2; rw [← List.takeWhile_append_dropWhile (p := PyStr.isSpace) (l := t)]
    exact List.drop_left
  unfold separator
  dsimp only
  rw [takeWhile_append_stop hspaces hstop, List.drop_left]
  dsimp only
  rw [if_pos (by simpa using hsep), hdrop]

theorem separator_some {text : PyStr} {r : Nat × Nat} (h : separator text = some r) :
    ∃ spaces sep t, text = spaces ++ sep :: t ∧ (∀ c ∈ spaces, PyStr.isSpace c = true) ∧
      (sep = 0x3a ∨ sep = 0x3d) := by
  have htext := List.takeWhile_append_dropWhile (p := PyStr.isSpace) (l := text)
  have hspaces : ∀ c ∈ text.takeWhile PyStr.isSpace, PyStr.isSpace c = true :=
    fun c hc => List.mem_takeWhile_imp hc
  unfold separator at h
  dsimp only at h
  generalize text.takeWhile PyStr.isSpace = spaces at htext hspaces h
  rw [← htext, List.drop_left] at h
  split at h
  · rename_i c cs hrest
    split at h
    · rename_i hsep
      exact ⟨spaces, c, cs, by rw [← htext, hrest], hspaces, by simpa using hsep⟩
    · cases h
  · cases h

section

variable {w : WordChars}

/-- What decides that an assignment stands at a position: a keyword, blanks
and the sign, with a word boundary on both sides of the keyword. -/
structure AssignmentHead (w : WordChars) (before : Option Nat) (word spaces : PyStr) (sep : Nat) :
    Prop where
  starts : boundary w before word.head? = true
  keyword : IsKeyword word
  ends : boundary w word.getLast? (spaces ++ [sep]).head? = true
  spaces : ∀ c ∈ spaces, PyStr.isSpace c = true
  sep : sep = 0x3a ∨ sep = 0x3d

theorem IsKeyword.cons {word : PyStr} (h : IsKeyword word) : ∃ c cs, word = c :: cs := by
  obtain ⟨letters, hletters, hword⟩ := h
  have hpos : ∀ letters ∈ keywords, letters ≠ [] := by decide +kernel
  cases hword with
  | nil => exact absurd rfl (hpos [] hletters)
  | cons _ _ => exact ⟨_, _, rfl⟩

theorem head?_append_cons (spaces t : PyStr) (sep : Nat) :
    (spaces ++ sep :: t).head? = (spaces ++ [sep]).head? := by
  cases spaces <;> rfl

theorem AssignmentHead.find {before : Option Nat} {word spaces : PyStr} {sep : Nat}
    (h : AssignmentHead w before word spaces sep) (t : PyStr) :
    findAssignment w before (word ++ (spaces ++ sep :: t)) =
      some (word.length + (spaces.length + 1 + (t.takeWhile PyStr.isSpace).length),
        ((t.dropWhile PyStr.isSpace).takeWhile (!isLineEnd ·)).length) := by
  have hhead : (word ++ (spaces ++ sep :: t)).head? = word.head? := by
    obtain ⟨c, cs, rfl⟩ := h.keyword.cons
    rfl
  have hlength : keywordLength (word ++ (spaces ++ sep :: t)) = some word.length :=
    keywordLength_iff.mpr ⟨word, _, rfl, rfl, h.keyword⟩
  unfold findAssignment
  rw [hhead, if_pos h.starts, hlength]
  dsimp only
  rw [List.take_left, List.drop_left, head?_append_cons, if_pos h.ends,
    separator_append h.spaces h.sep]
  rfl

theorem findAssignment_some {before : Option Nat} {text : PyStr} {r : Nat × Nat}
    (h : findAssignment w before text = some r) : ∃ word spaces sep t,
      text = word ++ (spaces ++ sep :: t) ∧ AssignmentHead w before word spaces sep := by
  unfold findAssignment at h
  split at h
  · rename_i hstarts
    split at h
    · cases h
    rename_i n hlength
    obtain ⟨word, rest, rfl, rfl, hword⟩ := keywordLength_iff.mp hlength
    rw [List.take_left, List.drop_left] at h
    split at h
    · rename_i hends
      obtain ⟨r', hsep, -⟩ := Option.map_eq_some_iff.mp h
      obtain ⟨spaces, sep, t, rfl, hspaces, hsep⟩ := separator_some hsep
      refine ⟨word, spaces, sep, t, rfl, ?_, hword, ?_, hspaces, hsep⟩
      · obtain ⟨c, cs, rfl⟩ := hword.cons
        exact hstarts
      · rwa [head?_append_cons] at hends
    · cases h
  · cases h

variable (w)

/-- `_SECRET_ASSIGNMENT_RE` -/
def assignment : Pattern Nat where
  find := findAssignment w
  sound h := by
    obtain ⟨word, spaces, sep, t, rfl, hhead⟩ := findAssignment_some h
    rw [hhead.find] at h
    cases h
    have hsplit := List.takeWhile_append_dropWhile (p := PyStr.isSpace) (l := t)
    have hlen := congrArg List.length hsplit
    have hline := (List.takeWhile_prefix (!isLineEnd ·)
      (l := t.dropWhile PyStr.isSpace)).length_le
    simp only [List.length_append, List.length_cons] at hlen ⊢
    omega

/-! ## 5. Where a match can begin -/

/-- The letters that begin a keyword or a token. -/
def startLetters : PyStr := [0x61, 0x74, 0x73, 0x70, 0x67]

def isStartLetter (c : Nat) : Bool := startLetters.any (matchLetter · c)

/-- A word begins here with one of these letters. -/
def startsMatch (before : Option Nat) (c : Nat) : Bool :=
  boundary w before (some c) && isStartLetter c

/-- No match can begin in a part of a text. -/
def NoStart : Option Nat → PyStr → Prop
  | _, [] => True
  | before, c :: cs => startsMatch w before c = false ∧ NoStart (some c) cs

variable {w}

theorem noStart_append {before : Option Nat} {part part' : PyStr} :
    NoStart w before (part ++ part') ↔ NoStart w before part ∧ NoStart w (after before part) part' := by
  induction part generalizing before with
  | nil => simp [NoStart, after]
  | cons c cs ih => simp [NoStart, after, ih, and_assoc]

theorem noStart_of_letters {before : Option Nat} {part : PyStr}
    (h : ∀ c ∈ part, isStartLetter c = false) : NoStart w before part := by
  induction part generalizing before with
  | nil => trivial
  | cons c cs ih =>
    refine ⟨by simp [startsMatch, h c List.mem_cons_self], ih ?_⟩
    exact fun d hd => h d (List.mem_cons_of_mem c hd)

/-- A pattern whose matches begin with a word. -/
def Starting (w : WordChars) (p : Pattern Nat) : Prop :=
  ∀ before c cs, startsMatch w before c = false → p.find before (c :: cs) = none

theorem NoStart.quiet {p : Pattern Nat} (hp : Starting w p) {before : Option Nat} {part : PyStr}
    (h : NoStart w before part) (rest : PyStr) : Quiet p before part rest := by
  induction part generalizing before with
  | nil => trivial
  | cons c cs ih => exact ⟨hp before c _ h.1, ih h.2⟩

theorem isStartLetter_ascii {c : Nat} (h : isStartLetter c = true) :
    c ∈ [0x61, 0x74, 0x73, 0x70, 0x67, 0x41, 0x54, 0x53, 0x50, 0x47, 0x17f] := by
  simp only [isStartLetter, startLetters, matchLetter, isLower, List.any_cons, List.any_nil,
    Bool.or_eq_true, Bool.and_eq_true, decide_eq_true_eq, List.mem_cons, List.not_mem_nil,
    Bool.false_eq_true, or_false, true_and] at h ⊢
  omega

theorem isStartLetter_space {c : Nat} (h : PyStr.isSpace c = true) : isStartLetter c = false := by
  cases hstart : isStartLetter c with
  | false => rfl
  | true =>
    have hmem := isStartLetter_ascii hstart
    simp only [PyStr.isSpace, Bool.or_eq_true, Bool.and_eq_true, decide_eq_true_eq,
      List.mem_cons, List.not_mem_nil, or_false] at h hmem
    omega

theorem isStartLetter_lineEnd {c : Nat} (h : isLineEnd c = true) : isStartLetter c = false := by
  simp only [isLineEnd, Bool.or_eq_true, decide_eq_true_eq] at h
  obtain rfl | rfl := h <;> rfl

theorem redacted_eq : redacted =
    0x5b :: ([0x52, 0x45, 0x44, 0x41, 0x43, 0x54, 0x45, 0x44] ++ [0x5d]) := by
  decide +kernel

/-- No match begins in what stands for a secret. -/
theorem noStart_redacted (before : Option Nat) : NoStart w before redacted := by
  have hword : ∀ c d, isUpper c = true → isUpper d = true → boundary w (some c) (some d) = false := by
    intro c d hc hd
    have hlt : ∀ c, isUpper c = true → w.isWord c = true := by
      intro c hc
      have hascii : c < 128 := by
        simp only [isUpper, Bool.and_eq_true, decide_eq_true_eq] at hc
        omega
      simp [w.ascii c hascii, isAlphanum, hc]
    simp [boundary, hlt c hc, hlt d hd]
  rw [redacted_eq]
  simp only [List.cons_append, List.nil_append, NoStart, startsMatch]
  simp [hword, isUpper, isStartLetter, startLetters, matchLetter, isLower]

/-- The characters of a keyword are letters, or stand where none of them
begins. -/
def inWord : PyStr → Bool
  | a :: b :: rest => (!startLetters.contains b || (a != 0x2d && b != 0x2d)) && inWord (b :: rest)
  | _ => true

theorem keywords_inWord : ∀ letters ∈ keywords, inWord letters = true := by
  decide +kernel

theorem isWord_of_matchLetter {letter c : Nat}
    (hletter : isLower letter ∨ letter = 0x5f ∨ letter = 0x2d) (hne : letter ≠ 0x2d)
    (h : matchLetter letter c = true) : w.isWord c = true := by
  by_cases hvariant : isCaseVariant c = true
  · exact w.variants c hvariant
  · simp only [matchLetter, isLower, isCaseVariant, Bool.or_eq_true, Bool.and_eq_true,
      decide_eq_true_eq] at hletter h hvariant
    have hlt : c < 128 := by omega
    rw [w.ascii c hlt]
    simp only [isAlphanum, isUpper, isLower, isDigit, Bool.or_eq_true, Bool.and_eq_true,
      decide_eq_true_eq]
    omega

theorem noStart_of_inWord {letter c : Nat} {letters word : PyStr}
    (hletters : ∀ a ∈ letter :: letters, isLower a ∨ a = 0x5f ∨ a = 0x2d)
    (hin : inWord (letter :: letters) = true) (hc : matchLetter letter c = true)
    (h : List.Forall₂ (matchLetter · · = true) letters word) : NoStart w (some c) word := by
  induction h generalizing letter c with
  | nil => trivial
  | @cons letter' c' letters word hc' _ ih =>
    simp only [inWord, Bool.and_eq_true, Bool.or_eq_true] at hin
    have hlettersTail : ∀ a ∈ letter' :: letters, isLower a ∨ a = 0x5f ∨ a = 0x2d :=
      fun a ha => hletters a (List.mem_cons_of_mem _ ha)
    refine ⟨?_, ih hlettersTail hin.2 hc'⟩
    obtain hstart | ⟨hne, hne'⟩ := hin.1
    · -- the letter is none of those that begin a match
      have : isStartLetter c' = false := by
        rw [isStartLetter, List.any_eq_false]
        intro start hmem hmatch
        have hlower : isLower start = true := by
          have hall : ∀ start ∈ startLetters, isLower start = true := by decide
          exact hall start hmem
        have heq := matchLetter_inj (.inl hlower) (hlettersTail letter' List.mem_cons_self)
          hmatch hc'
        rw [heq] at hmem
        simp [hmem] at hstart
      simp [startsMatch, this]
    · -- a boundary would need a character that is in no word
      have hword := isWord_of_matchLetter (w := w) (hletters letter List.mem_cons_self)
        (by simpa using hne) hc
      have hword' := isWord_of_matchLetter (w := w) (hlettersTail letter' List.mem_cons_self)
        (by simpa using hne') hc'
      simp [startsMatch, boundary, hword, hword']

theorem IsKeyword.noStart {word : PyStr} (h : IsKeyword word) :
    ∃ c cs, word = c :: cs ∧ isStartLetter c = true ∧ NoStart w (some c) cs := by
  obtain ⟨letters, hletters, hword⟩ := h
  have hfirst : ∀ letters ∈ keywords, ∃ a ∈ startLetters, letters.head? = some a := by
    decide +kernel
  obtain ⟨a, ha, hhead⟩ := hfirst letters hletters
  cases hword with
  | nil => cases hhead
  | @cons letter c letters cs hc hcs =>
    cases hhead
    refine ⟨c, cs, rfl, List.any_eq_true.mpr ⟨a, ha, hc⟩, ?_⟩
    exact noStart_of_inWord (keyword_letters _ hletters) (keywords_inWord _ hletters) hc hcs

theorem starting_assignment : Starting w (assignment w) := by
  intro before c cs hno
  cases hfind : findAssignment w before (c :: cs) with
  | none => exact hfind
  | some r =>
    obtain ⟨word, spaces, sep, t, heq, hhead⟩ := findAssignment_some hfind
    obtain ⟨d, ds, rfl, hstart, -⟩ := hhead.keyword.noStart (w := w)
    cases heq
    have hboundary := hhead.starts
    simp only [List.head?_cons] at hboundary
    simp [startsMatch, hboundary, hstart] at hno

/-! ## 6. Assignments that are redacted -/

/-- A text that is at its end, or at the end of a line. -/
def LineEnds (text : PyStr) : Prop := ∀ c, text.head? = some c → isLineEnd c = true

/-- What stays of an assignment: the keyword and the separator. -/
structure Kept (w : WordChars) (before : Option Nat) (kept : PyStr) : Prop where
  parts : ∃ word spaces sep spaces', kept = word ++ (spaces ++ sep :: spaces') ∧
    AssignmentHead w before word spaces sep ∧ ∀ c ∈ spaces', PyStr.isSpace c = true

theorem Kept.cons {before : Option Nat} {kept : PyStr} (h : Kept w before kept) :
    ∃ c cs, kept = c :: cs ∧ boundary w before (some c) = true ∧ NoStart w (some c) cs := by
  obtain ⟨word, spaces, sep, spaces', rfl, hhead, hspaces'⟩ := h.parts
  obtain ⟨c, cs, rfl, -, hno⟩ := hhead.keyword.noStart (w := w)
  refine ⟨c, cs ++ (spaces ++ sep :: spaces'), rfl, hhead.starts, ?_⟩
  rw [noStart_append]
  refine ⟨hno, noStart_of_letters ?_⟩
  intro d hd
  obtain hd | hd := List.mem_append.mp hd
  · exact isStartLetter_space (hhead.spaces d hd)
  · obtain rfl | hd := List.mem_cons.mp hd
    · obtain rfl | rfl := hhead.sep <;> rfl
    · exact isStartLetter_space (hspaces' d hd)

theorem Kept.congr {before before' : Option Nat} {c : Nat} {cs : PyStr}
    (h : Kept w before (c :: cs)) (hboundary : boundary w before' (some c) = true) :
    Kept w before' (c :: cs) := by
  obtain ⟨word, spaces, sep, spaces', heq, hhead, hspaces'⟩ := h.parts
  obtain ⟨d, ds, rfl⟩ := hhead.keyword.cons
  obtain ⟨rfl, htail⟩ := List.cons.inj heq
  exact ⟨c :: ds, spaces, sep, spaces', by rw [htail]; rfl,
    ⟨hboundary, hhead.keyword, hhead.ends, hhead.spaces, hhead.sep⟩, hspaces'⟩

/-- A match, by what stays of it and what it replaces. -/
theorem assignment_found {before : Option Nat} {kept cut rest : PyStr}
    (h : (assignment w).find before (kept ++ cut ++ rest) = some (kept.length, cut.length)) :
    Kept w before kept ∧ LineEnds rest := by
  obtain ⟨word, spaces, sep, t, heq, hhead⟩ := findAssignment_some h
  have hfind : findAssignment w before (kept ++ cut ++ rest) = some (kept.length, cut.length) := h
  rw [heq, hhead.find] at hfind
  simp only [Option.some.injEq, Prod.mk.injEq] at hfind
  obtain ⟨hkept, hcut⟩ := hfind
  have hsplit := List.takeWhile_append_dropWhile (p := PyStr.isSpace) (l := t)
  have hline := List.takeWhile_append_dropWhile (p := (!isLineEnd ·)) (l := t.dropWhile PyStr.isSpace)
  -- both sides cut the text at the same two places
  have hparts : kept ++ (cut ++ rest) =
      (word ++ (spaces ++ sep :: t.takeWhile PyStr.isSpace)) ++ t.dropWhile PyStr.isSpace := by
    rw [← List.append_assoc, heq, List.append_assoc, List.append_assoc, List.cons_append, hsplit]
  obtain ⟨hkept', hrest'⟩ := List.append_inj hparts (by
    simp only [List.length_append, List.length_cons]
    omega)
  rw [← hline] at hrest'
  obtain ⟨-, hrest⟩ := List.append_inj hrest' hcut.symm
  refine ⟨⟨word, spaces, sep, _, hkept', hhead, fun c hc => List.mem_takeWhile_imp hc⟩, ?_⟩
  intro c hc
  rw [hrest] at hc
  have hend := List.head?_dropWhile_not (!isLineEnd ·) (t.dropWhile PyStr.isSpace)
  rw [hc] at hend
  simpa using hend

theorem mem_redacted {c : Nat} (h : c ∈ redacted) : isLineEnd c = false := by
  rw [redacted_eq] at h
  revert c
  decide

/-- What is redacted is found again, as it is. -/
theorem Kept.find {before : Option Nat} {kept rest : PyStr} (h : Kept w before kept)
    (hrest : LineEnds rest) : (assignment w).find before (kept ++ redacted ++ rest) =
      some (kept.length, redacted.length) := by
  obtain ⟨word, spaces, sep, spaces', rfl, hhead, hspaces'⟩ := h.parts
  have hfind := hhead.find (spaces' ++ (redacted ++ rest))
  have hstop : ∀ c, (redacted ++ rest).head? = some c → PyStr.isSpace c = false := by
    intro c hc
    rw [redacted_eq] at hc
    cases hc
    rfl
  have hdrop : (spaces' ++ (redacted ++ rest)).dropWhile PyStr.isSpace = redacted ++ rest := by
    have hsplit := List.takeWhile_append_dropWhile (p := PyStr.isSpace)
      (l := spaces' ++ (redacted ++ rest))
    rw [takeWhile_append_stop hspaces' hstop] at hsplit
    exact List.append_cancel_left hsplit
  have hline : (redacted ++ rest).takeWhile (!isLineEnd ·) = redacted := by
    refine takeWhile_append_stop ?_ ?_
    · intro c hc
      simp [mem_redacted hc]
    · intro c hc
      simp [hrest c hc]
  rw [takeWhile_append_stop hspaces' hstop, hdrop, hline] at hfind
  simp only [List.append_assoc, List.cons_append, assignment] at hfind ⊢
  rw [hfind]
  simp only [List.length_append, List.length_cons, Option.some.injEq, Prod.mk.injEq, and_true]
  omega

theorem exists_letter {letters word : PyStr} (h : List.Forall₂ (matchLetter · · = true) letters word)
    {c : Nat} (hc : c ∈ word) : ∃ letter ∈ letters, matchLetter letter c = true := by
  induction h with
  | nil => cases hc
  | cons hmatch _ ih =>
    obtain rfl | hc := List.mem_cons.mp hc
    · exact ⟨_, List.mem_cons_self, hmatch⟩
    · obtain ⟨letter, hmem, hletter⟩ := ih hc
      exact ⟨letter, List.mem_cons_of_mem _ hmem, hletter⟩

theorem IsKeyword.no_bracket {word : PyStr} (h : IsKeyword word) : 0x5b ∉ word := by
  intro hmem
  obtain ⟨letters, hletters, hword⟩ := h
  obtain ⟨letter, hletter, hmatch⟩ := exists_letter hword hmem
  have hlower := keyword_letters letters hletters letter hletter
  simp only [matchLetter, isLower, Bool.or_eq_true, Bool.and_eq_true, decide_eq_true_eq] at *
  omega

/-- A match is decided by a part of the text without brackets. -/
theorem assignment_head {before : Option Nat} {text : PyStr} {r : Nat × Nat}
    (h : (assignment w).find before text = some r) : ∃ c cs, c :: cs <+: text ∧ 0x5b ∉ c :: cs ∧
      boundary w before (some c) = true ∧ ∀ before' text', boundary w before' (some c) = true →
        c :: cs <+: text' → ∃ r', (assignment w).find before' text' = some r' := by
  obtain ⟨word, spaces, sep, t, rfl, hhead⟩ := findAssignment_some h
  have hbracket : 0x5b ∉ word ++ (spaces ++ [sep]) := by
    intro hmem
    obtain hmem | hmem := List.mem_append.mp hmem
    · exact hhead.keyword.no_bracket hmem
    · obtain hmem | hmem := List.mem_append.mp hmem
      · exact absurd (hhead.spaces _ hmem) (by decide)
      · obtain rfl := List.mem_singleton.mp hmem
        obtain hsep | hsep := hhead.sep <;> cases hsep
  obtain ⟨c, cs, rfl⟩ := hhead.keyword.cons
  refine ⟨c, cs ++ (spaces ++ [sep]), ⟨t, by simp⟩, hbracket, hhead.starts, ?_⟩
  rintro before' text' hboundary ⟨t', rfl⟩
  have hhead' : AssignmentHead w before' (c :: cs) spaces sep :=
    ⟨hboundary, hhead.keyword, hhead.ends, hhead.spaces, hhead.sep⟩
  have hfind := hhead'.find t'
  refine ⟨_, Eq.trans ?_ hfind⟩
  simp [assignment]

theorem sub_lineEnds {p : Pattern Nat} (hp : Starting w p) {before : Option Nat} {text : PyStr}
    (h : LineEnds text) : LineEnds (sub p redacted before 0 text) := by
  cases text with
  | nil => simpa using h
  | cons c cs =>
    have hend := h c rfl
    rw [sub_none (hp before c cs (by simp [startsMatch, isStartLetter_lineEnd hend]))]
    intro d hd
    cases hd
    exact hend

/-- What is before a line end makes no difference. -/
theorem stable_lineEnds {p : Pattern Nat} (hp : Starting w p) {before before' : Option Nat}
    {text : PyStr} (hends : LineEnds text) (h : Stable p redacted before text) :
    Stable p redacted before' text := by
  cases text with
  | nil => trivial
  | cons c cs =>
    refine ⟨?_, h.2⟩
    intro kept cut hfind
    rw [hp before' c cs (by simp [startsMatch, isStartLetter_lineEnd (hends c rfl)])] at hfind
    cases hfind

theorem drop_take_redacted (kept rest : PyStr) :
    ((kept ++ redacted ++ rest).drop kept.length).take redacted.length = redacted := by
  rw [List.append_assoc, List.drop_left, List.take_left]

/-- A part that stays, in front of a replacement. -/
theorem Kept.stable {before : Option Nat} {kept rest : PyStr} (h : Kept w before kept)
    (hrest : LineEnds rest) {before' : Option Nat}
    (hstable : Stable (assignment w) redacted before' rest) :
    Stable (assignment w) redacted before (kept ++ redacted ++ rest) := by
  have hfind := h.find hrest
  have hcut := drop_take_redacted kept rest
  obtain ⟨c, cs, rfl, -, hno⟩ := h.cons
  have hquiet : Quiet (assignment w) (some c) (cs ++ redacted) rest :=
    NoStart.quiet starting_assignment (noStart_append.mpr ⟨hno, noStart_redacted _⟩) rest
  refine ⟨?_, hquiet.stable (stable_lineEnds starting_assignment hrest hstable)⟩
  intro kept' cut' hfind'
  have heq := hfind'.symm.trans hfind
  cases heq
  exact hcut

/-- After the assignments are replaced, every match is one that was. -/
theorem assignment_stable (before : Option Nat) (text : PyStr) :
    Stable (assignment w) redacted before (sub (assignment w) redacted before 0 text) := by
  refine sub_induction (motive := fun before _ out => Stable (assignment w) redacted before out)
    ?_ ?_ ?_ before text
  · intro _
    trivial
  · intro before c cs hnone ih
    refine ⟨?_, ih⟩
    intro kept cut hfind
    -- the text would have matched in the same place
    obtain ⟨d, ds, hhead, hbracket, hboundary, hagain⟩ := assignment_head hfind
    have hcut : Cut redacted (c :: cs) (c :: sub (assignment w) redacted (some c) 0 cs) :=
      (Cut.of_sub (some c) cs).keep c
    rw [redacted_eq] at hcut hhead
    obtain ⟨r, hr⟩ := hagain before (c :: cs) hboundary (hcut.isPrefix hbracket hhead)
    rw [hnone] at hr
    cases hr
  · intro before kept cut rest hfind ih
    obtain ⟨hkept, hrest⟩ := assignment_found hfind
    exact hkept.stable (sub_lineEnds starting_assignment hrest) ih

/-! ## 7. Tokens that are redacted -/

/-- A text of which every character belongs to the token. -/
structure IsToken (token : PyStr) : Prop where
  parts : ∃ n isTokenChar, tokenPrefix token = some (n, isTokenChar) ∧ n + 8 ≤ token.length ∧
    ∀ c ∈ token.drop n, isTokenChar c = true

theorem tokenPrefix_append {token : PyStr} {found : Nat × (Nat → Bool)}
    (h : tokenPrefix token = some found) (rest : PyStr) :
    tokenPrefix (token ++ rest) = some found := by
  unfold tokenPrefix at h
  split at h
  · exact h
  · exact h
  · exact h
  · cases h

theorem tokenPrefix_take {text : PyStr} {n : Nat} {isTokenChar : Nat → Bool}
    (h : tokenPrefix text = some (n, isTokenChar)) {m : Nat} (hm : n ≤ m) :
    tokenPrefix (text.take m) = some (n, isTokenChar) := by
  unfold tokenPrefix at h
  split at h
  · cases h
    obtain ⟨k, rfl⟩ := Nat.exists_eq_add_of_le' hm
    rfl
  · split at h
    · rename_i hmem
      cases h
      obtain ⟨k, rfl⟩ := Nat.exists_eq_add_of_le' hm
      simp [tokenPrefix, hmem]
    · cases h
  · split at h
    · rename_i hmem
      cases h
      obtain ⟨k, rfl⟩ := Nat.exists_eq_add_of_le' hm
      simp [tokenPrefix, hmem]
    · cases h
  · cases h

/-- What a prefix is made of. -/
theorem tokenPrefix_some {text : PyStr} {n : Nat} {isTokenChar : Nat → Bool}
    (h : tokenPrefix text = some (n, isTokenChar)) :
    (∃ c cs, text = c :: cs ∧ isLower c = true ∧ isStartLetter c = true) ∧
      n ≤ text.length ∧ 0x5b ∉ text.take n ∧ isTokenChar 0x5b = false := by
  have hbracket : ∀ c ∈ py "pousr", c ≠ 0x5b := by decide +kernel
  unfold tokenPrefix at h
  split at h
  · cases h
    exact ⟨⟨_, _, rfl, rfl, rfl⟩, by simp, by simp, rfl⟩
  · split at h
    · rename_i hmem
      cases h
      exact ⟨⟨_, _, rfl, rfl, rfl⟩, by simp, by simpa using (hbracket _ hmem).symm, rfl⟩
    · cases h
  · split at h
    · rename_i hmem
      cases h
      exact ⟨⟨_, _, rfl, rfl, rfl⟩, by simp, by simpa using (hbracket _ hmem).symm, rfl⟩
    · cases h
  · cases h

theorem IsToken.no_bracket {token : PyStr} (h : IsToken token) : 0x5b ∉ token := by
  obtain ⟨n, isTokenChar, hbegins, -, hchars⟩ := h.parts
  obtain ⟨-, -, htake, hfalse⟩ := tokenPrefix_some hbegins
  intro hmem
  rw [← List.take_append_drop n token] at hmem
  obtain hmem | hmem := List.mem_append.mp hmem
  · exact htake hmem
  · rw [hchars _ hmem] at hfalse
    cases hfalse

theorem findToken_some {before : Option Nat} {text : PyStr} {r : Nat × Nat}
    (h : findToken w before text = some r) : r.1 = 0 ∧ ∃ token rest, text = token ++ rest ∧
      token.length = r.2 ∧ IsToken token ∧ boundary w before token.head? = true ∧
      endsToken w token rest = true := by
  unfold findToken at h
  split at h
  · rename_i hstarts
    split at h
    · cases h
    rename_i n isTokenChar hbegins
    obtain ⟨len, hlen, rfl⟩ := Option.map_eq_some_iff.mp h
    have hends := List.find?_some hlen
    have hmem := List.mem_of_find?_eq_some hlen
    rw [List.mem_reverse, List.mem_range'_1] at hmem
    have hrun := (List.takeWhile_prefix isTokenChar (l := text.drop n)).length_le
    rw [List.length_drop] at hrun
    have hlength : (text.take (n + len)).length = n + len := by
      rw [List.length_take]
      omega
    refine ⟨rfl, text.take (n + len), text.drop (n + len), (List.take_append_drop _ _).symm,
      hlength, ⟨n, isTokenChar, tokenPrefix_take hbegins (by omega), by omega, ?_⟩, ?_, hends⟩
    · intro c hc
      rw [List.drop_take, Nat.add_sub_cancel_left] at hc
      rw [← List.takeWhile_append_dropWhile (p := isTokenChar) (l := text.drop n),
        List.take_append_of_le_length (by omega)] at hc
      exact List.mem_takeWhile_imp (List.mem_of_mem_take hc)
    · obtain ⟨⟨c, cs, rfl, -⟩, -⟩ := tokenPrefix_some hbegins
      rw [List.take_cons (by omega)]
      exact hstarts
  · cases h

theorem IsToken.head {token : PyStr} (h : IsToken token) :
    ∃ c cs, token = c :: cs ∧ isLower c = true ∧ isStartLetter c = true := by
  obtain ⟨n, isTokenChar, hbegins, -, -⟩ := h.parts
  exact (tokenPrefix_some hbegins).1

theorem findToken_isSome {before : Option Nat} {token rest : PyStr} (h : IsToken token)
    (hstarts : boundary w before token.head? = true) (hends : endsToken w token rest = true) :
    findToken w before (token ++ rest) ≠ none := by
  obtain ⟨n, isTokenChar, hbegins, hlength, hchars⟩ := h.parts
  have hhead : (token ++ rest).head? = token.head? := by
    obtain ⟨c, cs, rfl, -⟩ := h.head
    rfl
  have hdrop : (token ++ rest).drop n = token.drop n ++ rest :=
    List.drop_append_of_le_length (by omega)
  have hrun : token.length - n ≤ ((token.drop n ++ rest).takeWhile isTokenChar).length := by
    rw [List.takeWhile_append_of_pos hchars, List.length_append, List.length_drop]
    omega
  have htotal : n + (token.length - n) = token.length := by omega
  unfold findToken
  rw [hhead, if_pos hstarts, tokenPrefix_append hbegins]
  dsimp only
  rw [hdrop, ne_eq, Option.map_eq_none_iff, List.find?_eq_none]
  intro hnone
  refine hnone (token.length - n) ?_ ?_
  · rw [List.mem_reverse, List.mem_range'_1]
    omega
  · rw [htotal, List.take_left, List.drop_left]
    exact hends

variable (w)

/-- `_TOKEN_PREFIX_RE` -/
def token : Pattern Nat where
  find := findToken w
  sound h := by
    obtain ⟨hkept, token, rest, rfl, hlength, htoken, -⟩ := findToken_some h
    obtain ⟨c, cs, rfl, -⟩ := htoken.head
    simp only [List.length_cons, List.length_append] at hkept hlength ⊢
    omega

variable {w}

theorem starting_token : Starting w (token w) := by
  intro before c cs hno
  cases hfind : findToken w before (c :: cs) with
  | none => exact hfind
  | some r =>
    obtain ⟨-, token, rest, heq, -, htoken, hboundary, -⟩ := findToken_some hfind
    obtain ⟨d, ds, rfl, -, hstart⟩ := htoken.head
    cases heq
    simp only [List.head?_cons] at hboundary
    simp [startsMatch, hboundary, hstart] at hno

theorem after_getLast? (before : Option Nat) {part : PyStr} (h : part ≠ []) :
    after before part = part.getLast? := by
  induction part generalizing before with
  | nil => exact absurd rfl h
  | cons c cs ih =>
    cases cs with
    | nil => rfl
    | cons d ds =>
      rw [after, ih (some c) (by simp), List.getLast?_cons_cons]

/-- A match, by what it replaces. -/
theorem token_found {before : Option Nat} {kept cut rest : PyStr}
    (h : (token w).find before (kept ++ cut ++ rest) = some (kept.length, cut.length)) :
    kept = [] ∧ IsToken cut ∧ boundary w before cut.head? = true ∧ endsToken w cut rest = true := by
  obtain ⟨hkept, token, rest', heq, hlength, htoken, hstarts, hends⟩ := findToken_some h
  obtain rfl := List.length_eq_zero_iff.mp hkept
  obtain ⟨rfl, rfl⟩ := List.append_inj (by simpa using heq) hlength.symm
  exact ⟨rfl, htoken, hstarts, hends⟩

/-- What stands before a position begins a word there if it did before. -/
def Begins (w : WordChars) (before' before : Option Nat) (text : PyStr) : Prop :=
  ∀ c, text.head? = some c → boundary w before' (some c) = true → boundary w before (some c) = true

theorem Begins.refl (before : Option Nat) (text : PyStr) : Begins w before before text :=
  fun _ _ h => h

theorem begins_found {before before' : Option Nat} {cut rest : PyStr} (htoken : IsToken cut)
    (hends : endsToken w cut rest = true) : Begins w before' (after before cut) rest := by
  intro c hc _
  obtain ⟨d, ds, rfl, -⟩ := htoken.head
  unfold endsToken at hends
  rw [Bool.and_eq_true, hc] at hends
  rw [after_getLast? before (by simp)]
  exact hends.1

theorem boundary_of_find {p : Pattern Nat} (hp : Starting w p) {before : Option Nat} {c : Nat}
    {cs : PyStr} {r : Nat × Nat} (h : p.find before (c :: cs) = some r) :
    boundary w before (some c) = true := by
  cases hstart : startsMatch w before c with
  | false =>
    rw [hp before c cs hstart] at h
    cases h
  | true =>
    rw [startsMatch, Bool.and_eq_true] at hstart
    exact hstart.1

/-- Replacing tokens leaves the assignments redacted. -/
theorem stable_sub_token (before : Option Nat) (text : PyStr)
    (h : Stable (assignment w) redacted before text) {before' : Option Nat}
    (hbegins : Begins w before' before text) :
    Stable (assignment w) redacted before' (sub (token w) redacted before 0 text) := by
  revert h before'
  refine sub_induction (motive := fun before text out => Stable (assignment w) redacted before text →
    ∀ {before'}, Begins w before' before text → Stable (assignment w) redacted before' out)
    ?_ ?_ ?_ before text
  · intro _ _ _ _
    trivial
  · intro before c cs hnone ih h before' hbegins
    refine ⟨?_, ih h.2 (Begins.refl _ _)⟩
    intro kept cut hfind
    -- the assignment stood here before, and was redacted
    have hboundary : boundary w before (some c) = true :=
      hbegins c rfl (boundary_of_find starting_assignment hfind)
    obtain ⟨d, ds, hhead, hbracket, -, hagain⟩ := assignment_head hfind
    have hsame : d = c := (List.cons_prefix_cons.mp hhead).1
    subst hsame
    have hcut : Cut redacted (d :: cs) (d :: sub (token w) redacted (some d) 0 cs) :=
      (Cut.of_sub (some d) cs).keep d
    rw [redacted_eq] at hcut hhead
    obtain ⟨⟨k, x⟩, hr⟩ := hagain before (d :: cs) hboundary (hcut.isPrefix hbracket hhead)
    obtain ⟨kept', rest, heq, rfl, rfl⟩ := h.parts hr
    rw [heq] at hr
    obtain ⟨hkept, hrest⟩ := assignment_found hr
    -- no token begins in what is kept, nor in the replacement
    obtain ⟨e, es, rfl, -, hno⟩ := hkept.cons
    obtain rfl : d = e := (List.cons.inj heq).1
    have htail : cs = es ++ redacted ++ rest := (List.cons.inj heq).2
    have hquiet : Quiet (token w) (some d) (es ++ redacted) rest :=
      NoStart.quiet starting_token (noStart_append.mpr ⟨hno, noStart_redacted _⟩) rest
    have hbehind : LineEnds (sub (token w) redacted (after (some d) (es ++ redacted)) 0 rest) :=
      sub_lineEnds starting_token hrest
    have hkept' : Kept w before' (d :: es) :=
      hkept.congr (boundary_of_find starting_assignment hfind)
    have hfind' := hkept'.find hbehind
    rw [htail, hquiet.sub] at hfind ⊢
    cases hfind.symm.trans hfind'
    exact drop_take_redacted (d :: es) _
  · intro before kept cut rest hfind ih h before' _
    obtain ⟨rfl, htoken, -, hends⟩ := token_found hfind
    have hquiet : Quiet (assignment w) before' redacted
        (sub (token w) redacted (after before ([] ++ cut)) 0 rest) :=
      NoStart.quiet starting_assignment (noStart_redacted before') _
    exact hquiet.stable (ih h.of_append (begins_found htoken hends))

theorem isWord_lower {c : Nat} (h : isLower c = true) : w.isWord c = true := by
  have hascii : c < 128 := by
    simp only [isLower, Bool.and_eq_true, decide_eq_true_eq] at h
    omega
  simp [w.ascii c hascii, isAlphanum, h]

/-- Where a token could end in the result, it could end in the text: the
next token would begin with a letter, not with a bracket. -/
theorem endsToken_sub {part rest : PyStr} (hpart : part ≠ []) {before : Option Nat}
    (h : endsToken w part (sub (token w) redacted (after before part) 0 rest) = true) :
    endsToken w part rest = true := by
  cases rest with
  | nil => simpa using h
  | cons c cs =>
    cases hfind : (token w).find (after before part) (c :: cs) with
    | none =>
      rw [sub_none hfind] at h
      exact h
    | some found =>
      obtain ⟨kept, cut⟩ := found
      obtain ⟨hkept, token', rest', heq, -, htoken, hstarts, -⟩ := findToken_some hfind
      have hkept : kept = 0 := hkept
      subst hkept
      obtain ⟨d, ds, rfl, hlower, -⟩ := htoken.head
      obtain ⟨rfl, -⟩ := List.cons.inj heq
      rw [after_getLast? before hpart] at hstarts
      have hbracket : w.isWord 0x5b = false := by
        rw [w.ascii _ (by decide)]
        rfl
      have hword := isWord_lower (w := w) hlower
      rw [sub, hfind, redacted_eq] at h
      simp only [endsToken, boundary, List.take_zero, List.nil_append, List.cons_append,
        List.head?_cons, Option.any_some, hbracket, Bool.and_eq_true] at h
      simp only [boundary, List.head?_cons, Option.any_some, hword] at hstarts
      cases hlast : part.getLast?.any w.isWord with
      | false => simp [hlast] at h
      | true => simp [hlast] at hstarts

/-- After the tokens are replaced, none is left. -/
theorem token_stable (before : Option Nat) (text : PyStr) {before' : Option Nat}
    (hbegins : Begins w before' before text) :
    Stable (token w) redacted before' (sub (token w) redacted before 0 text) := by
  revert before'
  refine sub_induction (motive := fun before text out => ∀ {before'}, Begins w before' before text →
    Stable (token w) redacted before' out) ?_ ?_ ?_ before text
  · intro _ _ _
    trivial
  · intro before c cs hnone ih before' hbegins
    refine ⟨?_, ih (Begins.refl _ _)⟩
    intro kept cut hfind
    obtain ⟨-, token', rest, heq, -, htoken, hstarts, hends⟩ := findToken_some hfind
    have hsub : sub (token w) redacted before 0 (c :: cs) = token' ++ rest := by
      rw [sub_none hnone, heq]
    rw [redacted_eq] at hsub
    obtain ⟨rest', htext, rfl⟩ := sub_eq_append (fun h => (findToken_some h).1) htoken.no_bracket hsub
    obtain ⟨d, ds, rfl, -⟩ := htoken.head
    rw [← redacted_eq] at hends
    have hstarts' : boundary w before (some d) = true := by
      obtain ⟨rfl, -⟩ := List.cons.inj htext
      exact hbegins c rfl hstarts
    rw [htext] at hnone
    exact absurd hnone (findToken_isSome htoken hstarts' (endsToken_sub (by simp) hends))
  · intro before kept cut rest hfind ih before' _
    obtain ⟨rfl, htoken, -, hends⟩ := token_found hfind
    have hquiet : Quiet (token w) before' redacted
        (sub (token w) redacted (after before ([] ++ cut)) 0 rest) :=
      NoStart.quiet starting_token (noStart_redacted before') _
    exact hquiet.stable (ih (begins_found htoken hends))

/-! ## 8. Redaction -/

variable (w)

/-- `_redact_secrets` -/
def redactSecrets (environ : Environ) (text : PyStr) : PyStr :=
  let text := (configuredSecrets environ).foldl
    (fun text secret => sub (literal secret) redacted none 0 text) text
  sub (token w) redacted none 0 (sub (assignment w) redacted none 0 text)

/-- `[A-Za-z0-9._-]` -/
def isSecretChar (c : Nat) : Bool := isAlphanum c || c = 0x2d || c = 0x5f || c = 0x2e

/-- A secret as credentials are written. -/
structure PlainSecret (secret : PyStr) : Prop where
  chars : secret.all isSecretChar = true
  long : 11 < secret.length

variable {w}

theorem PlainSecret.no_bracket {secret : PyStr} (h : PlainSecret secret) :
    0x5b ∉ secret ∧ 0x5d ∉ secret := by
  have hchars := List.all_eq_true.mp h.chars
  constructor
  · exact fun hmem => absurd (hchars _ hmem) (by decide)
  · exact fun hmem => absurd (hchars _ hmem) (by decide)

theorem PlainSecret.not_in_redacted {secret : PyStr} (h : PlainSecret secret) :
    ¬ secret <:+: [0x52, 0x45, 0x44, 0x41, 0x43, 0x54, 0x45, 0x44] := by
  intro hin
  have hle := hin.length_le
  have hlong := h.long
  simp only [List.length_cons, List.length_nil] at hle
  omega

/-- No replacement puts a secret together. -/
theorem PlainSecret.of_cut {secret text out : PyStr} (h : PlainSecret secret)
    (hcut : Cut redacted text out) (hin : secret <:+: out) : secret <:+: text := by
  rw [redacted_eq] at hcut
  obtain htext | hinner := hcut.isInfix h.no_bracket.1 h.no_bracket.2 hin
  · exact htext
  · exact absurd hinner h.not_in_redacted

theorem PlainSecret.removed {secret : PyStr} (h : PlainSecret secret) (before : Option Nat)
    (text : PyStr) : ¬ secret <:+: sub (literal secret) redacted before 0 text := by
  have hne : secret ≠ [] := List.ne_nil_of_length_pos (by have := h.long; omega)
  refine sub_induction (motive := fun _ _ out => ¬ secret <:+: out) ?_ ?_ ?_ before text
  · intro _ hin
    exact hne (List.infix_nil.mp hin)
  · intro before c cs hnone ih hin
    obtain hbegins | hin := List.infix_cons_iff.mp hin
    · have hcut : Cut redacted (c :: cs) (c :: sub (literal secret) redacted (some c) 0 cs) :=
        (Cut.of_sub (some c) cs).keep c
      rw [redacted_eq] at hcut hbegins
      have hfound := hcut.isPrefix h.no_bracket.1 hbegins
      simp [literal, hne, hfound] at hnone
    · exact ih hin
  · intro before kept cut rest hfind ih hin
    have hkept : kept = [] := by
      simp only [literal] at hfind
      split at hfind
      · simp only [Option.some.injEq, Prod.mk.injEq] at hfind
        exact List.length_eq_zero_iff.mp hfind.1.symm
      · cases hfind
    subst hkept
    rw [redacted_eq, List.nil_append, List.cons_append, List.append_assoc] at hin
    obtain hin | hin := Cut.infix_of_append h.no_bracket.1 [] _ hin
    · exact hne (List.infix_nil.mp hin)
    obtain hin | hin := Cut.infix_of_append h.no_bracket.2 _ _ hin
    · exact h.not_in_redacted hin
    · rw [← redacted_eq] at hin
      exact ih hin

theorem literal_absent {secret text : PyStr} (h : ¬ secret <:+: text) (before : Option Nat) :
    sub (literal secret) redacted before 0 text = text := by
  have hstable : Stable (literal secret) redacted before text := by
    induction text generalizing before with
    | nil => trivial
    | cons c cs ih =>
      refine ⟨?_, ih (fun hin => h (List.infix_cons hin)) (some c)⟩
      intro kept cut hfind
      simp only [literal] at hfind
      split at hfind
      · rename_i hfound
        exact absurd hfound.2.isInfix h
      · cases hfind
  exact sub_of_stable hstable 0

theorem cut_literals (secrets : List PyStr) (text : PyStr) {secret : PyStr}
    (h : PlainSecret secret) (hmem : secret ∈ secrets ∨ ¬ secret <:+: text) :
    ¬ secret <:+: secrets.foldl (fun text s => sub (literal s) redacted none 0 text) text := by
  induction secrets generalizing text with
  | nil => exact hmem.resolve_left (by simp)
  | cons s secrets ih =>
    refine ih _ ?_
    by_cases hin : secret ∈ secrets
    · exact .inl hin
    · right
      obtain hmem | habsent := hmem
      · obtain rfl : secret = s := (List.mem_cons.mp hmem).resolve_right hin
        exact h.removed none text
      · exact fun hsub => habsent (h.of_cut (Cut.of_sub none text) hsub)

/-- No configured secret is left in a redacted text. -/
theorem redactSecrets_free {environ : Environ}
    (h : ∀ secret ∈ configuredSecrets environ, PlainSecret secret) {secret : PyStr}
    (hmem : secret ∈ configuredSecrets environ) (text : PyStr) :
    ¬ secret <:+: redactSecrets w environ text := by
  intro hin
  have hplain := h secret hmem
  have hassigned := hplain.of_cut (Cut.of_sub none _) hin
  have hliteral := hplain.of_cut (Cut.of_sub none _) hassigned
  exact cut_literals (configuredSecrets environ) text hplain (.inl hmem) hliteral

/-- A redacted text stays as it is. -/
theorem redactSecrets_idem {environ : Environ}
    (h : ∀ secret ∈ configuredSecrets environ, PlainSecret secret) (text : PyStr) :
    redactSecrets w environ (redactSecrets w environ text) = redactSecrets w environ text := by
  have hliterals : ∀ secrets : List PyStr, (∀ s ∈ secrets, s ∈ configuredSecrets environ) →
      secrets.foldl (fun text s => sub (literal s) redacted none 0 text)
        (redactSecrets w environ text) = redactSecrets w environ text := by
    intro secrets hsecrets
    induction secrets with
    | nil => rfl
    | cons s secrets ih =>
      rw [List.foldl_cons, literal_absent (redactSecrets_free h (hsecrets s List.mem_cons_self) text)]
      exact ih fun s' hs' => hsecrets s' (List.mem_cons_of_mem s hs')
  have hassignment : Stable (assignment w) redacted none (redactSecrets w environ text) :=
    stable_sub_token none _ (assignment_stable none _) (Begins.refl none _)
  have htoken : Stable (token w) redacted none (redactSecrets w environ text) :=
    token_stable none _ (Begins.refl none _)
  generalize redactSecrets w environ text = out at hliterals hassignment htoken
  rw [redactSecrets, hliterals _ fun _ hs => hs, sub_of_stable hassignment, List.drop_zero,
    sub_of_stable htoken, List.drop_zero]

/-- A redacted text has no characters but those of the text and of the
replacement. -/
theorem mem_redactSecrets {environ : Environ} {text : PyStr} {c : Nat}
    (h : c ∈ redactSecrets w environ text) : c ∈ text ∨ c ∈ redacted := by
  have hliterals : ∀ (secrets : List PyStr) (text : PyStr),
      c ∈ secrets.foldl (fun text s => sub (literal s) redacted none 0 text) text →
        c ∈ text ∨ c ∈ redacted := by
    intro secrets
    induction secrets with
    | nil => exact fun _ h => .inl h
    | cons s secrets ih =>
      intro text h
      obtain h | h := ih _ h
      · exact (Cut.of_sub none text).mem h
      · exact .inr h
  obtain h | h := (Cut.of_sub none _).mem h
  · obtain h | h := (Cut.of_sub none _).mem h
    · exact hliterals _ _ h
    · exact .inr h
  · exact .inr h

/-! ## 9. Rendering -/

/-- The characters that `_C0_DEL_DROP_TRANSLATION` drops. -/
def isDropped (c : Nat) : Bool := c < 0x20 && c != 0x0a || c = 0x7f

/-- The loop of `_render_terminal_text`, with the line that is being
written. -/
def renderFrom (line : PyStr) (cursor : Nat) : PyStr → PyStr
  | [] => line
  | c :: cs =>
      if c = 0x0a then line ++ c :: renderFrom [] 0 cs
      else if c = 0x0d then renderFrom line 0 cs
      else if c = 0x08 then renderFrom line (cursor - 1) cs
      else if c = 0x09 then
        let nextTabStop := (cursor / 8 + 1) * 8
        renderFrom (line ++ .replicate (nextTabStop - line.length) 0x20) nextTabStop cs
      else if isDropped c then renderFrom line cursor cs
      else if cursor < line.length then renderFrom (line.set cursor c) (cursor + 1) cs
      else renderFrom (line ++ .replicate (cursor - line.length) 0x20 ++ [c]) (cursor + 1) cs

/-- `_render_terminal_text` -/
def renderTerminalText (value : PyStr) : PyStr :=
  if 0x08 ∉ value ∧ 0x0d ∉ value ∧ 0x09 ∉ value then value.filter (!isDropped ·)
  else renderFrom [] 0 value

/-- Controls that must not reach a terminal. -/
def isUnsafe (c : Nat) : Bool := isDropped c || 0x80 ≤ c && c ≤ 0x9f

/-- Rendering puts characters of the text and blanks on the lines. -/
theorem mem_renderFrom {line : PyStr} {cursor : Nat} {text : PyStr} {c : Nat}
    (h : c ∈ renderFrom line cursor text) :
    c ∈ line ∨ c = 0x20 ∨ c ∈ text ∧ isDropped c = false := by
  fun_induction renderFrom line cursor text with
  | case1 => exact .inl h
  | case2 line cursor cs ih =>
    obtain h | h := List.mem_append.mp h
    · exact .inl h
    · obtain rfl | h := List.mem_cons.mp h
      · exact .inr (.inr ⟨List.mem_cons_self, rfl⟩)
      · obtain h | h | ⟨h, hdrop⟩ := ih h
        · cases h
        · exact .inr (.inl h)
        · exact .inr (.inr ⟨List.mem_cons_of_mem _ h, hdrop⟩)
  | case3 line cursor cs _ ih =>
    obtain h | h | ⟨h, hdrop⟩ := ih h
    · exact .inl h
    · exact .inr (.inl h)
    · exact .inr (.inr ⟨List.mem_cons_of_mem _ h, hdrop⟩)
  | case4 line cursor cs _ _ ih =>
    obtain h | h | ⟨h, hdrop⟩ := ih h
    · exact .inl h
    · exact .inr (.inl h)
    · exact .inr (.inr ⟨List.mem_cons_of_mem _ h, hdrop⟩)
  | case5 line cursor cs _ _ _ nextTabStop ih =>
    obtain h | h | ⟨h, hdrop⟩ := ih h
    · obtain h | h := List.mem_append.mp h
      · exact .inl h
      · exact .inr (.inl (List.eq_of_mem_replicate h))
    · exact .inr (.inl h)
    · exact .inr (.inr ⟨List.mem_cons_of_mem _ h, hdrop⟩)
  | case6 line cursor d cs _ _ _ _ _ ih =>
    obtain h | h | ⟨h, hdrop⟩ := ih h
    · exact .inl h
    · exact .inr (.inl h)
    · exact .inr (.inr ⟨List.mem_cons_of_mem _ h, hdrop⟩)
  | case7 line cursor d cs _ _ _ _ hkeep _ ih =>
    obtain h | h | ⟨h, hdrop⟩ := ih h
    · obtain h | rfl := List.mem_or_eq_of_mem_set h
      · exact .inl h
      · exact .inr (.inr ⟨List.mem_cons_self, by simpa using hkeep⟩)
    · exact .inr (.inl h)
    · exact .inr (.inr ⟨List.mem_cons_of_mem _ h, hdrop⟩)
  | case8 line cursor d cs _ _ _ _ hkeep _ ih =>
    obtain h | h | ⟨h, hdrop⟩ := ih h
    · obtain h | h := List.mem_append.mp h
      · obtain h | h := List.mem_append.mp h
        · exact .inl h
        · exact .inr (.inl (List.eq_of_mem_replicate h))
      · obtain rfl := List.mem_singleton.mp h
        exact .inr (.inr ⟨List.mem_cons_self, by simpa using hkeep⟩)
    · exact .inr (.inl h)
    · exact .inr (.inr ⟨List.mem_cons_of_mem _ h, hdrop⟩)

theorem mem_renderTerminalText {value : PyStr} {c : Nat} (h : c ∈ renderTerminalText value) :
    c = 0x20 ∨ c ∈ value ∧ isDropped c = false := by
  unfold renderTerminalText at h
  split at h
  · rw [List.mem_filter] at h
    exact .inr (by simpa using h)
  · obtain h | h := mem_renderFrom h
    · cases h
    · exact h

/-- A text without controls is shown as it is. -/
theorem renderTerminalText_safe {value : PyStr} (h : ∀ c ∈ value, isUnsafe c = false) :
    renderTerminalText value = value := by
  have hcursor : 0x08 ∉ value ∧ 0x0d ∉ value ∧ 0x09 ∉ value := by
    refine ⟨?_, ?_, ?_⟩
    · exact fun hmem => absurd (h _ hmem) (by decide)
    · exact fun hmem => absurd (h _ hmem) (by decide)
    · exact fun hmem => absurd (h _ hmem) (by decide)
  rw [renderTerminalText, if_pos hcursor, List.filter_eq_self]
  intro c hc
  have hsafe := h c hc
  rw [isUnsafe, Bool.or_eq_false_iff] at hsafe
  simp [hsafe.1]

theorem stripControls_safe {text : PyStr} (h : ∀ c ∈ text, isUnsafe c = false) :
    stripControls text = text := by
  have hstable : ∀ before, Stable controls [] before text := by
    induction text with
    | nil => exact fun _ => trivial
    | cons c cs ih =>
      intro before
      refine ⟨?_, ih (fun d hd => h d (List.mem_cons_of_mem c hd)) (some c)⟩
      intro kept cut hfind
      have hsafe := h c List.mem_cons_self
      simp only [isUnsafe, isDropped, Bool.or_eq_false_iff, Bool.and_eq_false_iff,
        decide_eq_false_iff_not, bne_eq_false_iff_eq] at hsafe
      have hnone : controlLength (c :: cs) = none := by
        unfold controlLength
        dsimp only
        rw [if_neg (by omega), if_neg (by omega), if_neg]
        simp only [Bool.and_eq_true, decide_eq_true_eq]
        omega
      simp [controls, hnone] at hfind
  rw [stripControls, sub_of_stable (hstable none), List.drop_zero, List.filter_eq_self]
  intro c hc
  have hsafe := h c hc
  simp only [decide_not, Bool.not_eq_eq_eq_not, Bool.not_true, decide_eq_false_iff_not]
  rintro rfl
  cases hsafe

/-- No escape character and no C1 control is left. -/
theorem mem_stripControls {text : PyStr} {c : Nat} (h : c ∈ stripControls text) :
    c ≠ 0x1b ∧ ¬ (0x80 ≤ c ∧ c ≤ 0x9f) := by
  rw [stripControls, List.mem_filter] at h
  refine ⟨by simpa using h.2, ?_⟩
  have hsub := h.1
  clear h
  revert hsub
  refine sub_induction (motive := fun _ _ out => c ∈ out → ¬ (0x80 ≤ c ∧ c ≤ 0x9f)) ?_ ?_ ?_ none
    text
  · intro _ hmem
    cases hmem
  · intro before d cs hnone ih hmem
    obtain rfl | hmem := List.mem_cons.mp hmem
    · intro hc1
      simp only [controls, Option.map_eq_none_iff, controlLength] at hnone
      rw [if_neg (by omega)] at hnone
      split at hnone
      · cases hnone
      · rw [if_pos (by simpa using hc1)] at hnone
        cases hnone
    · exact ih hmem
  · intro before kept cut rest hfind ih hmem
    simp only [controls, Option.map_eq_some_iff, Prod.mk.injEq] at hfind
    obtain ⟨n, -, hkept, -⟩ := hfind
    obtain rfl := List.length_eq_zero_iff.mp hkept.symm
    exact ih (by simpa using hmem)

/-! ## 10. Diagnostics -/

/-- What a command has put out, if anything. -/
inductive Output where
  | none
  | text (s : PyStr)
  | bytes (b : List UInt8)

def Output.decoded : Output → PyStr
  | .none => []
  | .text s => s
  | .bytes b => pyText (Utf8.decodeReplace b)

variable (w)

/-- `_redacted_diagnostic` -/
def redactedDiagnostic (environ : Environ) (value : Output) : PyStr :=
  match value with
  | .none => []
  | value =>
      let text := redactSecrets w environ (stripControls value.decoded)
      let rendered := renderTerminalText text
      if rendered = text then text else redactSecrets w environ rendered

/-- `_bounded_diagnostic` -/
def boundedDiagnostic (environ : Environ) (value : Output) : PyStr :=
  (redactedDiagnostic w environ value).take 200

variable {w}

theorem redacted_safe {c : Nat} (h : c ∈ redacted) : isUnsafe c = false := by
  rw [redacted_eq] at h
  revert c
  decide

theorem rendered_safe {environ : Environ} {text : PyStr} {c : Nat}
    (h : c ∈ renderTerminalText (redactSecrets w environ (stripControls text))) :
    isUnsafe c = false := by
  obtain rfl | ⟨hmem, hdrop⟩ := mem_renderTerminalText h
  · rfl
  · obtain hmem | hmem := mem_redactSecrets hmem
    · obtain ⟨-, hc1⟩ := mem_stripControls hmem
      simpa [isUnsafe, hdrop] using hc1
    · exact redacted_safe hmem

theorem redactSecrets_nil (environ : Environ) : redactSecrets w environ [] = [] := by
  have hliterals : ∀ secrets : List PyStr,
      secrets.foldl (fun text s => sub (literal s) redacted none 0 text) [] = [] := by
    intro secrets
    induction secrets with
    | nil => rfl
    | cons s secrets ih => exact ih
  rw [redactSecrets, hliterals]
  rfl

/-- A diagnostic is a redacted text without controls. -/
theorem redactedDiagnostic_redacted (environ : Environ) (value : Output) :
    (∃ text, redactedDiagnostic w environ value = redactSecrets w environ text) ∧
      ∀ c ∈ redactedDiagnostic w environ value, isUnsafe c = false := by
  unfold redactedDiagnostic
  split
  · exact ⟨⟨[], (redactSecrets_nil environ).symm⟩, by simp⟩
  · dsimp only
    split
    · rename_i hsame
      refine ⟨⟨_, rfl⟩, ?_⟩
      intro c hc
      rw [← hsame] at hc
      exact rendered_safe hc
    · refine ⟨⟨_, rfl⟩, ?_⟩
      intro c hc
      obtain hc | hc := mem_redactSecrets hc
      · exact rendered_safe hc
      · exact redacted_safe hc

/-- Cutting a diagnostic off shows no secret either. -/
theorem boundedDiagnostic_free {environ : Environ}
    (h : ∀ secret ∈ configuredSecrets environ, PlainSecret secret) {secret : PyStr}
    (hmem : secret ∈ configuredSecrets environ) (value : Output) :
    ¬ secret <:+: boundedDiagnostic w environ value := by
  intro hin
  obtain ⟨⟨text, htext⟩, -⟩ := redactedDiagnostic_redacted (w := w) environ value
  have hshown : secret <:+: redactedDiagnostic w environ value :=
    hin.trans (List.take_prefix 200 _).isInfix
  rw [htext] at hshown
  exact redactSecrets_free h hmem text hshown

/-- For every output and environment: no configured secret is shown, no
control but line feeds is, and a second pass changes nothing. -/
theorem redacted_diagnostic_safe (w : WordChars) (environ : Environ) (value : Output)
    (h : ∀ secret ∈ configuredSecrets environ, PlainSecret secret) :
    (∀ secret ∈ configuredSecrets environ, ¬ secret <:+: redactedDiagnostic w environ value) ∧
      (∀ c ∈ redactedDiagnostic w environ value, isUnsafe c = false) ∧
        redactedDiagnostic w environ (.text (redactedDiagnostic w environ value)) =
          redactedDiagnostic w environ value := by
  obtain ⟨⟨text, htext⟩, hsafe⟩ := redactedDiagnostic_redacted (w := w) environ value
  refine ⟨?_, hsafe, ?_⟩
  · intro secret hmem
    rw [htext]
    exact redactSecrets_free h hmem text
  · -- the second pass finds nothing to strip, to redact or to render
    have hsame : redactSecrets w environ (redactedDiagnostic w environ value) =
        redactedDiagnostic w environ value := by
      rw [htext]
      exact redactSecrets_idem h text
    generalize redactedDiagnostic w environ value = shown at hsafe hsame
    simp only [redactedDiagnostic, Output.decoded, stripControls_safe hsafe, hsame,
      renderTerminalText_safe hsafe, if_true]

end

/-- One credential is set. -/
def oneKey : Environ := fun name =>
  if name = "ANTHROPIC_API_KEY" then
    some [0x73, 0x6b, 0x2d, 0x61, 0x6e, 0x74, 0x2d, 0x61, 0x31, 0x62, 0x32, 0x63, 0x33]
  else none

theorem configuredSecrets_oneKey : configuredSecrets oneKey =
    [[0x73, 0x6b, 0x2d, 0x61, 0x6e, 0x74, 0x2d, 0x61, 0x31, 0x62, 0x32, 0x63, 0x33]] := by
  decide +kernel

/-- A key that is written over another text, behind a carriage return. -/
theorem overprinted_key_redacted :
    let shown := redactedDiagnostic .asciiOnly oneKey
      (.text ([0x78, 0x0d] ++ [0x73, 0x6b, 0x2d, 0x61, 0x6e, 0x74, 0x2d, 0x61, 0x31] ++
        [0x08, 0x31, 0x62, 0x32, 0x63, 0x33]))
    (∀ secret ∈ configuredSecrets oneKey, ¬ secret <:+: shown) ∧
      (∀ c ∈ shown, isUnsafe c = false) ∧
        redactedDiagnostic .asciiOnly oneKey (.text shown) = shown := by
  refine redacted_diagnostic_safe .asciiOnly oneKey _ ?_
  intro secret hmem
  rw [configuredSecrets_oneKey, List.mem_singleton] at hmem
  subst hmem
  exact ⟨by decide, by decide⟩

end MultiForge.Verification.Diagnostics
