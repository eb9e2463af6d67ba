/-
MultiForge.Diff.GitPath — paths in the headers of a Git diff.

Git writes a path as it is, or in quotes with C escapes when a byte of it
asks for that. The headers are read as text: `_git_header_destination`
finds the two paths of a `diff --git` line, `_plus_header_path` the path
of a `+++` line, and both strip white space. So they give back the path
exactly when Git quotes it or it does not end with white space
(`git_path_decoded_iff`).
-/
import MultiForge.Lib.FsCodec
import MultiForge.Lib.Lines

namespace MultiForge.Diff

open FsCodec

abbrev Bytes := List UInt8

/-! ## 1. What Git writes -/

/-- A path in a repository: components that are no `.` and no `..`. -/
structure RepoPath where
  bytes : Bytes
  no_nul : 0 ∉ bytes
  components : ∀ part ∈ bytes.splitOn 0x2F, part ≠ [] ∧ part ≠ [0x2E] ∧ part ≠ [0x2E, 0x2E]

/-- The letter of a byte's C escape. -/
def escapeLetter? (b : UInt8) : Option UInt8 :=
  if b = 0x07 then some 0x61
  else if b = 0x08 then some 0x62
  else if b = 0x09 then some 0x74
  else if b = 0x0A then some 0x6E
  else if b = 0x0B then some 0x76
  else if b = 0x0C then some 0x66
  else if b = 0x0D then some 0x72
  else if b = 0x22 then some 0x22
  else if b = 0x5C then some 0x5C
  else none

/-- The bytes that Git escapes; `quotePath` is `core.quotePath`. -/
def mustQuote (quotePath : Bool) (b : UInt8) : Bool :=
  b.toNat < 0x20 || b = 0x22 || b = 0x5C || b = 0x7F || (quotePath && 0x80 ≤ b.toNat)

/-- `n` as an octal digit. -/
def octalDigit (n : Nat) : UInt8 := .ofNat (0x30 + n)

def escapeByte (b : UInt8) : Bytes :=
  match escapeLetter? b with
  | some letter => [0x5C, letter]
  | none => [0x5C, octalDigit (b.toNat / 64), octalDigit (b.toNat / 8 % 8),
      octalDigit (b.toNat % 8)]

def quoteBytes (quotePath : Bool) (bytes : Bytes) : Bytes :=
  bytes.flatMap fun b => if mustQuote quotePath b then escapeByte b else [b]

/-- Git quotes the path. -/
def isQuoted (quotePath : Bool) (bytes : Bytes) : Bool := bytes.any (mustQuote quotePath)

/-- A path with its prefix, quoted where Git quotes it. -/
def gitToken (quotePath : Bool) (side : UInt8) (bytes : Bytes) : Bytes :=
  if isQuoted quotePath bytes then
    0x22 :: side :: 0x2F :: quoteBytes quotePath bytes ++ [0x22]
  else side :: 0x2F :: bytes

def bytesOf (text : String) : Bytes := text.toList.map fun c => .ofNat c.toNat

/-- The `diff --git` line of a change of one path. -/
def gitHeaderLine (quotePath : Bool) (path : RepoPath) : Bytes :=
  bytesOf "diff --git " ++ gitToken quotePath 0x61 path.bytes ++ 0x20
    :: gitToken quotePath 0x62 path.bytes

/-- The `+++` line; a tab follows a path with a space. -/
def plusHeaderLine (quotePath : Bool) (path : RepoPath) : Bytes :=
  bytesOf "+++ " ++ gitToken quotePath 0x62 path.bytes
    ++ if 0x20 ∈ path.bytes then [0x09] else []

/-! ## 2. Reading a token -/

def PyChar.isSpace : PyChar → Bool
  | .scalar c => Lines.isSpace c
  | .escaped _ => false

/-- `text.lstrip()` -/
def lstrip (text : Text) : Text := text.dropWhile PyChar.isSpace

/-- `text.strip()` -/
def strip (text : Text) : Text := (lstrip text).rdropWhile PyChar.isSpace

/-- The loop of `_quoted_token_end`. -/
def tokenEnd : Nat → Text → Option Nat
  | _, [] => none
  | index, .scalar '\\' :: _ :: rest => tokenEnd (index + 2) rest
  | _, [.scalar '\\'] => none
  | index, c :: rest => if c = .scalar '"' then some (index + 1) else tokenEnd (index + 1) rest

/-- `_quoted_token_end`, from the start of the text -/
def quotedTokenEnd : Text → Option Nat
  | .scalar '"' :: rest => tokenEnd 1 rest
  | _ => none

/-- `_GIT_C_ESCAPES` -/
def gitCEscapes : PyChar → Option UInt8
  | .scalar 'a' => some 0x07
  | .scalar 'b' => some 0x08
  | .scalar 't' => some 0x09
  | .scalar 'n' => some 0x0A
  | .scalar 'v' => some 0x0B
  | .scalar 'f' => some 0x0C
  | .scalar 'r' => some 0x0D
  | .scalar '"' => some 0x22
  | .scalar '\\' => some 0x5C
  | _ => none

/-- The value of an octal digit. -/
def octalValue? : PyChar → Option Nat
  | .scalar c => if '0' ≤ c ∧ c ≤ '7' then some (c.toNat - '0'.toNat) else none
  | .escaped _ => none

/-- Up to `count` octal digits after `value`, and what follows them. -/
def octalRun : Nat → Nat → Text → Nat × Text
  | count + 1, value, c :: rest => match octalValue? c with
    | some digit => octalRun count (value * 8 + digit) rest
    | none => (value, c :: rest)
  | _, value, rest => (value, rest)

theorem octalRun_length : ∀ (count value : Nat) (text : Text),
    (octalRun count value text).2.length ≤ text.length
  | 0, _, _ => Nat.le_refl _
  | _ + 1, _, [] => Nat.le_refl _
  | count + 1, value, c :: rest => by
      rw [octalRun]
      split
      · have ih := octalRun_length count (value * 8 + ‹Nat›) rest
        exact Nat.le_succ_of_le ih
      · exact Nat.le_refl _

/-- The loop of `_decode_git_path_token`. -/
def decodeEscapes (text : Text) : Option Bytes :=
  match text with
  | [] => some []
  | c :: rest =>
      if c ≠ .scalar '\\' then (c.encode ++ ·) <$> decodeEscapes rest
      else match rest with
        | [] => none
        | escaped :: after => match octalValue? escaped with
          | some digit =>
              let run := octalRun 2 digit after
              if 0xFF < run.1 then none else (UInt8.ofNat run.1 :: ·) <$> decodeEscapes run.2
          | none => match gitCEscapes escaped with
            | some b => (b :: ·) <$> decodeEscapes after
            | none => none
termination_by text.length
decreasing_by
  · exact Nat.lt_succ_self _
  · have hrun := octalRun_length 2 digit after
    simp only [List.length_cons]
    omega
  · simp only [List.length_cons]
    omega

/-- `_decode_git_path_token` -/
def decodeGitPathToken (token : Text) : Option Text :=
  if token.head? ≠ some (.scalar '"') then some token
  else if token.length < 2 ∨ token.getLast? ≠ some (.scalar '"') then none
  else (decodeEscapes ((token.drop 1).dropLast)).map fsdecode

/-! ## 3. Reading the headers -/

/-- `text.find(" b/")` again and again: the texts before and from every
marker. -/
def markerSplits (before : Text) : Text → List (Text × Text)
  | [] => []
  | .scalar ' ' :: .scalar 'b' :: .scalar '/' :: rest =>
      (before, .scalar 'b' :: .scalar '/' :: rest)
        :: markerSplits (before ++ ascii " b/") rest
  | c :: rest => markerSplits (before ++ [c]) rest

/-- `value.rfind(" \"b/")`: the text before the last marker and from its
quotation mark. -/
def lastQuotedMarker (before : Text) : Text → Option (Text × Text)
  | [] => none
  | c :: rest => match lastQuotedMarker (before ++ [c]) rest with
    | some found => some found
    | none => if (ascii " \"b/").isPrefixOf (c :: rest) then some (before, rest) else none

/-- The two halves at an unquoted delimiter. -/
def splitUnquoted (value : Text) : Option (Text × Text) :=
  let candidates := (markerSplits [] value).filter fun (source, destination) =>
    (ascii "a/").isPrefixOf source && 2 < source.length && 2 < destination.length
  match candidates.find? fun (source, destination) => source.drop 2 = destination.drop 2 with
  | some agreed => some agreed
  | none => candidates.head?

/-- `_split_git_header_tokens` -/
def splitGitHeaderTokens (body : Text) : Option (Text × Text) :=
  let value := strip body
  if value = [] then none
  else if value.head? = some (.scalar '"') then
    match quotedTokenEnd value with
    | none => none
    | some sourceEnd =>
        let destination := lstrip (value.drop sourceEnd)
        if destination = [] then none
        else if destination.head? = some (.scalar '"')
            ∧ quotedTokenEnd destination ≠ some destination.length then none
        else some (value.take sourceEnd, destination)
  else match lastQuotedMarker [] value with
    | some (source, destination) =>
        if quotedTokenEnd destination = some destination.length then some (source, destination)
        else splitUnquoted value
    | none => splitUnquoted value

/-- `_git_header_destination`, of the body that the header's pattern
captures -/
def gitHeaderDestination (body : Text) : Text :=
  match splitGitHeaderTokens body with
  | none => []
  | some (_, token) => match decodeGitPathToken token with
    | some destination =>
        if (ascii "b/").isPrefixOf destination then destination.drop 2 else []
    | none => []

/-- `_plus_header_path`, of the path that the header's pattern captures -/
def plusHeaderPath (captured : Text) : Option Text :=
  match decodeGitPathToken (strip (captured.takeWhile (· ≠ .scalar '\t'))) with
  | none => none
  | some path =>
      if path = ascii "/dev/null" then some path
      else if (ascii "b/").isPrefixOf path then some (path.drop 2) else none

/-- What `^diff --git (?P<body>.+)$` captures. -/
def captureGitHeader (line : Text) : Option Text :=
  if (ascii "diff --git ").isPrefixOf line ∧ line.length ≠ 11 then some (line.drop 11) else none

/-- What `^\+\+\+ (?P<path>.+)$` captures. -/
def capturePlusHeader (line : Text) : Option Text :=
  if (ascii "+++ ").isPrefixOf line ∧ line.length ≠ 4 then some (line.drop 4) else none

/-! ## 4. Escaped texts -/

/-- Bytes in which every quotation mark and backslash is escaped. -/
inductive EscapedBytes : Bytes → Prop where
  | nil : EscapedBytes []
  | plain {b : UInt8} {rest : Bytes} : b ≠ 0x22 → b ≠ 0x5C → EscapedBytes rest →
      EscapedBytes (b :: rest)
  | escape {b : UInt8} {rest : Bytes} : b.toNat < 0x80 → EscapedBytes rest →
      EscapedBytes (0x5C :: b :: rest)

/-- The same of a text. -/
inductive EscapedText : Text → Prop where
  | nil : EscapedText []
  | plain {c : PyChar} {rest : Text} : c ≠ .scalar '"' → c ≠ .scalar '\\' → EscapedText rest →
      EscapedText (c :: rest)
  | escape {c : PyChar} {rest : Text} : EscapedText rest →
      EscapedText (.scalar '\\' :: c :: rest)

theorem tokenEnd_plain {c : PyChar} (hquote : c ≠ .scalar '"') (hback : c ≠ .scalar '\\')
    (index : Nat) (rest : Text) : tokenEnd index (c :: rest) = tokenEnd (index + 1) rest := by
  cases rest with
  | nil =>
    rw [tokenEnd.eq_def]
    split
    · rename_i heq
      cases heq
    · rename_i heq
      cases heq
    · rename_i heq
      exact absurd (List.cons.inj heq).1 hback
    · rename_i heq
      cases heq
      rw [if_neg hquote]
  | cons d ds =>
    rw [tokenEnd.eq_def]
    split
    · rename_i heq
      cases heq
    · rename_i heq
      exact absurd (List.cons.inj heq).1 hback
    · rename_i heq
      cases heq
    · rename_i heq
      cases heq
      rw [if_neg hquote]

/-- The token ends at the first quotation mark after an escaped text. -/
theorem tokenEnd_escaped {text : Text} (h : EscapedText text) (rest : Text) : ∀ index : Nat,
    tokenEnd index (text ++ .scalar '"' :: rest) = some (index + text.length + 1) := by
  induction h with
  | nil =>
    intro index
    cases rest <;> rfl
  | plain hquote hback _ ih =>
    intro index
    rw [List.cons_append, tokenEnd_plain hquote hback, ih, List.length_cons]
    congr 1
    omega
  | escape _ ih =>
    intro index
    rw [List.cons_append, List.cons_append, tokenEnd, ih, List.length_cons, List.length_cons]
    congr 1
    omega

theorem EscapedBytes.drop_raw {rest : Bytes} : ∀ {raw : Bytes}, (∀ b ∈ raw, 0x80 ≤ b.toNat) →
    EscapedBytes (raw ++ rest) → EscapedBytes rest
  | [], _, h => h
  | b :: raw, hraw, h => by
      have hb := hraw b List.mem_cons_self
      rw [List.cons_append] at h
      generalize hbytes : b :: (raw ++ rest) = bytes at h
      cases h with
      | nil => cases hbytes
      | plain _ _ hrest =>
        obtain ⟨rfl, rfl⟩ := List.cons.inj hbytes
        exact EscapedBytes.drop_raw (fun c hc => hraw c (List.mem_cons_of_mem b hc)) hrest
      | escape _ _ =>
        obtain ⟨rfl, -⟩ := List.cons.inj hbytes
        exact absurd hb (by decide)

/-- A character that begins with a byte past ASCII has no ASCII byte. -/
theorem raw_of_encodeChar {c : Char} {b : UInt8} {tail rest : Bytes} (hb : 0x80 ≤ b.toNat)
    (h : b :: rest = String.utf8EncodeChar c ++ tail) :
    ∀ x ∈ String.utf8EncodeChar c, 0x80 ≤ x.toNat := by
  intro x hx
  by_contra hlow
  have hone := ascii_of_mem_encodeChar hx (by omega)
  rw [hone] at h
  obtain ⟨rfl, -⟩ := List.cons.inj h
  omega

theorem ofNat_toNat_inj {b : UInt8} (hb : b.toNat < 0x80) {c : Char}
    (h : Char.ofNat b.toNat = c) : b = UInt8.ofNat c.toNat := by
  have hv : (Char.ofNat b.toNat).val.toNat = b.toNat := Utf8.val_ofNat (by omega)
  rw [← h]
  apply UInt8.toNat_inj.mp
  have hsame : (Char.ofNat b.toNat).toNat = b.toNat := hv
  rw [hsame, Utf8.toNat_ofNat (by omega)]

/-- Decoding keeps what is escaped. -/
theorem EscapedBytes.text {bytes : Bytes} (h : EscapedBytes bytes) :
    EscapedText (fsdecode bytes) := by
  induction hn : bytes.length using Nat.strongRecOn generalizing bytes with
  | ind n ih =>
    have hraw : ∀ {b : UInt8} {rest : Bytes}, 0x80 ≤ b.toNat → bytes = b :: rest →
        EscapedText (fsdecode bytes) := by
      rintro b rest hb rfl
      rcases fsdecode_cases b rest with ⟨c, tail, hbytes, hdecode⟩ | hdecode
      · have hhigh := raw_of_encodeChar hb hbytes
        have hlength := congrArg List.length hbytes
        have hpos := Char.utf8Size_pos c
        rw [List.length_append, String.length_utf8EncodeChar, hn] at hlength
        rw [hbytes] at h
        rw [hdecode]
        refine .plain ?_ ?_ (ih tail.length (by omega) (h.drop_raw hhigh) rfl)
        · intro heq
          cases heq
          exact absurd (hhigh 0x22 (by decide)) (by decide)
        · intro heq
          cases heq
          exact absurd (hhigh 0x5C (by decide)) (by decide)
      · rw [List.length_cons] at hn
        have hone : ∀ x ∈ [b], 0x80 ≤ x.toNat := by simpa using hb
        have hrest : EscapedBytes rest := EscapedBytes.drop_raw hone h
        rw [hdecode]
        exact .plain (by simp) (by simp) (ih rest.length (by omega) hrest rfl)
    cases h with
    | nil => exact .nil
    | @plain b rest hquote hback hrest =>
      by_cases hb : b.toNat < 0x80
      · rw [List.length_cons] at hn
        rw [fsdecode_ascii hb]
        refine .plain ?_ ?_ (ih rest.length (by omega) hrest rfl)
        · intro heq
          exact hquote (ofNat_toNat_inj hb (PyChar.scalar.inj heq))
        · intro heq
          exact hback (ofNat_toNat_inj hb (PyChar.scalar.inj heq))
      · exact hraw (by omega) rfl
    | @escape b rest hb hrest =>
      rw [List.length_cons, List.length_cons] at hn
      rw [fsdecode_ascii (by decide), fsdecode_ascii hb]
      exact .escape (ih rest.length (by omega) hrest rfl)

/-! ## 5. What Git writes in quotes -/

theorem quoteBytes_cons (quotePath : Bool) (b : UInt8) (bytes : Bytes) :
    quoteBytes quotePath (b :: bytes)
      = (if mustQuote quotePath b then escapeByte b else [b]) ++ quoteBytes quotePath bytes := rfl

theorem octalDigit_toNat {n : Nat} (h : n < 8) : (octalDigit n).toNat = 0x30 + n :=
  Utf8.toNat_ofNat (by omega)

/-- The letters of C escapes are no octal digits. -/
theorem escapeLetter?_cases {b letter : UInt8} (h : escapeLetter? b = some letter) :
    letter.toNat < 0x80 ∧ octalValue? (.scalar (.ofNat letter.toNat)) = none
      ∧ gitCEscapes (.scalar (.ofNat letter.toNat)) = some b := by
  unfold escapeLetter? at h
  repeat' split at h
  all_goals
    subst_vars
    cases h
    try decide

theorem escaped_quoteBytes (quotePath : Bool) : ∀ bytes : Bytes,
    EscapedBytes (quoteBytes quotePath bytes)
  | [] => .nil
  | b :: bytes => by
      have ih := escaped_quoteBytes quotePath bytes
      have hplain : ∀ {n : Nat} {rest : Bytes}, n < 8 → EscapedBytes rest →
          EscapedBytes (octalDigit n :: rest) := by
        intro n rest hn hrest
        have hvalue := octalDigit_toNat hn
        refine .plain ?_ ?_ hrest
        · intro heq
          rw [heq] at hvalue
          have : (0x22 : UInt8).toNat = 0x22 := rfl
          omega
        · intro heq
          rw [heq] at hvalue
          have : (0x5C : UInt8).toNat = 0x5C := rfl
          omega
      rw [quoteBytes_cons]
      split
      · unfold escapeByte
        split
        · rename_i letter hletter
          exact .escape (escapeLetter?_cases hletter).1 ih
        · have hbyte := b.toNat_lt
          have hfirst := @octalDigit_toNat (b.toNat / 64) (by omega)
          exact .escape (by omega) (hplain (by omega) (hplain (by omega) ih))
      · rename_i hkeep
        simp only [mustQuote, Bool.or_eq_true, decide_eq_true_eq, not_or] at hkeep
        exact .plain hkeep.1.1.1.2 hkeep.1.1.2 ih

/-- Bytes past ASCII are what they stand for. -/
theorem quoteBytes_raw {quotePath : Bool} {tail : Bytes} : ∀ {raw bytes : Bytes},
    (∀ b ∈ raw, 0x80 ≤ b.toNat) → quoteBytes quotePath bytes = raw ++ tail →
    ∃ rest, bytes = raw ++ rest ∧ tail = quoteBytes quotePath rest
  | [], bytes, _, h => ⟨bytes, rfl, h.symm⟩
  | x :: raw, [], _, h => by cases h
  | x :: raw, b :: bytes, hraw, h => by
      have hx := hraw x List.mem_cons_self
      rw [quoteBytes_cons] at h
      split at h
      · have hback : ∃ rest, escapeByte b = 0x5C :: rest := by
          unfold escapeByte
          split
          · exact ⟨_, rfl⟩
          · exact ⟨_, rfl⟩
        obtain ⟨rest, hrest⟩ := hback
        rw [hrest] at h
        obtain ⟨rfl, -⟩ := List.cons.inj h
        exact absurd hx (by decide)
      · obtain ⟨rfl, htail⟩ := List.cons.inj h
        obtain ⟨rest, rfl, hquote⟩ := quoteBytes_raw
          (fun y hy => hraw y (List.mem_cons_of_mem _ hy)) htail
        exact ⟨rest, rfl, hquote⟩

/-! ## 6. Decoding what Git writes -/

theorem decodeEscapes_nil : decodeEscapes [] = some [] := by
  rw [decodeEscapes.eq_def]

theorem decodeEscapes_plain {c : PyChar} (h : c ≠ .scalar '\\') (rest : Text) :
    decodeEscapes (c :: rest) = (c.encode ++ ·) <$> decodeEscapes rest := by
  rw [decodeEscapes.eq_def]
  simp only [if_pos h]

theorem decodeEscapes_letter {c : PyChar} {b : UInt8} (hoctal : octalValue? c = none)
    (hletter : gitCEscapes c = some b) (rest : Text) :
    decodeEscapes (.scalar '\\' :: c :: rest) = (b :: ·) <$> decodeEscapes rest := by
  rw [decodeEscapes]
  simp only [ne_eq, not_true, if_false, hoctal, hletter]

theorem octalValue?_digit {n : Nat} (h : n < 8) :
    octalValue? (.scalar (.ofNat (0x30 + n))) = some n := by
  obtain rfl | rfl | rfl | rfl | rfl | rfl | rfl | rfl : n = 0 ∨ n = 1 ∨ n = 2 ∨ n = 3 ∨ n = 4
      ∨ n = 5 ∨ n = 6 ∨ n = 7 := by omega
  all_goals rfl

theorem decodeEscapes_octal {b : UInt8} (rest : Text) :
    decodeEscapes (.scalar '\\' :: .scalar (.ofNat (0x30 + b.toNat / 64))
        :: .scalar (.ofNat (0x30 + b.toNat / 8 % 8)) :: .scalar (.ofNat (0x30 + b.toNat % 8))
        :: rest)
      = (b :: ·) <$> decodeEscapes rest := by
  have hbyte := b.toNat_lt
  have hrun : octalRun 2 (b.toNat / 64) (.scalar (.ofNat (0x30 + b.toNat / 8 % 8))
      :: .scalar (.ofNat (0x30 + b.toNat % 8)) :: rest) = (b.toNat, rest) := by
    rw [octalRun, octalValue?_digit (by omega)]
    simp only
    rw [octalRun, octalValue?_digit (by omega)]
    simp only
    rw [octalRun]
    · congr 1
      omega
    · intro count c rest' hzero
      cases hzero
  rw [decodeEscapes]
  simp only [ne_eq, not_true, if_false, octalValue?_digit (show b.toNat / 64 < 8 by omega), hrun]
  rw [if_neg (by omega)]
  simp

theorem encode_ascii {b : UInt8} (hb : b.toNat < 0x80) :
    PyChar.encode (.scalar (.ofNat b.toNat)) = [b] := encodeChar_ascii hb

theorem fsdecode_escapeByte (b : UInt8) (rest : Bytes) :
    decodeEscapes (fsdecode (escapeByte b ++ rest)) = (b :: ·) <$> decodeEscapes (fsdecode rest) := by
  have hbyte := b.toNat_lt
  have hback : ∀ rest : Bytes, fsdecode (0x5C :: rest) = .scalar '\\' :: fsdecode rest :=
    fun rest => fsdecode_ascii (by decide) rest
  unfold escapeByte
  split
  · rename_i letter hletter
    obtain ⟨hascii, hoctal, hescape⟩ := escapeLetter?_cases hletter
    rw [List.cons_append, List.cons_append, List.nil_append, hback, fsdecode_ascii hascii]
    exact decodeEscapes_letter hoctal hescape _
  · have hdigit : ∀ {n : Nat} (rest : Bytes), n < 8 →
        fsdecode (octalDigit n :: rest) = .scalar (.ofNat (0x30 + n)) :: fsdecode rest := by
      intro n rest hn
      have hvalue := octalDigit_toNat hn
      rw [fsdecode_ascii (by omega), hvalue]
    simp only [List.cons_append, List.nil_append]
    rw [hback, hdigit _ (by omega), hdigit _ (by omega), hdigit _ (by omega)]
    exact decodeEscapes_octal _

/-- **The escapes are undone**, whatever the bytes are. -/
theorem decodeEscapes_quoteBytes (quotePath : Bool) (bytes : Bytes) :
    decodeEscapes (fsdecode (quoteBytes quotePath bytes)) = some bytes := by
  induction hn : bytes.length using Nat.strongRecOn generalizing bytes with
  | ind n ih =>
    cases bytes with
    | nil => exact decodeEscapes_nil
    | cons b bytes =>
      rw [List.length_cons] at hn
      have hrest := ih bytes.length (by omega) bytes rfl
      rw [quoteBytes_cons]
      split
      · rw [fsdecode_escapeByte, hrest]
        rfl
      · rename_i hkeep
        simp only [mustQuote, Bool.or_eq_true, decide_eq_true_eq, not_or] at hkeep
        rw [List.cons_append, List.nil_append]
        by_cases hb : b.toNat < 0x80
        · have hne : PyChar.scalar (.ofNat b.toNat) ≠ .scalar '\\' := fun heq =>
            hkeep.1.1.2 (ofNat_toNat_inj hb (PyChar.scalar.inj heq))
          rw [fsdecode_ascii hb, decodeEscapes_plain hne, hrest, encode_ascii hb]
          rfl
        · rcases fsdecode_cases b (quoteBytes quotePath bytes) with ⟨c, tail, hbytes, hdecode⟩ | hdecode
          · -- a character of several bytes, which Git has not escaped
            have hhigh := raw_of_encodeChar (by omega) hbytes
            have hpos := Char.utf8Size_pos c
            have hlength := String.length_utf8EncodeChar c
            cases hchar : String.utf8EncodeChar c with
            | nil =>
              rw [hchar, List.length_nil] at hlength
              omega
            | cons x raw =>
              rw [hchar] at hbytes hhigh
              obtain ⟨rfl, htail⟩ := List.cons.inj hbytes
              obtain ⟨after, rfl, rfl⟩ := quoteBytes_raw
                (fun y hy => hhigh y (List.mem_cons_of_mem _ hy)) htail
              rw [List.length_append] at hn
              have hafter := ih after.length (by omega) after rfl
              have hne : PyChar.scalar c ≠ .scalar '\\' := by
                intro heq
                cases heq
                have hx := hhigh 0x5C (by rw [← hchar]; decide)
                exact absurd hx (by decide)
              rw [hdecode, decodeEscapes_plain hne, hafter]
              simp [PyChar.encode, hchar]
          · rw [hdecode, decodeEscapes_plain (by simp), hrest]
            rfl

/-! ## 7. The lines as texts -/

theorem fsdecode_bytesOf {text : String} (h : text.toList.all (·.toNat < 0x80) = true)
    (rest : Bytes) : fsdecode (bytesOf text ++ rest) = ascii text ++ fsdecode rest :=
  fsdecode_asciiBytes (fun c hc => by simpa using List.all_eq_true.mp h c hc) rest

/-- A token as text, with the side as a character. -/
def textToken (quotePath : Bool) (side : Char) (bytes : Bytes) : Text :=
  if isQuoted quotePath bytes then
    .scalar '"' :: .scalar side :: .scalar '/' :: fsdecode (quoteBytes quotePath bytes)
      ++ [.scalar '"']
  else .scalar side :: .scalar '/' :: fsdecode bytes

theorem fsdecode_gitToken (quotePath : Bool) {side : UInt8} (hside : side.toNat < 0x80)
    (bytes : Bytes) :
    fsdecode (gitToken quotePath side bytes)
      = textToken quotePath (.ofNat side.toNat) bytes := by
  have hslash : ∀ rest : Bytes, fsdecode (0x2F :: rest) = .scalar '/' :: fsdecode rest :=
    fun rest => fsdecode_ascii (by decide) rest
  have hquote : ∀ rest : Bytes, fsdecode (0x22 :: rest) = .scalar '"' :: fsdecode rest :=
    fun rest => fsdecode_ascii (by decide) rest
  unfold gitToken textToken
  split
  · simp only [List.cons_append]
    rw [hquote, fsdecode_ascii hside, hslash, fsdecode_append_ascii (by decide), hquote]
    rfl
  · rw [fsdecode_ascii hside, hslash]

theorem fsdecode_gitHeaderLine (quotePath : Bool) (path : RepoPath) :
    fsdecode (gitHeaderLine quotePath path)
      = ascii "diff --git " ++ (textToken quotePath 'a' path.bytes
        ++ .scalar ' ' :: textToken quotePath 'b' path.bytes) := by
  unfold gitHeaderLine
  rw [List.append_assoc, fsdecode_bytesOf (by decide), fsdecode_append_ascii (by decide),
    fsdecode_ascii (by decide), fsdecode_gitToken _ (by decide), fsdecode_gitToken _ (by decide)]
  rfl

theorem fsdecode_plusHeaderLine (quotePath : Bool) (path : RepoPath) :
    fsdecode (plusHeaderLine quotePath path)
      = ascii "+++ " ++ (textToken quotePath 'b' path.bytes
        ++ if 0x20 ∈ path.bytes then [.scalar '\t'] else []) := by
  unfold plusHeaderLine
  rw [List.append_assoc, fsdecode_bytesOf (by decide)]
  split
  · rw [fsdecode_append_ascii (by decide), fsdecode_gitToken _ (by decide)]
    rfl
  · rw [List.append_nil, List.append_nil, fsdecode_gitToken _ (by decide)]
    rfl

/-! ## 8. White space at the ends -/

theorem strip_eq_self {text : Text} (hhead : ∀ c, text.head? = some c → PyChar.isSpace c = false)
    (hlast : ∀ c, text.getLast? = some c → PyChar.isSpace c = false) : strip text = text := by
  have hleft : lstrip text = text := by
    cases text with
    | nil => rfl
    | cons c rest => exact List.dropWhile_cons_of_neg (by simp [hhead c rfl])
  unfold strip
  rw [hleft]
  rcases List.eq_nil_or_concat text with rfl | ⟨rest, c, rfl⟩
  · rfl
  · rw [List.concat_eq_append] at hlast ⊢
    exact List.rdropWhile_concat_neg _ _ _ (by simp [hlast c List.getLast?_concat])

/-- What begins with no white space is stripped at its end only. -/
theorem strip_cons {c : PyChar} (h : PyChar.isSpace c = false) (rest : Text) :
    strip (c :: rest) = c :: rest.rdropWhile PyChar.isSpace := by
  have hleft : lstrip (c :: rest) = c :: rest := List.dropWhile_cons_of_neg (by simp [h])
  unfold strip
  rw [hleft]
  induction rest using List.reverseRecOn with
  | nil => simp [List.rdropWhile_singleton, h]
  | append_singleton rest d ih =>
    have ih := ih (List.dropWhile_cons_of_neg (by simp [h]))
    rw [← List.cons_append, List.rdropWhile_concat, List.rdropWhile_concat]
    split
    · exact ih
    · rfl

/-- No white space is left at the end. -/
theorem strip_last {text : Text} {c : PyChar} (h : (strip text).getLast? = some c) :
    PyChar.isSpace c = false := by
  have hne : strip text ≠ [] := by
    intro hnil
    rw [hnil] at h
    cases h
  have hlast := List.rdropWhile_last_not PyChar.isSpace (lstrip text) hne
  rw [List.getLast?_eq_some_getLast hne] at h
  rw [← Option.some.inj h]
  exact Bool.eq_false_iff.mpr hlast

/-- The path of a text token, if it does not lose white space. -/
def KeepsEnd (quotePath : Bool) (bytes : Bytes) : Prop :=
  isQuoted quotePath bytes = true
    ∨ ∀ c, (fsdecode bytes).getLast? = some c → PyChar.isSpace c = false

/-! ## 9. Quoted paths -/

section
variable {quotePath : Bool} {bytes : Bytes}

theorem textToken_quoted (h : isQuoted quotePath bytes = true) (side : Char) :
    textToken quotePath side bytes = .scalar '"'
      :: ((.scalar side :: .scalar '/' :: fsdecode (quoteBytes quotePath bytes))
        ++ [.scalar '"']) := by
  rw [textToken, if_pos h]
  rfl

theorem quoted_body_escaped (quotePath : Bool) (bytes : Bytes) (side : Char) (hquote : side ≠ '"')
    (hback : side ≠ '\\') :
    EscapedText (.scalar side :: .scalar '/' :: fsdecode (quoteBytes quotePath bytes)) :=
  .plain (fun heq => hquote (PyChar.scalar.inj heq)) (fun heq => hback (PyChar.scalar.inj heq))
    (.plain (by simp) (by simp) (escaped_quoteBytes quotePath bytes).text)

theorem decodeGitPathToken_quoted (h : isQuoted quotePath bytes = true) :
    decodeGitPathToken (textToken quotePath 'b' bytes) = some (ascii "b/" ++ fsdecode bytes) := by
  rw [textToken_quoted h]
  have hbody : decodeEscapes
      (.scalar 'b' :: .scalar '/' :: fsdecode (quoteBytes quotePath bytes))
      = some (0x62 :: 0x2F :: bytes) := by
    rw [decodeEscapes_plain (by simp), decodeEscapes_plain (by simp), decodeEscapes_quoteBytes]
    rfl
  unfold decodeGitPathToken
  rw [if_neg (by simp), if_neg (by simp [List.getLast?_cons]), List.drop_succ_cons, List.drop_zero,
    List.dropLast_concat, hbody, Option.map_some, fsdecode_ascii (by decide),
    fsdecode_ascii (by decide)]
  rfl

/-- The tokens of a quoted header. -/
theorem splitGitHeaderTokens_quoted (h : isQuoted quotePath bytes = true) :
    splitGitHeaderTokens
        (textToken quotePath 'a' bytes ++ .scalar ' ' :: textToken quotePath 'b' bytes)
      = some (textToken quotePath 'a' bytes, textToken quotePath 'b' bytes) := by
  have hsource := quoted_body_escaped quotePath bytes 'a' (by decide) (by decide)
  have hdestination := quoted_body_escaped quotePath bytes 'b' (by decide) (by decide)
  rw [textToken_quoted h, textToken_quoted h]
  generalize (PyChar.scalar 'a' :: .scalar '/' :: fsdecode (quoteBytes quotePath bytes)) = source
    at hsource
  generalize (PyChar.scalar 'b' :: .scalar '/' :: fsdecode (quoteBytes quotePath bytes))
    = destination at hdestination
  have hstrip : strip (.scalar '"' :: (source ++ [.scalar '"'])
      ++ .scalar ' ' :: .scalar '"' :: (destination ++ [.scalar '"']))
      = .scalar '"' :: (source ++ .scalar '"' :: (.scalar ' ' :: .scalar '"'
        :: (destination ++ [.scalar '"']))) := by
    rw [strip_eq_self]
    · simp
    · intro c hc
      cases hc
      rfl
    · intro c hc
      simp [List.getLast?_append, List.getLast?_cons] at hc
      rw [← hc]
      rfl
  have hend : quotedTokenEnd (.scalar '"' :: (source ++ .scalar '"' :: (.scalar ' ' :: .scalar '"'
      :: (destination ++ [.scalar '"'])))) = some (source.length + 2) := by
    rw [quotedTokenEnd, tokenEnd_escaped hsource]
    congr 1
    omega
  have hend' : quotedTokenEnd (.scalar '"' :: (destination ++ [.scalar '"']))
      = some (.scalar '"' :: (destination ++ [PyChar.scalar '"'])).length := by
    rw [quotedTokenEnd, tokenEnd_escaped hdestination]
    simp
    omega
  have hdrop : (PyChar.scalar '"' :: (source ++ .scalar '"' :: (.scalar ' ' :: .scalar '"'
      :: (destination ++ [.scalar '"'])))).drop (source.length + 2)
      = .scalar ' ' :: .scalar '"' :: (destination ++ [.scalar '"']) := by
    simp
  have htake : (PyChar.scalar '"' :: (source ++ .scalar '"' :: (.scalar ' ' :: .scalar '"'
      :: (destination ++ [.scalar '"'])))).take (source.length + 2)
      = .scalar '"' :: (source ++ [.scalar '"']) := by
    rw [List.take_succ_cons, List.take_length_add_append]
    rfl
  have hlstrip : lstrip (.scalar ' ' :: .scalar '"' :: (destination ++ [.scalar '"']))
      = .scalar '"' :: (destination ++ [.scalar '"']) := rfl
  unfold splitGitHeaderTokens
  simp only [hstrip]
  rw [if_neg (by simp), if_pos List.head?_cons, hend]
  simp only [hdrop, hlstrip, htake, hend']
  simp

end

/-! ## 10. Splitting at the delimiter -/

/-- Every split is one of the text. -/
theorem markerSplits_append {before text : Text} {split : Text × Text}
    (h : split ∈ markerSplits before text) : split.1 ++ .scalar ' ' :: split.2 = before ++ text := by
  induction before, text using markerSplits.induct with
  | case1 => cases h
  | case2 before rest ih =>
    rw [markerSplits] at h
    rcases List.mem_cons.mp h with rfl | h
    · rfl
    · rw [ih h, List.append_assoc]
      rfl
  | case3 before c rest hmarker ih =>
    rw [markerSplits] at h
    · rw [ih h, List.append_assoc]
      rfl
    · exact hmarker

theorem markerSplits_step {c : PyChar} {text : Text}
    (h : ∀ rest, c :: text ≠ .scalar ' ' :: .scalar 'b' :: .scalar '/' :: rest) (before : Text) :
    markerSplits before (c :: text) = markerSplits (before ++ [c]) text := by
  rw [markerSplits]
  rintro rest rfl rfl
  exact h rest rfl

/-- A delimiter is found, whatever stands before it. -/
theorem markerSplits_mem (after : Text) (source before : Text) :
    (before ++ source, ascii "b/" ++ after)
      ∈ markerSplits before (source ++ .scalar ' ' :: (ascii "b/" ++ after)) := by
  induction before, source using markerSplits.induct with
  | case1 before =>
    rw [List.append_nil]
    exact List.mem_cons_self
  | case2 before source ih =>
    rw [List.append_assoc] at ih
    exact List.mem_cons_of_mem _ ih
  | case3 before c source hmarker ih =>
    have hnot : ∀ rest, c :: (source ++ .scalar ' ' :: (ascii "b/" ++ after))
        ≠ .scalar ' ' :: .scalar 'b' :: .scalar '/' :: rest := by
      intro rest heq
      obtain ⟨hc, htail⟩ := List.cons.inj heq
      match source, htail with
      | [], htail => cases htail
      | [d], htail =>
        obtain ⟨-, htail⟩ := List.cons.inj htail
        cases htail
      | d :: e :: source, htail =>
        obtain ⟨hd, htail⟩ := List.cons.inj htail
        obtain ⟨he, -⟩ := List.cons.inj htail
        exact hmarker source hc (by rw [hd, he])
    rw [List.append_assoc] at ih
    rw [List.cons_append, markerSplits_step hnot]
    exact ih

theorem lastQuotedMarker_none : ∀ {text : Text} (before : Text), .scalar '"' ∉ text →
    lastQuotedMarker before text = none
  | [], _, _ => rfl
  | c :: rest, before, h => by
      rw [List.mem_cons, not_or] at h
      have ih := lastQuotedMarker_none (before ++ [c]) h.2
      have hstart : (ascii " \"b/").isPrefixOf (c :: rest) = false := by
        cases rest with
        | nil => simp [ascii, List.isPrefixOf]
        | cons d ds =>
          have hd : PyChar.scalar '"' ≠ d := fun heq => h.2 (heq ▸ List.mem_cons_self)
          simp [ascii, List.isPrefixOf, hd]
      rw [lastQuotedMarker, ih]
      simp [hstart]

/-- The halves that agree are the two paths. -/
theorem splitUnquoted_agree {text : Text} (hne : text ≠ []) :
    splitUnquoted (ascii "a/" ++ text ++ .scalar ' ' :: (ascii "b/" ++ text))
      = some (ascii "a/" ++ text, ascii "b/" ++ text) := by
  have hlength : 0 < text.length := List.length_pos_iff.mpr hne
  have hmem := markerSplits_mem text (ascii "a/" ++ text) []
  rw [List.nil_append] at hmem
  unfold splitUnquoted
  simp only
  generalize hcandidates : ((markerSplits [] (ascii "a/" ++ text ++ .scalar ' '
    :: (ascii "b/" ++ text))).filter fun (source, destination) =>
      (ascii "a/").isPrefixOf source && 2 < source.length && 2 < destination.length) = candidates
  have hin : (ascii "a/" ++ text, ascii "b/" ++ text) ∈ candidates := by
    rw [← hcandidates, List.mem_filter]
    refine ⟨hmem, ?_⟩
    simp [ascii, List.isPrefixOf, hlength]
  have hfound : (candidates.find? fun (source, destination) =>
      source.drop 2 = destination.drop 2).isSome := by
    rw [List.find?_isSome]
    exact ⟨_, hin, by simp [ascii]⟩
  obtain ⟨split, hsplit⟩ := Option.isSome_iff_exists.mp hfound
  rw [hsplit]
  have hagree : split.1.drop 2 = split.2.drop 2 := by simpa using List.find?_some hsplit
  have hcandidate := List.mem_of_find?_eq_some hsplit
  rw [← hcandidates, List.mem_filter] at hcandidate
  obtain ⟨hmarker, hlong⟩ := hcandidate
  simp only [Bool.and_eq_true, decide_eq_true_eq] at hlong
  have happend := markerSplits_append hmarker
  rw [List.nil_append] at happend
  -- the halves are equally long, so the delimiter is in the middle
  have hlengths := congrArg List.length happend
  have hhalves := congrArg List.length hagree
  simp only [List.length_append, List.length_cons, List.length_drop, ascii] at hlengths hhalves
  have hsource : split.1.length = (ascii "a/" ++ text).length := by
    simp [ascii] at hlengths ⊢
    omega
  obtain ⟨hfirst, hsecond⟩ := List.append_inj happend hsource
  rw [← hfirst, ← (List.cons.inj hsecond).2]

/-- A split has its destination at the end of the text. -/
theorem splitUnquoted_suffix {value source destination : Text}
    (h : splitUnquoted value = some (source, destination)) :
    source ++ .scalar ' ' :: destination = value ∧ 2 < destination.length := by
  unfold splitUnquoted at h
  simp only at h
  have hmem : (source, destination) ∈ (markerSplits [] value).filter fun (source, destination) =>
      (ascii "a/").isPrefixOf source && 2 < source.length && 2 < destination.length := by
    split at h
    · rename_i agreed hfound
      rw [← Option.some.inj h]
      exact List.mem_of_find?_eq_some hfound
    · exact List.mem_of_mem_head? h
  obtain ⟨hsplit, hlong⟩ := List.mem_filter.mp hmem
  simp only [Bool.and_eq_true, decide_eq_true_eq] at hlong
  exact ⟨markerSplits_append hsplit, hlong.2⟩

/-! ## 11. Plain paths -/

/-- An ASCII character of a decoded text is a byte of it. -/
theorem mem_of_scalar_mem {bytes : Bytes} {c : Char} (hc : c.toNat < 0x80)
    (h : .scalar c ∈ fsdecode bytes) : UInt8.ofNat c.toNat ∈ bytes := by
  have hbyte : (UInt8.ofNat c.toNat).toNat = c.toNat := Utf8.toNat_ofNat (by omega)
  have hencode : PyChar.encode (.scalar c) = [UInt8.ofNat c.toNat] := by
    have hone := encode_ascii (b := UInt8.ofNat c.toNat) (by omega)
    rwa [hbyte, Char.ofNat_toNat] at hone
  rw [← fsencode_fsdecode bytes]
  exact List.mem_flatMap.mpr ⟨_, h, by rw [hencode]; exact List.mem_singleton_self _⟩

section
variable {quotePath : Bool} {bytes : Bytes}

theorem textToken_plain (h : isQuoted quotePath bytes = false) (side : Char) :
    textToken quotePath side bytes = .scalar side :: .scalar '/' :: fsdecode bytes := by
  rw [textToken, if_neg (by simp [h])]

/-- What Git does not quote has none of the characters it escapes. -/
theorem plain_not_mem (h : isQuoted quotePath bytes = false) {c : Char} (hc : c.toNat < 0x80)
    (hquote : mustQuote quotePath (.ofNat c.toNat) = true) : .scalar c ∉ fsdecode bytes := by
  intro hmem
  have hfalse := List.any_eq_false.mp h _ (mem_of_scalar_mem hc hmem)
  exact hfalse hquote

theorem mustQuote_quote (quotePath : Bool) : mustQuote quotePath 0x22 = true := by
  cases quotePath <;> rfl

theorem mustQuote_tab (quotePath : Bool) : mustQuote quotePath 0x09 = true := by
  cases quotePath <;> rfl

theorem quote_not_mem_header (h : isQuoted quotePath bytes = false) :
    .scalar '"' ∉ strip (textToken quotePath 'a' bytes
      ++ .scalar ' ' :: textToken quotePath 'b' bytes) := by
  intro hmem
  have hbody := (List.dropWhile_sublist _).subset ((List.rdropWhile_prefix _ _).mem hmem)
  rw [textToken_plain h, textToken_plain h, List.mem_append, List.mem_cons] at hbody
  have hnone : PyChar.scalar '"' ∉ fsdecode bytes :=
    plain_not_mem h (by decide) (mustQuote_quote quotePath)
  simp [hnone] at hbody

/-- A header of a plain path is split at its delimiters. -/
theorem splitGitHeaderTokens_plain (h : isQuoted quotePath bytes = false) :
    splitGitHeaderTokens
        (textToken quotePath 'a' bytes ++ .scalar ' ' :: textToken quotePath 'b' bytes)
      = splitUnquoted (strip (textToken quotePath 'a' bytes
        ++ .scalar ' ' :: textToken quotePath 'b' bytes)) := by
  have hquote := quote_not_mem_header h
  have hhead : ∃ rest, strip (textToken quotePath 'a' bytes
      ++ .scalar ' ' :: textToken quotePath 'b' bytes) = .scalar 'a' :: rest := by
    rw [textToken_plain h, textToken_plain h]
    exact ⟨_, strip_cons rfl _⟩
  obtain ⟨rest, hrest⟩ := hhead
  unfold splitGitHeaderTokens
  simp only
  rw [if_neg (by rw [hrest]; simp), if_neg (by rw [hrest]; simp),
    lastQuotedMarker_none [] hquote]

theorem decodeGitPathToken_plain {token : Text} (h : token.head? ≠ some (.scalar '"')) :
    decodeGitPathToken token = some token := if_pos h

/-- What a header of a plain path gives does not end with white space. -/
theorem gitHeaderDestination_plain_last (h : isQuoted quotePath bytes = false) {c : PyChar}
    (hlast : (gitHeaderDestination
      (textToken quotePath 'a' bytes ++ .scalar ' ' :: textToken quotePath 'b' bytes)).getLast?
        = some c) : PyChar.isSpace c = false := by
  have hquote := quote_not_mem_header h
  unfold gitHeaderDestination at hlast
  rw [splitGitHeaderTokens_plain h] at hlast
  cases hsplit : splitUnquoted (strip (textToken quotePath 'a' bytes
      ++ .scalar ' ' :: textToken quotePath 'b' bytes)) with
  | none =>
    rw [hsplit] at hlast
    cases hlast
  | some tokens =>
    obtain ⟨source, token⟩ := tokens
    obtain ⟨happend, hlong⟩ := splitUnquoted_suffix hsplit
    have hhead : token.head? ≠ some (.scalar '"') := by
      intro hhead
      have hmem := List.mem_append_right source
        (List.mem_cons_of_mem (.scalar ' ') (List.mem_of_mem_head? hhead))
      rw [happend] at hmem
      exact hquote hmem
    rw [hsplit] at hlast
    simp only [decodeGitPathToken_plain hhead] at hlast
    split at hlast
    · rw [List.getLast?_drop, if_neg (by omega)] at hlast
      have hstripped : (strip (textToken quotePath 'a' bytes
          ++ .scalar ' ' :: textToken quotePath 'b' bytes)).getLast? = some c := by
        rw [← happend]
        simp [List.getLast?_append, List.getLast?_cons, hlast]
      exact strip_last hstripped
    · cases hlast

end

/-- The header's destination is the path, unless stripping takes its end. -/
theorem gitHeaderDestination_iff (quotePath : Bool) {bytes : Bytes} (hne : fsdecode bytes ≠ []) :
    gitHeaderDestination
        (textToken quotePath 'a' bytes ++ .scalar ' ' :: textToken quotePath 'b' bytes)
      = fsdecode bytes ↔ KeepsEnd quotePath bytes := by
  unfold KeepsEnd
  cases hquoted : isQuoted quotePath bytes with
  | true =>
    have hsplit := splitGitHeaderTokens_quoted hquoted
    have hdecode := decodeGitPathToken_quoted hquoted
    have hread : gitHeaderDestination
        (textToken quotePath 'a' bytes ++ .scalar ' ' :: textToken quotePath 'b' bytes)
        = fsdecode bytes := by
      simp [gitHeaderDestination, hsplit, hdecode, ascii]
    simp [hread]
  | false =>
    simp only [Bool.false_eq_true, false_or]
    constructor
    · intro hread c hlast
      rw [← hread] at hlast
      exact gitHeaderDestination_plain_last hquoted hlast
    · intro hlast
      have hbody : strip (textToken quotePath 'a' bytes
          ++ .scalar ' ' :: textToken quotePath 'b' bytes)
          = ascii "a/" ++ fsdecode bytes ++ .scalar ' ' :: (ascii "b/" ++ fsdecode bytes) := by
        rw [textToken_plain hquoted, textToken_plain hquoted]
        refine strip_eq_self ?_ ?_
        · rintro c ⟨⟩
          rfl
        · intro c hc
          refine hlast c ?_
          rw [List.getLast?_append] at hc
          cases hend : (fsdecode bytes).getLast? with
          | none => exact absurd (List.getLast?_eq_none_iff.mp hend) hne
          | some d => simpa [List.getLast?_cons, hend] using hc
      have hdestination : decodeGitPathToken (ascii "b/" ++ fsdecode bytes)
          = some (ascii "b/" ++ fsdecode bytes) := decodeGitPathToken_plain (by simp [ascii])
      unfold gitHeaderDestination
      rw [splitGitHeaderTokens_plain hquoted, hbody, splitUnquoted_agree hne]
      simp only [hdestination]
      simp [ascii]

theorem tab_not_mem_quoteBytes (quotePath : Bool) (bytes : Bytes) :
    0x09 ∉ quoteBytes quotePath bytes := by
  intro hmem
  obtain ⟨b, -, hb⟩ := List.mem_flatMap.mp hmem
  split at hb
  · have hbyte := b.toNat_lt
    have hdigit : ∀ {n : Nat}, n < 8 → 0x09 ≠ octalDigit n := by
      intro n hn heq
      have hvalue := octalDigit_toNat hn
      rw [← heq] at hvalue
      have hnine : (0x09 : UInt8).toNat = 9 := rfl
      omega
    unfold escapeByte at hb
    split at hb
    · rename_i letter hletter
      simp only [List.mem_cons, List.not_mem_nil, or_false] at hb
      rcases hb with hb | rfl
      · exact absurd hb (by decide)
      · have hnone : gitCEscapes (.scalar (.ofNat (0x09 : UInt8).toNat)) = none := rfl
        rw [(escapeLetter?_cases hletter).2.2] at hnone
        cases hnone
    · simp only [List.mem_cons, List.not_mem_nil, or_false] at hb
      rcases hb with hb | hb | hb | hb
      · exact absurd hb (by decide)
      · exact hdigit (by omega) hb
      · exact hdigit (by omega) hb
      · exact hdigit (by omega) hb
  · rename_i hkeep
    obtain rfl := List.mem_singleton.mp hb
    exact hkeep (mustQuote_tab quotePath)

theorem tab_not_mem_textToken (quotePath : Bool) (bytes : Bytes) :
    .scalar '\t' ∉ textToken quotePath 'b' bytes := by
  cases hquoted : isQuoted quotePath bytes with
  | true =>
    rw [textToken_quoted hquoted]
    intro hmem
    simp only [List.mem_cons, List.mem_append, List.not_mem_nil, or_false] at hmem
    have hbody : PyChar.scalar '\t' ∉ fsdecode (quoteBytes quotePath bytes) := fun hbody =>
      tab_not_mem_quoteBytes quotePath bytes (mem_of_scalar_mem (by decide) hbody)
    simp [hbody] at hmem
  | false =>
    rw [textToken_plain hquoted]
    have hbody : PyChar.scalar '\t' ∉ fsdecode bytes :=
      plain_not_mem hquoted (by decide) (mustQuote_tab quotePath)
    simp [hbody]

/-- The path of a `+++` line, after the tab has been cut off. -/
theorem plusHeaderPath_cut (quotePath : Bool) (bytes : Bytes) {tab : Text}
    (htab : tab = [] ∨ tab = [.scalar '\t']) :
    (textToken quotePath 'b' bytes ++ tab).takeWhile (· ≠ .scalar '\t')
      = textToken quotePath 'b' bytes := by
  have hall : ∀ c ∈ textToken quotePath 'b' bytes, decide (c ≠ .scalar '\t') = true := by
    intro c hc
    refine decide_eq_true fun heq => ?_
    exact tab_not_mem_textToken quotePath bytes (heq ▸ hc)
  rw [List.takeWhile_append_of_pos hall]
  rcases htab with rfl | rfl
  · simp
  · simp

/-- The same of the `+++` line, with the tab or without it. -/
theorem plusHeaderPath_iff (quotePath : Bool) (bytes : Bytes) {tab : Text}
    (htab : tab = [] ∨ tab = [.scalar '\t']) :
    plusHeaderPath (textToken quotePath 'b' bytes ++ tab) = some (fsdecode bytes)
      ↔ KeepsEnd quotePath bytes := by
  unfold plusHeaderPath KeepsEnd
  rw [plusHeaderPath_cut quotePath bytes htab]
  cases hquoted : isQuoted quotePath bytes with
  | true =>
    have hstrip : strip (textToken quotePath 'b' bytes) = textToken quotePath 'b' bytes := by
      rw [textToken_quoted hquoted]
      refine strip_eq_self ?_ ?_
      · rintro c ⟨⟩
        rfl
      · intro c hc
        simp [List.getLast?_cons] at hc
        rw [← hc]
        rfl
    rw [hstrip, decodeGitPathToken_quoted hquoted]
    simp [ascii]
  | false =>
    rw [textToken_plain hquoted]
    have hhead : (strip (.scalar 'b' :: .scalar '/' :: fsdecode bytes)).head?
        = some (.scalar 'b') := by
      rw [strip_cons rfl]
      rfl
    rw [decodeGitPathToken_plain (by rw [hhead]; simp)]
    have hnull : strip (.scalar 'b' :: .scalar '/' :: fsdecode bytes) ≠ ascii "/dev/null" := by
      intro heq
      rw [heq] at hhead
      exact absurd hhead (by decide)
    simp only [if_neg hnull, Bool.false_eq_true, false_or]
    constructor
    · intro hread c hlast
      split at hread
      · have hpath := Option.some.inj hread
        rw [← hpath, List.getLast?_drop] at hlast
        split at hlast
        · cases hlast
        · exact strip_last hlast
      · cases hread
    · intro hlast
      rw [strip_eq_self]
      · simp [ascii]
      · rintro c ⟨⟩
        rfl
      · intro c hc
        cases hend : (fsdecode bytes).getLast? with
        | none =>
          simp [List.getLast?_cons, hend] at hc
          rw [← hc]
          rfl
        | some d =>
          simp [List.getLast?_cons, hend] at hc
          exact hlast c (by rw [hend, hc])

/-! ## 12. Round trips -/

theorem RepoPath.text_ne_nil (path : RepoPath) : fsdecode path.bytes ≠ [] := by
  intro hnil
  have hbytes := fsencode_fsdecode path.bytes
  rw [hnil] at hbytes
  have hempty : path.bytes = [] := hbytes.symm
  have hparts := path.components [] (by rw [hempty]; simp)
  exact hparts.1 rfl

/-- What a header's pattern captures is what follows its first words. -/
theorem capture_body {n : Nat} {word : Text} (body : Text) (hword : word.length = n)
    (hne : body ≠ []) :
    (if word.isPrefixOf (word ++ body) ∧ (word ++ body).length ≠ n then
      some ((word ++ body).drop n) else none) = some body := by
  have hstart : word.isPrefixOf (word ++ body) = true :=
    List.isPrefixOf_iff_prefix.mpr (List.prefix_append word body)
  have hlength : (word ++ body).length ≠ n := by
    have hpos := List.length_pos_iff.mpr hne
    rw [List.length_append]
    omega
  rw [if_pos ⟨hstart, hlength⟩, ← hword, List.drop_left]

/-- **Git's rendering of a path is decoded to the path** exactly when Git
quotes the path or it does not end with white space. -/
theorem git_path_decoded_iff (quotePath : Bool) (path : RepoPath) :
    ((captureGitHeader (fsdecode (gitHeaderLine quotePath path))).map gitHeaderDestination
        = some (fsdecode path.bytes) ↔ KeepsEnd quotePath path.bytes)
      ∧ ((capturePlusHeader (fsdecode (plusHeaderLine quotePath path))).bind plusHeaderPath
        = some (fsdecode path.bytes) ↔ KeepsEnd quotePath path.bytes) := by
  have hheader : captureGitHeader (fsdecode (gitHeaderLine quotePath path))
      = some (textToken quotePath 'a' path.bytes
        ++ .scalar ' ' :: textToken quotePath 'b' path.bytes) := by
    rw [fsdecode_gitHeaderLine]
    exact capture_body _ rfl (by simp)
  have hplus : capturePlusHeader (fsdecode (plusHeaderLine quotePath path))
      = some (textToken quotePath 'b' path.bytes
        ++ if 0x20 ∈ path.bytes then [.scalar '\t'] else []) := by
    rw [fsdecode_plusHeaderLine]
    exact capture_body _ rfl (by
      cases hquoted : isQuoted quotePath path.bytes with
      | true => simp [textToken_quoted hquoted]
      | false => simp [textToken_plain hquoted])
  rw [hheader, hplus, Option.map_some, Option.bind_some, Option.some.injEq]
  refine ⟨gitHeaderDestination_iff quotePath path.text_ne_nil, plusHeaderPath_iff quotePath _ ?_⟩
  split
  · exact Or.inr rfl
  · exact Or.inl rfl

/-- A file whose name is `a `, with a space at its end. -/
def spacePath : RepoPath where
  bytes := [0x61, 0x20]
  no_nul := by decide
  components := by decide

theorem spacePath_text : fsdecode spacePath.bytes = ascii "a " := by
  have hbytes : spacePath.bytes = [0x61, 0x20] := rfl
  rw [hbytes, fsdecode_ascii (by decide), fsdecode_ascii (by decide), fsdecode_nil]
  rfl

theorem spacePath_token (side : Char) :
    textToken true side spacePath.bytes = .scalar side :: ascii "/a " := by
  rw [textToken_plain (by decide), spacePath_text]
  rfl

/-- Both headers lose the space. -/
theorem spacePath_loses_space :
    (captureGitHeader (fsdecode (gitHeaderLine true spacePath))).map gitHeaderDestination
        = some (ascii "a")
      ∧ (capturePlusHeader (fsdecode (plusHeaderLine true spacePath))).bind plusHeaderPath
        = some (ascii "a")
      ∧ fsdecode spacePath.bytes = ascii "a " := by
  rw [fsdecode_gitHeaderLine, fsdecode_plusHeaderLine, spacePath_token, spacePath_token,
    spacePath_text]
  decide

end MultiForge.Diff
