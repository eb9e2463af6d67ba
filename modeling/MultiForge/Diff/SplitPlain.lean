/-
MultiForge.Diff.SplitPlain — a plain unified diff is cut at its files.

A file of a plain diff is a `---` line, a `+++` line and hunks. Nothing but
the counts of the hunk headers tells the lines of a hunk from headers, so
the walk must see as many lines as were counted: no line may hold another
line break than the one that ends it. Then every file is found, whatever
its lines look like (`split_plain`). The `---` line of a file is at the end
of the section before it.
-/
import MultiForge.Diff.AddedLines
import MultiForge.Diff.SplitPartition
import Mathlib.Algebra.Group.Nat.Defs

namespace MultiForge.Diff

open FsCodec Lines Sections

/-! ## 1. Plain diffs -/

/-- A text that `str.splitlines` leaves whole when a line feed ends it; it
may end with a carriage return. -/
def Unbroken (text : List Char) : Prop := ∀ c ∈ removeCr text, isLineBreak c = false

/-- A file of a plain diff; what follows `--- ` and `+++ `. -/
structure PlainFile where
  source : List Char
  target : List Char
  hunks : List Hunk

/-- The text of a line of a hunk. -/
def DiffLine.content : DiffLine → List Char
  | .context line => line.text
  | .removed line => line.text
  | .added line => line.text
  | .noNewline => []

def Hunk.texts (hunk : Hunk) : List (List Char) := hunk.header :: hunk.lines.map DiffLine.render

/-- The hunk can be counted: `int()` reads its counts, and no line of it is
taken for two. -/
structure Hunk.WellFormed (hunk : Hunk) : Prop where
  heading : Unbroken hunk.heading.text
  lines : ∀ line ∈ hunk.lines, Unbroken line.content
  counted : hunk.lines.length < 10 ^ maxStrDigits

namespace PlainFile

variable (file : PlainFile)

def sourceText : List Char := "--- ".toList ++ file.source ++ ['\n']

def sectionTexts : List (List Char) :=
  ("+++ ".toList ++ file.target) :: file.hunks.flatMap Hunk.texts

/-- The `+++` line and the hunks. -/
def sectionText : List Char := file.sectionTexts.flatMap (· ++ ['\n'])

def text : List Char := file.sourceText ++ file.sectionText

/-- What the `+++` line says. -/
def path? : Option Text := plusHeaderPath (scalars file.target)

structure WellFormed : Prop where
  source_ne_nil : file.source ≠ []
  target_ne_nil : file.target ≠ []
  source : Unbroken file.source
  target : Unbroken file.target
  hunks : ∀ hunk ∈ file.hunks, hunk.WellFormed

end PlainFile

/-- The sections of a plain diff: each reaches to the next `+++` line. -/
def plainParts : List PlainFile → List (Attribution × List Char)
  | [] => []
  | [file] => [(plusAttribution file.path?, file.sectionText)]
  | file :: next :: rest =>
      (plusAttribution file.path?, file.sectionText ++ next.sourceText) :: plainParts (next :: rest)

/-! ## 2. Lines that are left whole -/

theorem removeCr_cons {c : Char} (h : c ≠ '\r') (text : List Char) :
    removeCr (c :: text) = c :: removeCr text := by
  cases text with
  | nil => simp [removeCr, h]
  | cons d text =>
    unfold removeCr
    rw [List.getLast?_cons_cons]
    split <;> rfl

/-- A line that begins with another character is no hunk header. -/
theorem removeCr_head_ne {text : List Char} {c : Char} (h : text.head? = some c) (hcr : c ≠ '\r')
    (hat : c ≠ '@') : (removeCr text).head? ≠ some '@' := by
  obtain ⟨rest, rfl⟩ := List.head?_eq_some_iff.mp h
  rw [removeCr_cons hcr]
  exact fun heq => hat (Option.some.inj heq)

theorem unbroken_of_all {text : List Char}
    (h : ((removeCr text).all fun c => !isLineBreak c) = true) : Unbroken text :=
  fun c hc => by simpa using List.all_eq_true.mp h c hc

theorem Unbroken.cons {c : Char} {text : List Char} (h : Unbroken text)
    (hc : isLineBreak c = false) : Unbroken (c :: text) := by
  have hcr : c ≠ '\r' := by
    rintro rfl
    cases hc
  unfold Unbroken
  rw [removeCr_cons hcr]
  exact List.forall_mem_cons.mpr ⟨hc, h⟩

theorem Unbroken.append {text before : List Char} (h : Unbroken text)
    (hbefore : ∀ c ∈ before, isLineBreak c = false) : Unbroken (before ++ text) := by
  induction before with
  | nil => exact h
  | cons c before ih =>
    exact (ih fun d hd => hbefore d (List.mem_cons_of_mem c hd)).cons
      (hbefore c List.mem_cons_self)

/-- A text is what is left without its carriage return, and that. -/
theorem removeCr_cases (text : List Char) :
    removeCr text = text ∨ removeCr text ++ ['\r'] = text := by
  unfold removeCr
  split
  · exact .inr (List.dropLast_append_getLast? _ ‹_›)
  · exact .inl rfl

theorem splitLines_crlf_plain : ∀ {text : List Char}, (∀ c ∈ text, isLineBreak c = false) →
    splitLines (text ++ ['\r', '\n']) = [text ++ ['\r', '\n']]
  | [], _ => rfl
  | c :: cs, h => by
      have hc := h c List.mem_cons_self
      have hcr : c = '\r' → (cs ++ ['\r', '\n']).head? ≠ some '\n' := by
        rintro rfl
        cases hc
      have ih := splitLines_crlf_plain fun d hd => h d (List.mem_cons_of_mem c hd)
      rw [List.cons_append, splitLines_cons hcr, hc, ih]
      rfl

/-- Such a line is one line. -/
theorem Unbroken.splitLines {text : List Char} (h : Unbroken text) :
    splitLines (text ++ ['\n']) = [text ++ ['\n']] := by
  rcases removeCr_cases text with heq | heq
  · exact splitLines_plain (heq ▸ h)
  · rw [← heq, List.append_assoc]
    exact splitLines_crlf_plain h

theorem isEol_of_plain {c : Char} (h : isLineBreak c = false) : isEol c = false := by
  by_contra heol
  rw [isEol_isLineBreak (by simpa using heol)] at h
  cases h

theorem chomp_plain {text : List Char} (h : ∀ c ∈ text, isLineBreak c = false) :
    chomp text = text := by
  induction text using List.reverseRecOn with
  | nil => rfl
  | append_singleton text c _ =>
    refine List.rdropWhile_eq_self_iff.mpr fun hne => ?_
    rw [List.getLast_concat, isEol_of_plain (h c (by simp))]
    simp

theorem chomp_snoc {c : Char} (h : isEol c = true) (text : List Char) :
    chomp (text ++ [c]) = chomp text := by
  rw [chomp, List.rdropWhile_concat_pos _ _ _ h]
  rfl

theorem Unbroken.chomp {text : List Char} (h : Unbroken text) :
    chomp (text ++ ['\n']) = removeCr text := by
  rw [chomp_snoc rfl]
  rcases removeCr_cases text with heq | heq
  · rw [heq]
    exact chomp_plain (heq ▸ h)
  · conv_lhs => rw [← heq]
    rw [chomp_snoc rfl, chomp_plain h]

/-! ## 3. Hunk headers -/

theorem decimalValue?_digit {c : Char} (h : c.isDigit = true) :
    decimalValue? c = some (c.toNat - '0'.toNat) := by
  have hrange : 48 ≤ c.toNat ∧ c.toNat ≤ 57 := by
    simpa [Char.isDigit, UInt32.le_iff_toNat_le] using h
  have hfirst : decimalZeros.find? (fun start => start ≤ c.toNat && c.toNat < start + 10)
      = some 0x30 := by
    refine (List.find?_cons_of_pos ?_ : (0x30 :: decimalZeros.tail).find? _ = some 0x30)
    simp only [Bool.and_eq_true, decide_eq_true_eq]
    omega
  rw [decimalValue?, hfirst]
  rfl

theorem toString_toList (n : Nat) : (toString n).toList = Nat.toDigits 10 n :=
  Nat.toList_repr

theorem isDigit_toString {n : Nat} {c : Char} (h : c ∈ (toString n).toList) : isDigit c = true := by
  rw [toString_toList] at h
  unfold isDigit
  rw [decimalValue?_digit (Nat.isDigit_of_mem_toDigits (by decide) (by decide) h)]
  rfl

theorem digitRun_toString (n : Nat) {rest : List Char}
    (h : ∀ c, rest.head? = some c → isDigit c = false) :
    digitRun ((toString n).toList ++ rest) = some ((toString n).toList, rest) := by
  have hall : ∀ c ∈ (toString n).toList, isDigit c = true := fun c hc => isDigit_toString hc
  have hstop : rest.takeWhile isDigit = [] ∧ rest.dropWhile isDigit = rest := by
    cases rest with
    | nil => exact ⟨rfl, rfl⟩
    | cons c rest => simp [h c rfl]
  have hne : (toString n).toList ≠ [] := by
    rw [toString_toList]
    exact Nat.toDigits_ne_nil
  have htake : ((toString n).toList ++ rest).takeWhile isDigit = (toString n).toList := by
    rw [List.takeWhile_append_of_pos hall, hstop.1, List.append_nil]
  have hdrop : ((toString n).toList ++ rest).dropWhile isDigit = rest := by
    rw [List.dropWhile_append_of_pos hall, hstop.2]
  unfold digitRun
  rw [htake, hdrop]
  cases hdigits : (toString n).toList with
  | nil => exact absurd hdigits hne
  | cons d ds => rfl

/-- The count of a range as the header has it. -/
def countText (count : Nat) : Option (List Char) :=
  if count = 1 then none else some (toString count).toList

theorem rangeRun_renderRange (start count : Nat) (rest : List Char) :
    rangeRun (renderRange start count ++ ' ' :: rest) = some (countText count, ' ' :: rest) := by
  have hspace : ∀ c, (' ' :: rest).head? = some c → isDigit c = false := by
    rintro c ⟨⟩
    decide
  unfold rangeRun renderRange countText
  by_cases hone : count = 1
  · rw [if_pos hone, if_pos hone, List.append_nil, digitRun_toString start hspace]
    rfl
  · have hcomma : ∀ c, (',' :: ((toString count).toList ++ ' ' :: rest)).head? = some c →
        isDigit c = false := by
      rintro c ⟨⟩
      decide
    rw [if_neg hone, if_neg hone, List.append_assoc, List.cons_append,
      digitRun_toString start hcomma]
    simp only [digitRun_toString count hspace]

theorem foldl_digits (cs : List Char) (h : ∀ c ∈ cs, c.isDigit = true) (init : Nat) :
    cs.foldl (fun (value : Int) c => value * 10 + (decimalValue? c).getD 0) init
      = Nat.ofDigitChars 10 cs init := by
  induction cs generalizing init with
  | nil => rw [Nat.ofDigitChars_nil, List.foldl_nil]
  | cons c cs ih =>
    rw [List.foldl_cons, Nat.ofDigitChars_cons, ← ih fun d hd => h d (List.mem_cons_of_mem c hd),
      decimalValue?_digit (h c List.mem_cons_self)]
    congr 1
    simp
    omega

/-- A count that `int()` reads. -/
theorem readCount_countText {count : Nat} (h : count < 10 ^ maxStrDigits) :
    readCount (countText count) = .ok count := by
  unfold countText
  by_cases hone : count = 1
  · rw [if_pos hone, hone]
    rfl
  · have hlength : (toString count).toList.length ≤ maxStrDigits := by
      rw [toString_toList]
      exact (Nat.length_toDigits_le_iff (by decide) (by decide)).mpr h
    rw [if_neg hone, readCount, if_pos hlength, toString_toList]
    have hfold := foldl_digits (Nat.toDigits 10 count)
      (fun c hc => Nat.isDigit_of_mem_toDigits (by decide) (by decide) hc) 0
    rw [Nat.ofDigitChars_ten_toDigits] at hfold
    exact congrArg Except.ok hfold

theorem hunkHeader?_header {hunk : Hunk} :
    hunkHeader? (removeCr hunk.header) = some (countText (hunk.lines.countP DiffLine.inOld),
      countText (hunk.lines.countP DiffLine.inNew)) := by
  have hheader : removeCr hunk.header
      = "@@ -".toList ++ (renderRange hunk.oldStart (hunk.lines.countP DiffLine.inOld)
        ++ ' ' :: ("+".toList ++ (renderRange hunk.newStart (hunk.lines.countP DiffLine.inNew)
          ++ ' ' :: ("@@".toList ++ removeCr hunk.heading.text)))) := by
    have hat : '@' ≠ '\r' := by decide
    have htail : ∀ before : List Char, removeCr (before ++ '@' :: hunk.heading.text)
        = before ++ '@' :: removeCr hunk.heading.text := by
      intro before
      rw [← removeCr_cons hat]
      unfold removeCr
      rw [List.getLast?_append_of_ne_nil _ (List.cons_ne_nil _ _)]
      split
      · rw [List.dropLast_append_of_ne_nil (List.cons_ne_nil _ _)]
      · rfl
    have hshape : hunk.header
        = ("@@ -".toList ++ renderRange hunk.oldStart (hunk.lines.countP DiffLine.inOld)
          ++ " +".toList ++ renderRange hunk.newStart (hunk.lines.countP DiffLine.inNew)
          ++ " @".toList) ++ '@' :: hunk.heading.text := by
      simp [Hunk.header]
    rw [hshape, htail]
    simp
  rw [hheader]
  have hnew : (' ' :: ("+".toList ++ (renderRange hunk.newStart
      (hunk.lines.countP DiffLine.inNew)
        ++ ' ' :: ("@@".toList ++ removeCr hunk.heading.text)))).dropPrefix? " +".toList
      = some (renderRange hunk.newStart (hunk.lines.countP DiffLine.inNew)
          ++ ' ' :: ("@@".toList ++ removeCr hunk.heading.text)) :=
    dropPrefix?_iff.mpr rfl
  have hend : (' ' :: ("@@".toList ++ removeCr hunk.heading.text)).dropPrefix? " @@".toList
      = some (removeCr hunk.heading.text) := dropPrefix?_iff.mpr rfl
  unfold hunkHeader?
  rw [dropPrefix?_iff.mpr rfl]
  simp only [Option.bind_eq_bind, Option.bind_some, rangeRun_renderRange, hnew, hend]

theorem isLineBreak_toString {n : Nat} {c : Char} (h : c ∈ (toString n).toList) :
    isLineBreak c = false := by
  rw [toString_toList] at h
  have hdigit := Nat.isDigit_of_mem_toDigits (by decide) (by decide) h
  by_contra hbreak
  simp only [isLineBreak, Bool.not_eq_false, Bool.or_eq_true, decide_eq_true_eq] at hbreak
  rcases hbreak with ((((((((rfl | rfl) | rfl) | rfl) | rfl) | rfl) | rfl) | rfl) | rfl) | rfl <;>
    exact absurd hdigit (by decide)

theorem isLineBreak_renderRange {start count : Nat} {c : Char} (h : c ∈ renderRange start count) :
    isLineBreak c = false := by
  unfold renderRange at h
  rcases List.mem_append.mp h with h | h
  · exact isLineBreak_toString h
  · split at h
    · cases h
    · rcases List.mem_cons.mp h with rfl | h
      · rfl
      · exact isLineBreak_toString h

/-- A hunk header is one line. -/
theorem unbroken_header {hunk : Hunk} (h : hunk.WellFormed) : Unbroken hunk.header := by
  have hword : ∀ {word : List Char}, (word.all fun c => !isLineBreak c) = true →
      ∀ c ∈ word, isLineBreak c = false := fun hall c hc => by
    simpa using List.all_eq_true.mp hall c hc
  refine h.heading.append fun c hc => ?_
  simp only [List.mem_append] at hc
  rcases hc with (((hc | hc) | hc) | hc) | hc
  · exact hword (by decide) c hc
  · exact isLineBreak_renderRange hc
  · exact hword (by decide) c hc
  · exact isLineBreak_renderRange hc
  · exact hword (by decide) c hc

/-! ## 4. Steps of the walk -/

/-- The walk is at the line start after `before`. -/
structure At (diff before after : List Char) (walk : Walk) : Prop where
  text : diff = before ++ after
  ended : Ended (fun c => decide (c = '\n')) before
  offset : walk.offset = before.length

section
variable {diff before after text : List Char} {walk : Walk}

/-- The patterns are matched at what follows. -/
theorem At.matchAt (h : At diff before after walk) (word : List Char) :
    matchAt word diff walk.offset = capture word after := by
  have hstart : before.length = 0 ∨ diff[before.length - 1]? = some '\n' := by
    cases hlast : before.getLast? with
    | none => exact .inl (by rw [List.getLast?_eq_none_iff.mp hlast]; rfl)
    | some c =>
      have hc : c = '\n' := of_decide_eq_true (h.ended c hlast)
      rw [List.getLast?_eq_getElem?] at hlast
      rw [h.text, List.getElem?_append_left (List.getElem?_eq_some_iff.mp hlast).1, hlast, hc]
      exact .inr rfl
  rw [Diff.matchAt, h.offset, if_pos hstart, h.text, List.drop_left]

theorem At.next {walk' : Walk} (h : At diff before (text ++ ['\n'] ++ after) walk)
    (hoffset : walk'.offset = walk.offset + (text ++ ['\n']).length) :
    At diff (before ++ (text ++ ['\n'])) after walk' where
  text := by rw [h.text, List.append_assoc, List.append_assoc, List.append_assoc]
  ended := h.ended.append (ended_append_singleton (c := '\n') rfl text)
  offset := by rw [hoffset, h.offset, ← List.length_append]

theorem hunkHeader?_none (h : text.head? ≠ some '@') : hunkHeader? text = none := by
  unfold hunkHeader?
  cases hdrop : text.dropPrefix? "@@ -".toList with
  | none => rfl
  | some rest =>
    rw [dropPrefix?_iff.mp hdrop] at h
    exact absurd rfl h

theorem capture_none {c : Char} {word : List Char} (hword : word.head? = some c)
    (h : text.head? ≠ some c) : capture word text = none := by
  by_contra hsome
  obtain ⟨captured, hcaptured⟩ := Option.ne_none_iff_exists'.mp hsome
  obtain ⟨rest, rfl, -⟩ := capture_eq_some_iff.mp hcaptured
  exact h (by rw [List.head?_append, hword]; rfl)

/-- A line of an open hunk is counted. -/
theorem walkLine_open {old new : Int} (hremaining : walk.remaining = some (old, new))
    (htext : Unbroken text) :
    walkLine diff walk (text ++ ['\n'])
      = .ok { walk with
        remaining := countLine (removeCr text) old new
        offset := walk.offset + (text ++ ['\n']).length } := by
  simp only [walkLine, hremaining, htext.chomp]

/-- A hunk header opens its hunk. -/
theorem walkLine_hunk {hunk : Hunk} (hremaining : walk.remaining = none)
    (hwell : hunk.WellFormed) :
    walkLine diff walk (hunk.header ++ ['\n'])
      = .ok { walk with
        remaining := openHunk (hunk.lines.countP DiffLine.inOld) (hunk.lines.countP DiffLine.inNew)
        sourceHeaderPending := false
        offset := walk.offset + (hunk.header ++ ['\n']).length } := by
  have hcount : ∀ p : DiffLine → Bool, readCount (countText (hunk.lines.countP p))
      = .ok (hunk.lines.countP p : Int) := fun p =>
    readCount_countText (Nat.lt_of_le_of_lt List.countP_le_length hwell.counted)
  simp only [walkLine, hremaining, (unbroken_header hwell).chomp, hunkHeader?_header, hcount]
  rfl

/-- A destination header with its source before it. -/
theorem walkLine_plus {captured : List Char} (hremaining : walk.remaining = none)
    (htext : Unbroken text) (hhead : (removeCr text).head? ≠ some '@')
    (hplus : matchAt "+++ ".toList diff walk.offset = some captured)
    (hpending : walk.sourceHeaderPending = true) :
    walkLine diff walk (text ++ ['\n'])
      = .ok { walk with
        headers := walk.headers ++ [⟨walk.offset, plusHeaderPath (scalars captured)⟩]
        sourceHeaderPending := false
        offset := walk.offset + (text ++ ['\n']).length } := by
  simp only [walkLine, hremaining, htext.chomp, hunkHeader?_none hhead, hplus, hpending,
    Bool.true_or, if_true]

/-- Any other line. -/
theorem walkLine_other (hremaining : walk.remaining = none)
    (htext : Unbroken text) (hhead : (removeCr text).head? ≠ some '@')
    (hplus : matchAt "+++ ".toList diff walk.offset = none) :
    walkLine diff walk (text ++ ['\n'])
      = .ok { walk with
        sourceHeaderPending := (matchAt "--- ".toList diff walk.offset).isSome
        offset := walk.offset + (text ++ ['\n']).length } := by
  simp only [walkLine, hremaining, htext.chomp, hunkHeader?_none hhead, hplus]

end

/-! ## 5. Hunks -/

/-- What is left to count before these lines. -/
def remainingOf (lines : List DiffLine) : Option (Int × Int) :=
  openHunk (lines.countP DiffLine.inOld) (lines.countP DiffLine.inNew)

theorem unbroken_render {line : DiffLine} (h : Unbroken line.content) : Unbroken line.render := by
  cases line with
  | context line => exact h.cons rfl
  | removed line => exact h.cons rfl
  | added line => exact h.cons rfl
  | noNewline => exact unbroken_of_all (by decide)

theorem render_noNewline :
    DiffLine.noNewline.render = '\\' :: " No newline at end of file".toList := rfl

theorem countLine_noNewline (old new : Int) :
    countLine (removeCr DiffLine.noNewline.render) old new = some (old, new) := by
  have hhead : (removeCr DiffLine.noNewline.render).head? = some '\\' := by
    rw [render_noNewline, removeCr_cons (by decide)]
    rfl
  rw [countLine, if_pos hhead]

theorem stillOpen_count (old new : Nat) : stillOpen old new = openHunk old new := by
  unfold stillOpen openHunk
  by_cases h : old = 0 ∧ new = 0
  · rw [if_pos (by omega), if_pos (by omega)]
  · rw [if_neg (by omega), if_neg (by omega)]

theorem openHunk_eq_some {a b old new : Int} (h : openHunk a b = some (old, new)) :
    a = old ∧ b = new := by
  unfold openHunk at h
  split at h
  · cases h
  · cases h
    exact ⟨rfl, rfl⟩

/-- One line of an open hunk is counted. -/
theorem countLine_render {line : DiffLine} {lines : List DiffLine} {old new : Int}
    (h : remainingOf (line :: lines) = some (old, new)) :
    countLine (removeCr line.render) old new = remainingOf lines := by
  obtain ⟨rfl, rfl⟩ := openHunk_eq_some h
  have hcons : ∀ p : DiffLine → Bool, (((line :: lines).countP p : Nat) : Int)
      = lines.countP p + if p line then 1 else 0 := by
    intro p
    rw [List.countP_cons]
    split <;> simp
  cases line with
  | context line =>
    have hhead : removeCr (DiffLine.context line).render = ' ' :: removeCr line.text :=
      removeCr_cons (by decide) _
    rw [hhead, hcons, hcons, remainingOf, ← stillOpen_count]
    simp [countLine, DiffLine.inOld, DiffLine.inNew]
  | removed line =>
    have hhead : removeCr (DiffLine.removed line).render = '-' :: removeCr line.text :=
      removeCr_cons (by decide) _
    rw [hhead, hcons, hcons, remainingOf, ← stillOpen_count]
    simp [countLine, DiffLine.inOld, DiffLine.inNew]
  | added line =>
    have hhead : removeCr (DiffLine.added line).render = '+' :: removeCr line.text :=
      removeCr_cons (by decide) _
    rw [hhead, hcons, hcons, remainingOf, ← stillOpen_count]
    simp [countLine, DiffLine.inOld, DiffLine.inNew]
  | noNewline =>
    rw [countLine_noNewline, ← h]
    simp [remainingOf, DiffLine.inOld, DiffLine.inNew]

/-- After the last line that counts only markers follow. -/
theorem remainingOf_none {line : DiffLine} {lines : List DiffLine}
    (h : remainingOf (line :: lines) = none) : line = .noNewline ∧ remainingOf lines = none := by
  have hzero : (line :: lines).countP DiffLine.inOld = 0
      ∧ (line :: lines).countP DiffLine.inNew = 0 := by
    unfold remainingOf openHunk at h
    split at h
    · omega
    · cases h
  rw [List.countP_cons, List.countP_cons] at hzero
  obtain ⟨hold, hnew⟩ := hzero
  have hrest : remainingOf lines = none := by
    rw [remainingOf, openHunk, if_pos (by omega)]
  cases line with
  | noNewline => exact ⟨rfl, hrest⟩
  | context line => simp [DiffLine.inOld] at hold
  | removed line => simp [DiffLine.inOld] at hold
  | added line => simp [DiffLine.inNew] at hnew

/-- The text of lines, each with its line feed. -/
def joined (texts : List (List Char)) : List Char := texts.flatMap (· ++ ['\n'])

theorem joined_cons (text : List Char) (texts : List (List Char)) :
    joined (text :: texts) = text ++ ['\n'] ++ joined texts := rfl

theorem joined_append (texts others : List (List Char)) :
    joined (texts ++ others) = joined texts ++ joined others := List.flatMap_append ..

/-- A step that finds nothing. -/
def Walk.skip (walk : Walk) (text : List Char) : Walk :=
  { walk with
    remaining := none
    sourceHeaderPending := false
    offset := walk.offset + text.length }

theorem Walk.skip_skip (walk : Walk) (text after : List Char) :
    (walk.skip text).skip after = walk.skip (text ++ after) := by
  simp [Walk.skip, Nat.add_assoc]

/-- **The lines of a hunk are counted out.** -/
theorem walk_lines {diff after : List Char} {lines : List DiffLine} {before : List Char}
    {walk : Walk} (hat : At diff before (joined (lines.map DiffLine.render) ++ after) walk)
    (hlines : ∀ line ∈ lines, Unbroken line.content)
    (hremaining : walk.remaining = remainingOf lines)
    (hpending : walk.sourceHeaderPending = false) :
    ((lines.map DiffLine.render).map (· ++ ['\n'])).foldlM (walkLine diff) walk
      = .ok (walk.skip (joined (lines.map DiffLine.render))) := by
  induction lines generalizing before walk with
  | nil =>
    have hsame : walk.skip [] = walk := by
      cases walk
      simp_all [Walk.skip, remainingOf, openHunk]
    exact congrArg Except.ok hsame.symm
  | cons line lines ih =>
    have hline : Unbroken line.render := unbroken_render (hlines line List.mem_cons_self)
    have hrest : ∀ line' ∈ lines, Unbroken line'.content := fun line' hline' =>
      hlines line' (List.mem_cons_of_mem line hline')
    rw [List.map_cons, joined_cons, List.append_assoc] at hat
    rw [List.map_cons, List.map_cons, List.foldlM_cons, joined_cons]
    cases hcounts : remainingOf (line :: lines) with
    | some counts =>
      obtain ⟨old, new⟩ := counts
      rw [walkLine_open (hremaining.trans hcounts) hline, countLine_render hcounts]
      have hih := @ih (before ++ (line.render ++ ['\n']))
        { walk with
          remaining := remainingOf lines
          offset := walk.offset + (line.render ++ ['\n']).length }
        (hat.next rfl) hrest rfl hpending
      refine hih.trans (congrArg Except.ok ?_)
      simp only [Walk.skip, List.length_append, Nat.add_assoc]
    | none =>
      obtain ⟨rfl, hnone⟩ := remainingOf_none hcounts
      have hplus : matchAt "+++ ".toList diff walk.offset = none :=
        (hat.matchAt _).trans (capture_none (c := '+') rfl (by simp [render_noNewline]))
      have hminus : matchAt "--- ".toList diff walk.offset = none :=
        (hat.matchAt _).trans (capture_none (c := '-') rfl (by simp [render_noNewline]))
      have hhead : (removeCr DiffLine.noNewline.render).head? ≠ some '@' :=
        removeCr_head_ne (c := '\\') (by rw [render_noNewline]; rfl) (by decide) (by decide)
      rw [walkLine_other (hremaining.trans hcounts) hline hhead hplus, hminus]
      have hih := @ih (before ++ (DiffLine.noNewline.render ++ ['\n']))
        { walk with
          sourceHeaderPending := false
          offset := walk.offset + (DiffLine.noNewline.render ++ ['\n']).length }
        (hat.next rfl) hrest (hremaining.trans (hcounts.trans hnone.symm)) rfl
      refine hih.trans (congrArg Except.ok ?_)
      simp only [Walk.skip, List.length_append, Nat.add_assoc]

theorem ended_joined (texts : List (List Char)) :
    Ended (fun c => decide (c = '\n')) (joined texts) := by
  induction texts with
  | nil => exact ended_nil
  | cons text texts ih => exact (ended_append_singleton (c := '\n') rfl text).append ih

theorem At.skip {diff before after : List Char} {walk : Walk} {texts : List (List Char)}
    (h : At diff before (joined texts ++ after) walk) :
    At diff (before ++ joined texts) after (walk.skip (joined texts)) where
  text := by rw [h.text, List.append_assoc]
  ended := h.ended.append (ended_joined texts)
  offset := by
    rw [List.length_append, ← h.offset]
    rfl

/-- A hunk is passed. -/
theorem walk_hunk {diff before after : List Char} {walk : Walk} {hunk : Hunk}
    (hat : At diff before (joined hunk.texts ++ after) walk) (hwell : hunk.WellFormed)
    (hremaining : walk.remaining = none) :
    (hunk.texts.map (· ++ ['\n'])).foldlM (walkLine diff) walk
      = .ok (walk.skip (joined hunk.texts)) := by
  rw [Hunk.texts, joined_cons, List.append_assoc] at hat
  rw [Hunk.texts, List.map_cons, List.foldlM_cons, walkLine_hunk hremaining hwell, joined_cons]
  have hlines := @walk_lines diff after hunk.lines (before ++ (hunk.header ++ ['\n']))
    { walk with
      remaining := remainingOf hunk.lines
      sourceHeaderPending := false
      offset := walk.offset + (hunk.header ++ ['\n']).length }
    (hat.next rfl) hwell.lines rfl rfl
  refine hlines.trans (congrArg Except.ok ?_)
  simp only [Walk.skip, List.length_append, Nat.add_assoc]

/-- So are all the hunks of a file. -/
theorem walk_hunks {diff before after : List Char} {walk : Walk} {hunks : List Hunk}
    (hat : At diff before (joined (hunks.flatMap Hunk.texts) ++ after) walk)
    (hwell : ∀ hunk ∈ hunks, hunk.WellFormed) (hremaining : walk.remaining = none)
    (hpending : walk.sourceHeaderPending = false) :
    ((hunks.flatMap Hunk.texts).map (· ++ ['\n'])).foldlM (walkLine diff) walk
      = .ok (walk.skip (joined (hunks.flatMap Hunk.texts))) := by
  induction hunks generalizing before walk with
  | nil =>
    have hsame : walk.skip [] = walk := by
      cases walk
      simp_all [Walk.skip]
    exact congrArg Except.ok hsame.symm
  | cons hunk hunks ih =>
    rw [List.flatMap_cons, joined_append, List.append_assoc] at hat
    rw [List.flatMap_cons, List.map_append, List.foldlM_append, joined_append,
      walk_hunk hat (hwell hunk List.mem_cons_self) hremaining]
    have hrest := ih hat.skip (fun h hh => hwell h (List.mem_cons_of_mem hunk hh)) rfl rfl
    exact hrest.trans (congrArg Except.ok (walk.skip_skip _ _))

/-! ## 6. Files -/

namespace PlainFile

variable (file : PlainFile)

def texts : List (List Char) := ("--- ".toList ++ file.source) :: file.sectionTexts

theorem text_eq : file.text = joined file.texts := rfl

/-- The destination headers of files that stand at this offset. -/
def plusHeaders : Nat → List PlainFile → List PlusHeader
  | _, [] => []
  | offset, file :: files =>
      ⟨offset + file.sourceText.length, file.path?⟩ :: plusHeaders (offset + file.text.length) files

end PlainFile

/-- The two header lines of a file are one line each, and no hunk header. -/
theorem unbroken_word {word text : List Char} (h : Unbroken text)
    (hword : (word.all fun c => !isLineBreak c) = true) : Unbroken (word ++ text) :=
  h.append fun c hc => by simpa using List.all_eq_true.mp hword c hc

/-- A pattern captures what follows its word on the line. -/
theorem capture_line {word text : List Char} (hne : text ≠ []) (hplain : '\n' ∉ text)
    (after : List Char) : capture word (word ++ text ++ ['\n'] ++ after) = some text := by
  refine capture_eq_some_iff.mpr ⟨text ++ ('\n' :: after), by simp, ?_, hne⟩
  rw [lineText_newline, lineText_plain hplain]

theorem Unbroken.newline_not_mem {text : List Char} (h : Unbroken text) : '\n' ∉ text := by
  intro hmem
  rcases removeCr_cases text with heq | heq
  · exact absurd (h '\n' (by rw [heq]; exact hmem)) (by decide)
  · rw [← heq] at hmem
    rcases List.mem_append.mp hmem with hmem | hmem
    · exact absurd (h '\n' hmem) (by decide)
    · exact absurd (List.mem_singleton.mp hmem) (by decide)

/-- **A file is passed**, and its destination is found. -/
theorem walk_file {diff before after : List Char} {walk : Walk} {file : PlainFile}
    (hat : At diff before (file.text ++ after) walk) (hwell : file.WellFormed)
    (hremaining : walk.remaining = none) :
    (file.texts.map (· ++ ['\n'])).foldlM (walkLine diff) walk
      = .ok { headers := walk.headers ++ [⟨walk.offset + file.sourceText.length, file.path?⟩]
              sourceHeaderPending := false
              remaining := none
              offset := walk.offset + file.text.length } := by
  have hsource : Unbroken ("--- ".toList ++ file.source) := unbroken_word hwell.source (by decide)
  have htarget : Unbroken ("+++ ".toList ++ file.target) := unbroken_word hwell.target (by decide)
  have hsourceHead : (removeCr ("--- ".toList ++ file.source)).head? ≠ some '@' :=
    removeCr_head_ne (c := '-') (by simp) (by decide) (by decide)
  have htargetHead : (removeCr ("+++ ".toList ++ file.target)).head? ≠ some '@' :=
    removeCr_head_ne (c := '+') (by simp) (by decide) (by decide)
  have hshape : file.text ++ after = ("--- ".toList ++ file.source) ++ ['\n']
      ++ (("+++ ".toList ++ file.target) ++ ['\n']
        ++ (joined (file.hunks.flatMap Hunk.texts) ++ after)) := by
    simp only [PlainFile.text_eq, PlainFile.texts, PlainFile.sectionTexts, joined_cons,
      List.append_assoc]
  rw [hshape] at hat
  rw [PlainFile.texts, PlainFile.sectionTexts, List.map_cons, List.map_cons, List.foldlM_cons]
  -- the source line
  have hminus : matchAt "--- ".toList diff walk.offset = some file.source :=
    (hat.matchAt _).trans (capture_line hwell.source_ne_nil hwell.source.newline_not_mem _)
  have hnoplus : matchAt "+++ ".toList diff walk.offset = none :=
    (hat.matchAt _).trans (capture_none (c := '+') rfl (by simp))
  rw [walkLine_other hremaining hsource hsourceHead hnoplus, hminus]
  -- the destination line
  have hat1 : At diff (before ++ ("--- ".toList ++ file.source ++ ['\n']))
      (("+++ ".toList ++ file.target) ++ ['\n']
        ++ (joined (file.hunks.flatMap Hunk.texts) ++ after))
      { walk with
        sourceHeaderPending := true
        offset := walk.offset + ("--- ".toList ++ file.source ++ ['\n']).length } := hat.next rfl
  have hplus : matchAt "+++ ".toList diff
      (walk.offset + ("--- ".toList ++ file.source ++ ['\n']).length) = some file.target :=
    (hat1.matchAt _).trans (capture_line hwell.target_ne_nil hwell.target.newline_not_mem _)
  have hstep := @walkLine_plus diff ("+++ ".toList ++ file.target)
    { walk with
      sourceHeaderPending := true
      offset := walk.offset + ("--- ".toList ++ file.source ++ ['\n']).length }
    file.target hremaining htarget htargetHead hplus rfl
  -- the hunks
  have hhunks := @walk_hunks diff _ after
    { headers := walk.headers ++ [⟨walk.offset + file.sourceText.length, file.path?⟩]
      sourceHeaderPending := false
      remaining := walk.remaining
      offset := walk.offset + ("--- ".toList ++ file.source ++ ['\n']).length
        + ("+++ ".toList ++ file.target ++ ['\n']).length }
    file.hunks (hat1.next rfl) hwell.hunks hremaining rfl
  show (List.foldlM (walkLine diff) _ (_ :: _) : Except SplitError Walk) = _
  rw [List.foldlM_cons]
  refine (congrArg (· >>= _) hstep).trans (hhunks.trans (congrArg Except.ok ?_))
  simp only [Walk.skip, PlainFile.text_eq, PlainFile.texts, PlainFile.sectionTexts, joined_cons,
    List.length_append, Nat.add_assoc]

/-- **All files are passed.** -/
theorem walk_files {diff before : List Char} {walk : Walk} {files : List PlainFile}
    (hat : At diff before (files.flatMap PlainFile.text) walk)
    (hwell : ∀ file ∈ files, file.WellFormed) (hremaining : walk.remaining = none) :
    ∃ walk', ((files.flatMap PlainFile.texts).map (· ++ ['\n'])).foldlM (walkLine diff) walk
        = .ok walk'
      ∧ walk'.headers = walk.headers ++ PlainFile.plusHeaders walk.offset files := by
  induction files generalizing before walk with
  | nil => exact ⟨walk, rfl, (List.append_nil _).symm⟩
  | cons file files ih =>
    rw [List.flatMap_cons] at hat
    have hfile := walk_file hat (hwell file List.mem_cons_self) hremaining
    have hat' : At diff (before ++ file.text) (files.flatMap PlainFile.text)
        { headers := walk.headers ++ [⟨walk.offset + file.sourceText.length, file.path?⟩]
          sourceHeaderPending := false
          remaining := none
          offset := walk.offset + file.text.length } :=
      { text := by rw [hat.text, List.append_assoc]
        ended := hat.ended.append (ended_joined file.texts)
        offset := by rw [List.length_append, ← hat.offset] }
    obtain ⟨walk', hwalk, hheaders⟩ :=
      ih hat' (fun f hf => hwell f (List.mem_cons_of_mem file hf)) rfl
    refine ⟨walk', ?_, ?_⟩
    · rw [List.flatMap_cons, List.map_append, List.foldlM_append, hfile]
      exact hwalk
    · rw [hheaders, PlainFile.plusHeaders, List.append_assoc]
      rfl

/-- The sections at the destinations of the files. -/
theorem plusSections_files : ∀ (files : List PlainFile) (before : List Char),
    plusSections (before ++ files.flatMap PlainFile.text)
        (PlainFile.plusHeaders before.length files) = plainParts files
  | [], _ => rfl
  | [file], before => by
      have hdrop : (before ++ [file].flatMap PlainFile.text).drop
          (before.length + file.sourceText.length) = file.sectionText := by
        rw [List.flatMap_singleton, PlainFile.text, ← List.append_assoc, ← List.length_append,
          List.drop_left]
      simp only [PlainFile.plusHeaders, plusSections, plainParts, hdrop]
  | file :: next :: rest, before => by
      have ih := plusSections_files (next :: rest) (before ++ file.text)
      rw [List.length_append, List.append_assoc, ← List.flatMap_cons] at ih
      have hcut : ((before ++ (file :: next :: rest).flatMap PlainFile.text).drop
          (before.length + file.sourceText.length)).take
            (before.length + file.text.length + next.sourceText.length
              - (before.length + file.sourceText.length))
          = file.sectionText ++ next.sourceText := by
        have hshape : before ++ (file :: next :: rest).flatMap PlainFile.text
            = (before ++ file.sourceText) ++ ((file.sectionText ++ next.sourceText)
              ++ (next.sectionText ++ rest.flatMap PlainFile.text)) := by
          simp only [List.flatMap_cons, PlainFile.text, List.append_assoc]
        have hlength : before.length + file.text.length + next.sourceText.length
            - (before.length + file.sourceText.length)
            = (file.sectionText ++ next.sourceText).length := by
          simp only [PlainFile.text, List.length_append]
          omega
        rw [hshape, hlength, ← List.length_append, List.drop_left, List.take_left]
      simp only [PlainFile.plusHeaders] at ih
      simp only [PlainFile.plusHeaders, plusSections, plainParts, hcut, ih]

/-! ## 7. The round trip -/

/-- A plain diff. -/
def plainText (files : List PlainFile) : List Char := files.flatMap PlainFile.text

theorem plainText_eq (files : List PlainFile) :
    plainText files = joined (files.flatMap PlainFile.texts) := by
  induction files with
  | nil => rfl
  | cons file files ih =>
    rw [plainText, List.flatMap_cons, List.flatMap_cons, joined_append, ← ih]
    rfl

theorem head?_render (line : DiffLine) : line.render.head? ≠ some 'd' := by
  cases line with
  | context line => exact fun h => absurd (Option.some.inj h) (by decide)
  | removed line => exact fun h => absurd (Option.some.inj h) (by decide)
  | added line => exact fun h => absurd (Option.some.inj h) (by decide)
  | noNewline =>
    rw [render_noNewline]
    simp

/-- The lines of a plain diff are whole, and none begins as a file header does. -/
theorem texts_plain {file : PlainFile} (h : file.WellFormed) :
    ∀ text ∈ file.texts, Unbroken text ∧ text.head? ≠ some 'd' := by
  intro text htext
  rcases List.mem_cons.mp htext with rfl | htext
  · exact ⟨unbroken_word h.source (by decide), by simp⟩
  · rcases List.mem_cons.mp htext with rfl | htext
    · exact ⟨unbroken_word h.target (by decide), by simp⟩
    · obtain ⟨hunk, hhunk, htext⟩ := List.mem_flatMap.mp htext
      rw [Hunk.texts, List.mem_cons, List.mem_map] at htext
      rcases htext with rfl | ⟨line, hline, rfl⟩
      · exact ⟨unbroken_header (h.hunks hunk hhunk), by simp [Hunk.header]⟩
      · exact ⟨unbroken_render ((h.hunks hunk hhunk).lines line hline), head?_render line⟩

theorem splitLines_joined {texts : List (List Char)} (h : ∀ text ∈ texts, Unbroken text) :
    splitLines (joined texts) = texts.map (· ++ ['\n']) := by
  rw [joined, splitLines_flatMap]
  induction texts with
  | nil => rfl
  | cons text texts ih =>
    rw [List.flatMap_cons, (h text List.mem_cons_self).splitLines,
      ih fun t ht => h t (List.mem_cons_of_mem text ht)]
    rfl

theorem patternLines_joined {texts : List (List Char)} (h : ∀ text ∈ texts, '\n' ∉ text) :
    patternLines (joined texts) = texts.map (· ++ ['\n']) := by
  induction texts with
  | nil => rfl
  | cons text texts ih =>
    rw [joined_cons, List.append_assoc, List.singleton_append,
      patternLines_line (h text List.mem_cons_self),
      ih fun t ht => h t (List.mem_cons_of_mem text ht), List.map_cons]

theorem fileHeader?_none {text : List Char} (h : text.head? ≠ some 'd') :
    fileHeader? text = none := by
  have hgit : capture "diff --git ".toList text = none := capture_none (c := 'd') rfl h
  have hcc : capture "diff --cc ".toList text = none := capture_none (c := 'd') rfl h
  have hcombined : capture "diff --combined ".toList text = none := capture_none (c := 'd') rfl h
  rw [fileHeader?, hgit, hcc, hcombined]
  rfl

theorem splitDiff_plain {files : List PlainFile} (hwell : ∀ file ∈ files, file.WellFormed) :
    splitDiffPerFile (plainText files) = collect (plainParts files) := by
  cases files with
  | nil => rfl
  | cons first rest =>
    have hplain : ∀ text ∈ (first :: rest).flatMap PlainFile.texts,
        Unbroken text ∧ text.head? ≠ some 'd' := by
      intro text htext
      obtain ⟨file, hfile, htext⟩ := List.mem_flatMap.mp htext
      exact texts_plain (hwell file hfile) text htext
    have hblank : isBlank (plainText (first :: rest)) = false := by
      have hdash : '-' ∈ plainText (first :: rest) := by
        simp [plainText, PlainFile.text, PlainFile.sourceText]
      by_contra hall
      exact absurd (List.all_eq_true.mp (by simpa [isBlank] using hall) '-' hdash) (by decide)
    have hnone : ((patternLines (plainText (first :: rest))).any fun line =>
        (fileHeader? line).isSome) = false := by
      rw [plainText_eq, patternLines_joined fun text htext => (hplain text htext).1.newline_not_mem]
      refine List.any_eq_false.mpr fun line hline => ?_
      obtain ⟨text, htext, rfl⟩ := List.mem_map.mp hline
      have hhead : (text ++ ['\n']).head? ≠ some 'd' := by
        have htextHead := (hplain text htext).2
        cases text with
        | nil => simp
        | cons c text => simpa using htextHead
      rw [fileHeader?_none hhead]
      simp
    have hat : At (plainText (first :: rest)) [] ((first :: rest).flatMap PlainFile.text)
        ⟨[], false, none, 0⟩ := ⟨rfl, ended_nil, rfl⟩
    obtain ⟨walk, hwalk, hheaders⟩ := walk_files hat hwell rfl
    have hfound : headerlessPlusHeaders (plainText (first :: rest))
        = .ok (PlainFile.plusHeaders 0 (first :: rest)) := by
      have hlines : splitLines (plainText (first :: rest))
          = ((first :: rest).flatMap PlainFile.texts).map (· ++ ['\n']) := by
        rw [plainText_eq, splitLines_joined fun text htext => (hplain text htext).1]
      rw [headerlessPlusHeaders, hlines, hwalk]
      exact congrArg Except.ok hheaders
    rw [splitDiffPerFile, hblank, hnone, hfound]
    exact congrArg collect (plusSections_files (first :: rest) [])

theorem plainParts_attributions : ∀ files : List PlainFile,
    (plainParts files).map (·.1) = files.map fun file => plusAttribution file.path?
  | [] => rfl
  | [_] => rfl
  | _ :: next :: rest => congrArg (_ :: ·) (plainParts_attributions (next :: rest))

/-- The paths of the sections that are kept. -/
theorem map_keptSection (parts : List (Attribution × List Char)) :
    (parts.filterMap keptSection).map (·.1) = (parts.map (·.1)).filterMap fun attribution =>
      (keptSection (attribution, [])).map (·.1) := by
  induction parts with
  | nil => rfl
  | cons part parts ih =>
    obtain ⟨attribution, text⟩ := part
    cases attribution <;> simp [keptSection] at ih ⊢ <;> exact ih

theorem plusAttribution_none_iff {path : Option Text} :
    plusAttribution path = .unattributed ↔ path = none := by
  cases path with
  | none => exact iff_of_true rfl rfl
  | some path =>
    refine iff_of_false ?_ (Option.some_ne_none path)
    rw [plusAttribution]
    split <;> simp

theorem keptSection_plus (path : Option Text) :
    (keptSection (plusAttribution path, [])).map (·.1)
      = path.filter fun path => decide (path ≠ ascii "/dev/null") := by
  cases path with
  | none => rfl
  | some path =>
    by_cases hnull : path = ascii "/dev/null" <;>
      simp [plusAttribution, keptSection, Option.filter, hnull]

/-- **Every file of a plain diff is found**, with its path and in its
place, whatever its lines look like; only deleted files are left out. Where
some destinations are no paths, their number is told. -/
theorem split_plain {files : List PlainFile} (hwell : ∀ file ∈ files, file.WellFormed) :
    ((∀ file ∈ files, file.path? ≠ none) →
        splitDiffPerFile (plainText files) = .ok ((plainParts files).filterMap keptSection)
        ∧ ((plainParts files).filterMap keptSection).map (·.1)
          = (files.filterMap PlainFile.path?).filter (· ≠ ascii "/dev/null"))
      ∧ ((∃ file ∈ files, file.path? = none) →
        splitDiffPerFile (plainText files)
          = .error (.unattributed (files.countP fun file => file.path? = none))) := by
  have hparts := plainParts_attributions files
  rw [splitDiff_plain hwell]
  constructor
  · intro hnamed
    refine ⟨collect_ok fun part hpart hnone => ?_, ?_⟩
    · have hmem : part.1 ∈ (plainParts files).map (·.1) := List.mem_map_of_mem hpart
      rw [hparts] at hmem
      obtain ⟨file, hfile, heq⟩ := List.mem_map.mp hmem
      exact hnamed file hfile (plusAttribution_none_iff.mp (heq.trans hnone))
    · rw [map_keptSection, hparts, List.filterMap_map, List.filter_filterMap]
      exact congrArg (List.filterMap · files) (funext fun file => keptSection_plus file.path?)
  · rintro ⟨file, hfile, hnone⟩
    have hmem : Attribution.unattributed ∈ (plainParts files).map (·.1) := by
      rw [hparts]
      exact List.mem_map.mpr ⟨file, hfile, plusAttribution_none_iff.mpr hnone⟩
    obtain ⟨part, hpart, heq⟩ := List.mem_map.mp hmem
    rw [collect_error ⟨part, hpart, heq⟩]
    have hcount : (plainParts files).countP (fun part => decide (part.1 = .unattributed))
        = ((plainParts files).map (·.1)).countP fun attribution =>
          decide (attribution = .unattributed) := by
      rw [List.countP_map]
      rfl
    rw [hcount, hparts, List.countP_map]
    refine congrArg (fun n => Except.error (SplitError.unattributed n))
      (List.countP_congr fun file _ => ?_)
    simp [plusAttribution_none_iff]

/-- An added line that looks like a header. -/
def forgedHeader : PlainFile where
  source := "a/x".toList
  target := "b/x".toList
  hunks := [{
    oldStart := 0
    newStart := 1
    heading := ⟨" f".toList, by decide⟩
    lines := [.added ⟨"++ b/y".toList, by decide⟩, .noNewline] }]

/-- A file that is deleted. -/
def deletedFile : PlainFile where
  source := "a/z".toList
  target := "/dev/null".toList
  hunks := []

theorem forgedHeader_wellFormed : forgedHeader.WellFormed where
  source_ne_nil := by decide
  target_ne_nil := by decide
  source := unbroken_of_all (by decide)
  target := unbroken_of_all (by decide)
  hunks := by
    intro hunk hhunk
    rw [List.mem_singleton.mp hhunk]
    refine ⟨unbroken_of_all rfl, fun line hline => ?_, ?_⟩
    · rcases List.mem_cons.mp hline with rfl | hline
      · exact unbroken_of_all (by decide)
      · rw [List.mem_singleton.mp hline]
        exact unbroken_of_all rfl
    · show 2 < 10 ^ maxStrDigits
      have hpow : 10 ^ 1 ≤ 10 ^ maxStrDigits := Nat.pow_le_pow_right (by decide) (by decide)
      omega

theorem deletedFile_wellFormed : deletedFile.WellFormed where
  source_ne_nil := by decide
  target_ne_nil := by decide
  source := unbroken_of_all (by decide)
  target := unbroken_of_all (by decide)
  hunks := by simp [deletedFile]

theorem split_plain_forgedHeader :
    splitDiffPerFile (plainText [forgedHeader, deletedFile])
        = .ok ((plainParts [forgedHeader, deletedFile]).filterMap keptSection)
      ∧ ((plainParts [forgedHeader, deletedFile]).filterMap keptSection).map (·.1)
        = [ascii "x"] := by
  have hwell : ∀ file ∈ [forgedHeader, deletedFile], file.WellFormed := by
    intro file hfile
    rcases List.mem_cons.mp hfile with rfl | hfile
    · exact forgedHeader_wellFormed
    · exact List.mem_singleton.mp hfile ▸ deletedFile_wellFormed
  exact (split_plain hwell).1 (by decide +kernel)

end MultiForge.Diff
