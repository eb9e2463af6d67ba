/-
MultiForge.Diff.AddedLines — the text that a diff adds.

A file section of a unified diff is its headers and its hunks. A policy
reads what `extract_added_lines` takes from the section's text, and that
tells lines apart by their first characters, after `str.splitlines` has
cut them. So it is the inserted text exactly when no inserted line begins
with `++` or holds a line separator, and no other line goes on with a
plus sign after one (`extractAddedLines_iff`).
-/
import MultiForge.Lib.LineEnds

namespace MultiForge.Diff

open Lines

/-! ## 1. `extract_added_lines` -/

/-- `text.splitlines()` -/
def lineTexts (text : List Char) : List (List Char) :=
  (splitLines text).map (·.takeWhile (!isLineBreak ·))

/-- A line that counts as added. -/
def countsAsAdded (line : List Char) : Bool :=
  ['+'].isPrefixOf line && !(['+', '+', '+'].isPrefixOf line)

/-- The added texts among the lines of a text. -/
def addedTexts (text : List Char) : List (List Char) :=
  ((lineTexts text).filter countsAsAdded).map (·.drop 1)

/-- `"\n".join(lines)` -/
def joinLines (lines : List (List Char)) : List Char := ['\n'].intercalate lines

/-- `extract_added_lines` -/
def extractAddedLines (diffChunk : List Char) : List Char := joinLines (addedTexts diffChunk)

/-! ## 2. Sections -/

/-- The text of one line. -/
structure Line where
  text : List Char
  one_line : '\n' ∉ text

inductive DiffLine where
  | context (line : Line)
  | removed (line : Line)
  | added (line : Line)
  /-- `\ No newline at end of file` -/
  | noNewline

structure Hunk where
  oldStart : Nat
  newStart : Nat
  /-- what follows the second `@@` -/
  heading : Line
  lines : List DiffLine

/-- A file section: header lines and hunks. -/
structure FileSection where
  headers : List Line
  hunks : List Hunk
  /-- a header that begins with a plus sign names the new file -/
  headers_plus : ∀ header ∈ headers, ['+'].isPrefixOf header.text = true →
    ['+', '+', '+'].isPrefixOf header.text = true

namespace DiffLine

def inOld : DiffLine → Bool
  | .context _ => true
  | .removed _ => true
  | _ => false

def inNew : DiffLine → Bool
  | .context _ => true
  | .added _ => true
  | _ => false

/-- The line as the diff has it. -/
def render : DiffLine → List Char
  | .context line => ' ' :: line.text
  | .removed line => '-' :: line.text
  | .added line => '+' :: line.text
  | .noNewline => "\\ No newline at end of file".toList

/-- The inserted line, if it is one. -/
def inserted? : DiffLine → Option Line
  | .added line => some line
  | _ => none

end DiffLine

/-- A range of a hunk header; a count of one is left out. -/
def renderRange (start count : Nat) : List Char :=
  (toString start).toList ++ if count = 1 then [] else ',' :: (toString count).toList

namespace Hunk

/-- The hunk header, with the counts of its lines. -/
def header (hunk : Hunk) : List Char :=
  "@@ -".toList ++ renderRange hunk.oldStart (hunk.lines.countP DiffLine.inOld)
    ++ " +".toList ++ renderRange hunk.newStart (hunk.lines.countP DiffLine.inNew)
    ++ " @@".toList ++ hunk.heading.text

end Hunk

/-- A line of a section, and what it inserts. -/
structure SectionLine where
  text : List Char
  inserted : Option (List Char)

namespace FileSection

variable (fileSection : FileSection)

def lines : List SectionLine :=
  (fileSection.headers.map fun header => ⟨header.text, none⟩)
    ++ fileSection.hunks.flatMap fun hunk => ⟨hunk.header, none⟩
      :: hunk.lines.map fun line => ⟨line.render, line.inserted?.map Line.text⟩

/-- The section's text; a line feed ends every line. -/
def text : List Char := fileSection.lines.flatMap fun line => line.text ++ ['\n']

/-- The lines that the hunks insert. -/
def inserted : List (List Char) := fileSection.lines.filterMap SectionLine.inserted

/-- What is taken for added in the lines that insert nothing. -/
def mistaken : List (List Char) :=
  (fileSection.lines.filter (·.inserted.isNone)).flatMap fun line =>
    addedTexts (line.text ++ ['\n'])

/-- Every inserted line can be seen, and nothing else is. -/
def Visible : Prop :=
  (∀ line ∈ fileSection.inserted,
    ['+', '+'].isPrefixOf line = false ∧ ∀ c ∈ line, isLineBreak c = false)
  -- one more empty text cannot be told from none
  ∧ (fileSection.mistaken = [] ∨ (fileSection.inserted = [] ∧ fileSection.mistaken = [[]]))

end FileSection

/-! ## 3. Lines of a text -/

/-- Lines can be told from their text, except one empty line from none. -/
theorem joinLines_inj {as bs : List (List Char)} (ha : ∀ a ∈ as, '\n' ∉ a)
    (hb : ∀ b ∈ bs, '\n' ∉ b) (h : joinLines as = joinLines bs) :
    as = bs ∨ (as = [] ∧ bs = [[]]) ∨ (as = [[]] ∧ bs = []) := by
  have hsplit : ∀ {ls : List (List Char)}, (∀ l ∈ ls, '\n' ∉ l) → ls ≠ [] →
      (joinLines ls).splitOn '\n' = ls := fun hls hne => List.splitOn_intercalate '\n' hls hne
  by_cases hnilA : as = []
  · by_cases hnilB : bs = []
    · exact Or.inl (hnilA.trans hnilB.symm)
    · have hempty := hsplit hb hnilB
      rw [← h, hnilA] at hempty
      exact Or.inr (Or.inl ⟨hnilA, hempty.symm⟩)
  · by_cases hnilB : bs = []
    · have hempty := hsplit ha hnilA
      rw [h, hnilB] at hempty
      exact Or.inr (Or.inr ⟨hempty.symm, hnilB⟩)
    · exact Or.inl ((hsplit ha hnilA).symm.trans ((congrArg _ h).trans (hsplit hb hnilB)))

theorem lineTexts_plain {text : List Char} (h : ∀ c ∈ text, isLineBreak c = false) :
    lineTexts (text ++ ['\n']) = [text] := by
  have htext : (text ++ ['\n']).takeWhile (!isLineBreak ·) = text := by
    rw [List.takeWhile_append_of_pos fun c hc => by simp [h c hc]]
    simp [isLineBreak_newline]
  rw [lineTexts, splitLines_plain h, List.map_singleton, htext]

/-- Text after a line feed is cut by itself. -/
theorem lineTexts_append (line after : List Char) :
    lineTexts (line ++ ['\n'] ++ after) = lineTexts (line ++ ['\n']) ++ lineTexts after := by
  have hlast : ∀ c, (line ++ ['\n']).getLast? = some c → c = '\n' := by
    intro c hc
    rw [List.getLast?_concat] at hc
    exact (Option.some.inj hc).symm
  rw [lineTexts, splitLines_append after hlast, List.map_append]
  rfl

/-- A line that was cut holds no separator. -/
theorem isLineBreak_of_mem_addedTexts {text line : List Char} (h : line ∈ addedTexts text) :
    ∀ c ∈ line, isLineBreak c = false := by
  intro c hc
  obtain ⟨cut, hcut, rfl⟩ := List.mem_map.mp h
  obtain ⟨whole, -, rfl⟩ := List.mem_map.mp (List.mem_filter.mp hcut).1
  simpa using List.mem_takeWhile_imp (List.mem_of_mem_drop hc)

/-- A text that counts as added does not begin with `++`. -/
theorem not_plus_of_mem_addedTexts {text line : List Char} (h : line ∈ addedTexts text) :
    ['+', '+'].isPrefixOf line = false := by
  obtain ⟨cut, hcut, rfl⟩ := List.mem_map.mp h
  have hcounts := (List.mem_filter.mp hcut).2
  cases cut with
  | nil => cases hcounts
  | cons c cs =>
    by_cases hplus : c = '+'
    · subst hplus
      simpa [countsAsAdded, List.isPrefixOf] using hcounts
    · simp [countsAsAdded, List.isPrefixOf, Ne.symm hplus] at hcounts

/-- An inserted line without separators counts, unless it begins with `++`. -/
theorem addedTexts_added {line : List Char} (h : ∀ c ∈ line, isLineBreak c = false)
    (hplus : ['+', '+'].isPrefixOf line = false) :
    addedTexts ('+' :: line ++ ['\n']) = [line] := by
  have hplain : ∀ c ∈ '+' :: line, isLineBreak c = false := by
    intro c hc
    rcases List.mem_cons.mp hc with rfl | hc
    · rfl
    · exact h c hc
  have hcounts : countsAsAdded ('+' :: line) = true := by
    simpa [countsAsAdded, List.isPrefixOf] using hplus
  rw [addedTexts, lineTexts_plain hplain]
  simp [hcounts]

/-! ## 4. Lines of a section -/

theorem addedTexts_lines : ∀ lines : List SectionLine,
    addedTexts (lines.flatMap fun line => line.text ++ ['\n'])
      = lines.flatMap fun line => addedTexts (line.text ++ ['\n'])
  | [] => rfl
  | line :: lines => by
      have ih := addedTexts_lines lines
      unfold addedTexts at *
      rw [List.flatMap_cons, lineTexts_append, List.filter_append, List.map_append, ih,
        List.flatMap_cons]

/-- What a line inserts is its text after the plus sign. -/
def SectionLine.Faithful (line : SectionLine) : Prop :=
  ∀ inserted, line.inserted = some inserted → line.text = '+' :: inserted ∧ '\n' ∉ inserted

theorem FileSection.faithful (fileSection : FileSection) :
    ∀ line ∈ fileSection.lines, line.Faithful := by
  intro line hline inserted hinserted
  rcases List.mem_append.mp hline with hheader | hhunk
  · obtain ⟨header, -, rfl⟩ := List.mem_map.mp hheader
    cases hinserted
  · obtain ⟨hunk, -, hmem⟩ := List.mem_flatMap.mp hhunk
    rcases List.mem_cons.mp hmem with rfl | hmem
    · cases hinserted
    · obtain ⟨diffLine, -, rfl⟩ := List.mem_map.mp hmem
      cases diffLine with
      | added line =>
        cases hinserted
        exact ⟨rfl, line.one_line⟩
      | context line => cases hinserted
      | removed line => cases hinserted
      | noNewline => cases hinserted

/-- Where every inserted line can be seen, the others add what is
mistaken. -/
theorem addedTexts_visible : ∀ {lines : List SectionLine}, (∀ line ∈ lines, line.Faithful) →
    (∀ text ∈ lines.filterMap SectionLine.inserted,
      ['+', '+'].isPrefixOf text = false ∧ ∀ c ∈ text, isLineBreak c = false) →
    (lines.flatMap fun line => addedTexts (line.text ++ ['\n'])).length
        = (lines.filterMap SectionLine.inserted).length
          + ((lines.filter (·.inserted.isNone)).flatMap fun line =>
            addedTexts (line.text ++ ['\n'])).length
      ∧ ((lines.filter (·.inserted.isNone)).flatMap (fun line =>
            addedTexts (line.text ++ ['\n'])) = [] →
          (lines.flatMap fun line => addedTexts (line.text ++ ['\n']))
            = lines.filterMap SectionLine.inserted)
  | [], _, _ => ⟨rfl, fun _ => rfl⟩
  | line :: lines, hfaithful, hseen => by
      have hrest := fun other hmem => hfaithful other (List.mem_cons_of_mem line hmem)
      cases hinserted : line.inserted with
      | none =>
        rw [List.filterMap_cons_none hinserted] at hseen ⊢
        obtain ⟨hlength, hsame⟩ := addedTexts_visible hrest hseen
        simp only [List.filter_cons, hinserted, Option.isNone_none, if_true, List.flatMap_cons,
          List.length_append]
        refine ⟨by omega, fun hnone => ?_⟩
        obtain ⟨hline, hothers⟩ := List.append_eq_nil_iff.mp hnone
        rw [hline, List.nil_append]
        exact hsame hothers
      | some text =>
        rw [List.filterMap_cons_some hinserted] at hseen ⊢
        obtain ⟨hplus, hplain⟩ := hseen text List.mem_cons_self
        obtain ⟨hlength, hsame⟩ := addedTexts_visible hrest fun other hmem =>
          hseen other (List.mem_cons_of_mem text hmem)
        have hadded := addedTexts_added hplain hplus
        rw [← (hfaithful line List.mem_cons_self text hinserted).1] at hadded
        simp only [List.filter_cons, hinserted, Option.isNone_some, Bool.false_eq_true, if_false,
          List.flatMap_cons, hadded, List.length_append, List.length_cons, List.length_nil]
        refine ⟨by omega, fun hnone => ?_⟩
        rw [hsame hnone]
        rfl

theorem mistaken_of_nothing_inserted {lines : List SectionLine}
    (h : lines.filterMap SectionLine.inserted = []) :
    lines.filter (·.inserted.isNone) = lines := by
  rw [List.filterMap_eq_nil_iff] at h
  exact List.filter_eq_self.mpr fun line hmem => by rw [h line hmem]; rfl

theorem countsAsAdded_cons {c : Char} (hc : c ≠ '+') (cs : List Char) :
    countsAsAdded (c :: cs) = false := by
  simp [countsAsAdded, List.isPrefixOf, Ne.symm hc]

/-- By its first characters, a line that inserts nothing does not count. -/
theorem FileSection.not_counted (fileSection : FileSection) {line : SectionLine}
    (hline : line ∈ fileSection.lines) (hnone : line.inserted = none) :
    countsAsAdded line.text = false := by
  rcases List.mem_append.mp hline with hheader | hhunk
  · obtain ⟨header, hmem, rfl⟩ := List.mem_map.mp hheader
    have hplus := fileSection.headers_plus header hmem
    simp only [countsAsAdded, Bool.and_eq_false_iff, Bool.not_eq_false']
    by_cases hfirst : ['+'].isPrefixOf header.text = true
    · exact Or.inr (hplus hfirst)
    · exact Or.inl (Bool.eq_false_iff.mpr hfirst)
  · obtain ⟨hunk, -, hmem⟩ := List.mem_flatMap.mp hhunk
    rcases List.mem_cons.mp hmem with rfl | hmem
    · exact countsAsAdded_cons (by decide) _
    · obtain ⟨diffLine, -, rfl⟩ := List.mem_map.mp hmem
      cases diffLine with
      | added line => cases hnone
      | context line => exact countsAsAdded_cons (by decide) _
      | removed line => exact countsAsAdded_cons (by decide) _
      | noNewline => exact countsAsAdded_cons (by decide) _

/-- Without separators nothing is mistaken. -/
theorem FileSection.mistaken_plain (fileSection : FileSection)
    (h : ∀ line ∈ fileSection.lines, ∀ c ∈ line.text, isLineBreak c = false) :
    fileSection.mistaken = [] := by
  rw [FileSection.mistaken, List.flatMap_eq_nil_iff]
  intro line hline
  obtain ⟨hmem, hnone⟩ := List.mem_filter.mp hline
  have hcount := fileSection.not_counted hmem (Option.isNone_iff_eq_none.mp hnone)
  rw [addedTexts, lineTexts_plain (h line hmem)]
  simp [hcount]

/-! ## 5. What a policy sees -/

theorem extractAddedLines_visible (fileSection : FileSection) (h : fileSection.Visible) :
    extractAddedLines fileSection.text = joinLines fileSection.inserted := by
  have htext : addedTexts fileSection.text
      = fileSection.lines.flatMap fun line => addedTexts (line.text ++ ['\n']) :=
    addedTexts_lines _
  obtain ⟨hseen, hmistaken | ⟨hnone, hempty⟩⟩ := h
  · have hsame := (addedTexts_visible fileSection.faithful hseen).2 hmistaken
    rw [← htext] at hsame
    exact congrArg joinLines hsame
  · have hall := mistaken_of_nothing_inserted hnone
    rw [FileSection.mistaken, hall, ← htext] at hempty
    rw [extractAddedLines, hempty, hnone]
    rfl

/-- **The added lines of a section**: exactly the inserted text, where
every inserted line can be seen and nothing is mistaken for one. -/
theorem extractAddedLines_iff (fileSection : FileSection) :
    extractAddedLines fileSection.text = joinLines fileSection.inserted
      ↔ fileSection.Visible := by
  have htext : addedTexts fileSection.text
      = fileSection.lines.flatMap fun line => addedTexts (line.text ++ ['\n']) :=
    addedTexts_lines _
  have hfaithful := fileSection.faithful
  constructor
  · intro h
    have hadded : ∀ line ∈ addedTexts fileSection.text, '\n' ∉ line := fun line hmem hnewline =>
      absurd (isLineBreak_of_mem_addedTexts hmem '\n' hnewline) (by decide)
    have hinserted : ∀ line ∈ fileSection.inserted, '\n' ∉ line := by
      intro line hmem
      obtain ⟨sectionLine, hline, hsome⟩ := List.mem_filterMap.mp hmem
      exact (hfaithful sectionLine hline line hsome).2
    rcases joinLines_inj hadded hinserted h with hsame | ⟨hnone, hempty⟩ | ⟨hempty, hnone⟩
    · have hseen : ∀ line ∈ fileSection.inserted,
          ['+', '+'].isPrefixOf line = false ∧ ∀ c ∈ line, isLineBreak c = false := by
        intro line hmem
        rw [← hsame] at hmem
        exact ⟨not_plus_of_mem_addedTexts hmem, isLineBreak_of_mem_addedTexts hmem⟩
      have hlength := (addedTexts_visible hfaithful hseen).1
      rw [← htext, hsame] at hlength
      refine ⟨hseen, Or.inl (List.eq_nil_of_length_eq_zero ?_)⟩
      simp only [FileSection.inserted, FileSection.mistaken] at hlength ⊢
      omega
    · -- an empty inserted line would have been seen
      have hseen : ∀ line ∈ fileSection.inserted,
          ['+', '+'].isPrefixOf line = false ∧ ∀ c ∈ line, isLineBreak c = false := by
        intro line hmem
        rw [hempty, List.mem_singleton] at hmem
        subst hmem
        exact ⟨rfl, fun c hc => absurd hc List.not_mem_nil⟩
      have hlength := (addedTexts_visible hfaithful hseen).1
      have hone : (fileSection.lines.filterMap SectionLine.inserted).length = 1 :=
        congrArg List.length hempty
      rw [← htext, hnone, hone] at hlength
      simp at hlength
      omega
    · have hall := mistaken_of_nothing_inserted hnone
      refine ⟨fun line hmem => ?_, Or.inr ⟨hnone, ?_⟩⟩
      · rw [hnone] at hmem
        cases hmem
      · rw [FileSection.mistaken, hall, ← htext, hempty]
  · exact extractAddedLines_visible fileSection

/-- Without separators only lines that begin with `++` are lost. -/
theorem extractAddedLines_plain (fileSection : FileSection)
    (hplain : ∀ line ∈ fileSection.lines, ∀ c ∈ line.text, isLineBreak c = false)
    (hplus : ∀ line ∈ fileSection.inserted, ['+', '+'].isPrefixOf line = false) :
    extractAddedLines fileSection.text = joinLines fileSection.inserted := by
  refine extractAddedLines_visible fileSection
    ⟨fun line hmem => ⟨hplus line hmem, fun c hc => ?_⟩,
      Or.inl (fileSection.mistaken_plain hplain)⟩
  obtain ⟨sectionLine, hline, hsome⟩ := List.mem_filterMap.mp hmem
  refine hplain sectionLine hline c ?_
  rw [(fileSection.faithful sectionLine hline line hsome).1]
  exact List.mem_cons_of_mem _ hc

/-- A line that adds `++i;` is taken for a header. -/
def incrementSection : FileSection where
  headers := [⟨"--- a/i.c".toList, by decide⟩, ⟨"+++ b/i.c".toList, by decide⟩]
  hunks := [⟨0, 1, ⟨[], by decide⟩, [.added ⟨"++i;".toList, by decide⟩]⟩]
  headers_plus := by decide

theorem increment_unseen :
    extractAddedLines incrementSection.text = []
      ∧ joinLines incrementSection.inserted = "++i;".toList
      ∧ extractAddedLines incrementSection.text ≠ joinLines incrementSection.inserted := by
  decide

end MultiForge.Diff
