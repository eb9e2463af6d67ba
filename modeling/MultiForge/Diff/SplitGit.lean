/-
MultiForge.Diff.SplitGit — a Git diff is cut at its files.

In the Git form a section reaches from a `diff --git` line to the next, and
every line of a hunk begins with a character of its own, so no content can
be taken for a header (`split_git`). The path is read from the `+++` line,
the `rename to` or `copy to` line or the header, whichever the change has,
and Git's rendering of it is decoded.
-/
import MultiForge.Diff.SplitPlain

namespace MultiForge.Diff

open FsCodec Lines Sections

/-! ## 1. Git's lines -/

/-- A path as a diff shows it; its bytes decode to this text. -/
structure NamedPath where
  quotePath : Bool
  path : RepoPath
  shown : List Char
  shown_eq : scalars shown
    = fsdecode (if isQuoted quotePath path.bytes then quoteBytes quotePath path.bytes
        else path.bytes)

namespace NamedPath

variable (named : NamedPath)

/-- The path as text. -/
def text : Text := fsdecode named.path.bytes

/-- The path with its prefix, in quotes where Git quotes it. -/
def token (side : Char) : List Char :=
  if isQuoted named.quotePath named.path.bytes then
    '"' :: side :: '/' :: named.shown ++ ['"']
  else side :: '/' :: named.shown

/-- The path without a prefix. -/
def bare : List Char :=
  if isQuoted named.quotePath named.path.bytes then '"' :: named.shown ++ ['"'] else named.shown

/-- A tab follows a path with a space. -/
def tab : List Char := if 0x20 ∈ named.path.bytes then ['\t'] else []

/-- The headers that strip white space do not take any from the path. -/
def Kept : Prop := KeepsEnd named.quotePath named.path.bytes

end NamedPath

/-- What a change does to its file. -/
inductive ChangeForm where
  | modified
  | created
  | deleted
  | renamed (source : NamedPath)
  | copied (source : NamedPath)

/-- An extended header line that names no file and deletes none. -/
structure Note (text : List Char) : Prop where
  one_line : '\n' ∉ text
  no_header : fileHeader? text = none
  no_plus : capture "+++ ".toList text = none
  no_deletion : isDeletedMode text = false
  no_rename : capture "rename to ".toList text = none
  no_copy : capture "copy to ".toList text = none

/-- The section of one file. -/
structure GitChange where
  target : NamedPath
  form : ChangeForm
  /-- the digits of the mode of a deleted file -/
  mode : Nat
  /-- modes, similarity, index, binary contents -/
  notes : List (List Char)
  noted : ∀ note ∈ notes, Note note
  hunks : List Hunk

namespace GitChange

variable (change : GitChange)

/-- The path before the change. -/
def source : NamedPath :=
  match change.form with
  | .renamed source => source
  | .copied source => source
  | _ => change.target

/-- What follows `diff --git `. -/
def headerBody : List Char := change.source.token 'a' ++ ' ' :: change.target.token 'b'

def headerLine : List Char := "diff --git ".toList ++ change.headerBody

theorem headerLine_eq : change.headerLine = "diff --git ".toList ++ change.headerBody := rfl

/-- The extended header lines that tell what becomes of the file. -/
def formLines : List (List Char) :=
  match change.form with
  | .deleted => ["deleted file mode ".toList ++ (toString change.mode).toList]
  | .renamed source =>
      ["rename from ".toList ++ source.bare, "rename to ".toList ++ change.target.bare]
  | .copied source =>
      ["copy from ".toList ++ source.bare, "copy to ".toList ++ change.target.bare]
  | _ => []

theorem formLines_deleted (h : change.form = .deleted) : change.formLines
    = ["deleted file mode ".toList ++ (toString change.mode).toList] := by
  obtain ⟨_, _, _, _, _, _⟩ := change
  cases h
  rfl

theorem formLines_renamed {source : NamedPath} (h : change.form = .renamed source) :
    change.formLines
      = ["rename from ".toList ++ source.bare, "rename to ".toList ++ change.target.bare] := by
  obtain ⟨_, _, _, _, _, _⟩ := change
  cases h
  rfl

theorem formLines_copied {source : NamedPath} (h : change.form = .copied source) :
    change.formLines
      = ["copy from ".toList ++ source.bare, "copy to ".toList ++ change.target.bare] := by
  obtain ⟨_, _, _, _, _, _⟩ := change
  cases h
  rfl

theorem formLines_plain (h : change.form = .modified ∨ change.form = .created) :
    change.formLines = [] := by
  obtain ⟨_, _, _, _, _, _⟩ := change
  rcases h with h | h
  · cases h
    rfl
  · cases h
    rfl

/-- What follows `+++ `. -/
def plusBody : List Char :=
  match change.form with
  | .deleted => "/dev/null".toList
  | _ => change.target.token 'b' ++ change.target.tab

/-- What follows `--- `. -/
def minusBody : List Char :=
  match change.form with
  | .created => "/dev/null".toList
  | _ => change.source.token 'a' ++ change.source.tab

/-- The hunks and the two lines before them, if there are any. -/
def patchLines : List (List Char) :=
  if change.hunks = [] then []
  else ("--- ".toList ++ change.minusBody) :: ("+++ ".toList ++ change.plusBody)
    :: change.hunks.flatMap Hunk.texts

/-- The lines after the header. -/
def bodyLines : List (List Char) := change.notes ++ change.formLines ++ change.patchLines

def text : List Char := joined (change.headerLine :: change.bodyLines)

def isDeleted : Bool :=
  match change.form with
  | .deleted => true
  | _ => false

/-- Only a `rename to` or `copy to` line gives the path back whatever its
end is. -/
def Decoded : Prop :=
  change.target.Kept
    ∨ change.hunks = [] ∧ (change.formLines ≠ [] ∧ change.isDeleted = false)

/-- The section, unless the file is deleted. -/
def kept? : Option (Text × List Char) :=
  if change.isDeleted then none else some (change.target.text, change.text)

end GitChange

/-! ## 2. Paths -/

section
variable (named : NamedPath)

theorem scalars_append (text after : List Char) :
    scalars (text ++ after) = scalars text ++ scalars after := List.map_append

theorem NamedPath.scalars_token (side : Char) :
    scalars (named.token side) = textToken named.quotePath side named.path.bytes := by
  have hshown := named.shown_eq
  unfold NamedPath.token textToken
  split
  · rename_i hquoted
    rw [if_pos hquoted] at hshown
    rw [← hshown]
    simp [scalars]
  · rename_i hquoted
    rw [if_neg hquoted] at hshown
    rw [← hshown]
    simp [scalars]

theorem newline_not_mem_quoteBytes (quotePath : Bool) (bytes : Bytes) :
    0x0A ∉ quoteBytes quotePath bytes := by
  intro hmem
  obtain ⟨b, -, hb⟩ := List.mem_flatMap.mp hmem
  split at hb
  · have hbyte := b.toNat_lt
    have hdigit : ∀ {n : Nat}, n < 8 → 0x0A ≠ octalDigit n := by
      intro n hn heq
      have hvalue := octalDigit_toNat hn
      rw [← heq] at hvalue
      have hten : (0x0A : UInt8).toNat = 10 := rfl
      omega
    unfold escapeByte at hb
    split at hb
    · rename_i letter hletter
      simp only [List.mem_cons, List.not_mem_nil, or_false] at hb
      rcases hb with hb | rfl
      · exact absurd hb (by decide)
      · have hnone : gitCEscapes (.scalar (.ofNat (0x0A : UInt8).toNat)) = none := rfl
        rw [(escapeLetter?_cases hletter).2.2] at hnone
        cases hnone
    · simp only [List.mem_cons, List.not_mem_nil, or_false] at hb
      rcases hb with hb | hb | hb | hb
      · exact absurd hb (by decide)
      · exact hdigit (by omega) hb
      · exact hdigit (by omega) hb
      · exact hdigit (by omega) hb
  · rename_i hkeep
    obtain rfl := List.mem_singleton.mp hb
    exact hkeep (by cases quotePath <;> rfl)

theorem NamedPath.newline_not_mem_shown : '\n' ∉ named.shown := by
  intro hmem
  have hscalar : PyChar.scalar '\n' ∈ scalars named.shown := List.mem_map_of_mem hmem
  rw [named.shown_eq] at hscalar
  cases hquoted : isQuoted named.quotePath named.path.bytes with
  | true =>
    rw [hquoted, if_pos rfl] at hscalar
    exact newline_not_mem_quoteBytes _ _ (mem_of_scalar_mem (by decide) hscalar)
  | false =>
    rw [hquoted, if_neg (by simp)] at hscalar
    exact plain_not_mem hquoted (by decide) (by cases named.quotePath <;> rfl) hscalar

theorem NamedPath.newline_not_mem_token {side : Char} (hside : side ≠ '\n') :
    '\n' ∉ named.token side := by
  have hshown := named.newline_not_mem_shown
  unfold NamedPath.token
  split <;> simp [hshown, Ne.symm hside]

theorem NamedPath.newline_not_mem_bare : '\n' ∉ named.bare := by
  have hshown := named.newline_not_mem_shown
  unfold NamedPath.bare
  split <;> simp [hshown]

theorem NamedPath.newline_not_mem_tab : '\n' ∉ named.tab := by
  unfold NamedPath.tab
  split <;> simp

theorem NamedPath.token_ne_nil (side : Char) : named.token side ≠ [] := by
  unfold NamedPath.token
  split <;> simp

/-- A `rename to` line gives the path back. -/
theorem NamedPath.metadataDestination_bare : metadataDestination named.bare = named.text := by
  have hshown := named.shown_eq
  cases hquoted : isQuoted named.quotePath named.path.bytes with
  | true =>
    rw [hquoted, if_pos rfl] at hshown
    have hbare : named.bare = '"' :: named.shown ++ ['"'] := by
      rw [NamedPath.bare, hquoted, if_pos rfl]
    have hcr : removeCr named.bare = named.bare := by
      rw [hbare, removeCr, if_neg (by simp [List.getLast?_cons])]
    have htoken : scalars named.bare
        = .scalar '"' :: (fsdecode (quoteBytes named.quotePath named.path.bytes)
          ++ [.scalar '"']) := by
      rw [hbare, ← hshown]
      simp [scalars]
    rw [metadataDestination, hcr, htoken, decodeGitPathToken, if_neg (by simp),
      if_neg (by simp [List.getLast?_cons]), List.drop_succ_cons, List.drop_zero,
      List.dropLast_concat, decodeEscapes_quoteBytes]
    rfl
  | false =>
    rw [hquoted, if_neg (by simp)] at hshown
    have hbare : named.bare = named.shown := by
      rw [NamedPath.bare, hquoted, if_neg (by simp)]
    have hcr : removeCr named.shown = named.shown := by
      rw [removeCr, if_neg]
      intro hlast
      have hmem : PyChar.scalar '\r' ∈ scalars named.shown :=
        List.mem_map_of_mem (List.mem_of_getLast? hlast)
      rw [hshown] at hmem
      exact plain_not_mem hquoted (by decide) (by cases named.quotePath <;> rfl) hmem
    have hplain : (scalars named.shown).head? ≠ some (.scalar '"') := by
      intro hhead
      have hmem := List.mem_of_mem_head? hhead
      rw [hshown] at hmem
      exact plain_not_mem hquoted (by decide) (by cases named.quotePath <;> rfl) hmem
    rw [metadataDestination, hbare, hcr, decodeGitPathToken_plain hplain, hshown]
    rfl

/-- The `+++` line gives the path back. -/
theorem NamedPath.plusHeaderPath_token (h : named.Kept) :
    plusHeaderPath (scalars (named.token 'b' ++ named.tab)) = some named.text := by
  have htab : scalars named.tab = [] ∨ scalars named.tab = [.scalar '\t'] := by
    unfold NamedPath.tab
    split
    · exact .inr rfl
    · exact .inl rfl
  rw [scalars_append, named.scalars_token]
  exact (plusHeaderPath_iff _ _ htab).mpr h

/-- No path in a repository is the null device. -/
theorem NamedPath.text_ne_null : named.text ≠ ascii "/dev/null" := by
  intro hnull
  have hbytes : fsencode named.text = named.path.bytes := fsencode_fsdecode _
  have hnil := named.path.components [] (by rw [← hbytes, hnull]; decide)
  exact hnil.1 rfl

end

/-! ## 3. Lines and patterns -/

/-- A line of a patch begins with one of these. -/
def Marked (text : List Char) : Prop :=
  text.head? = some '@' ∨ text.head? = some ' ' ∨ text.head? = some '-' ∨ text.head? = some '+'
    ∨ text.head? = some '\\'

theorem Marked.head_ne {text : List Char} (h : Marked text) {c : Char}
    (hc : c ∉ ['@', ' ', '-', '+', '\\']) : text.head? ≠ some c := by
  intro hhead
  unfold Marked at h
  rw [hhead] at h
  simp only [Option.some.injEq] at h
  simp only [List.mem_cons, List.not_mem_nil, or_false, not_or] at hc
  rcases h with h | h | h | h | h
  · exact hc.1 h
  · exact hc.2.1 h
  · exact hc.2.2.1 h
  · exact hc.2.2.2.1 h
  · exact hc.2.2.2.2 h

theorem newline_not_mem_renderRange (start count : Nat) : '\n' ∉ renderRange start count := by
  intro hmem
  exact absurd (isLineBreak_renderRange hmem) (by decide)

/-- The lines of a hunk are lines, and they are marked. -/
theorem hunk_texts {hunk : Hunk} {text : List Char} (h : text ∈ hunk.texts) :
    '\n' ∉ text ∧ Marked text := by
  rw [Hunk.texts, List.mem_cons, List.mem_map] at h
  rcases h with rfl | ⟨line, -, rfl⟩
  · refine ⟨?_, .inl (by simp [Hunk.header])⟩
    have hheading := hunk.heading.one_line
    simp [Hunk.header, newline_not_mem_renderRange, hheading]
  · cases line with
    | context line =>
      have hrender : (DiffLine.context line).render = ' ' :: line.text := rfl
      rw [hrender]
      exact ⟨by simp [line.one_line], .inr (.inl rfl)⟩
    | removed line =>
      have hrender : (DiffLine.removed line).render = '-' :: line.text := rfl
      rw [hrender]
      exact ⟨by simp [line.one_line], .inr (.inr (.inl rfl))⟩
    | added line =>
      have hrender : (DiffLine.added line).render = '+' :: line.text := rfl
      rw [hrender]
      exact ⟨by simp [line.one_line], .inr (.inr (.inr (.inl rfl)))⟩
    | noNewline =>
      rw [render_noNewline]
      exact ⟨by decide, .inr (.inr (.inr (.inr rfl)))⟩

/-- A search goes through the lines. -/
theorem searchLine_joined {word : List Char} (hword : '\n' ∉ word) {lines : List (List Char)}
    (h : ∀ line ∈ lines, '\n' ∉ line) :
    searchLine word (joined lines) = lines.findSome? (capture word) := by
  rw [searchLine, patternLines_joined h, List.findSome?_map]
  refine congrArg (List.findSome? · lines) (funext fun line => ?_)
  exact capture_congr hword (lineText_newline line [])

theorem any_joined {lines : List (List Char)} (h : ∀ line ∈ lines, '\n' ∉ line) :
    (patternLines (joined lines)).any isDeletedMode = lines.any isDeletedMode := by
  rw [patternLines_joined h, List.any_map]
  refine congrArg (List.any lines) (funext fun line => ?_)
  exact isDeletedMode_congr (lineText_newline line [])

/-- Words that differ in their first characters. -/
theorem capture_other {word other text : List Char} {n : Nat} (hword : n ≤ word.length)
    (hother : n ≤ other.length) (h : word.take n ≠ other.take n) :
    capture word (other ++ text) = none := by
  by_contra hsome
  obtain ⟨captured, hcaptured⟩ := Option.ne_none_iff_exists'.mp hsome
  obtain ⟨rest, hrest, -⟩ := capture_eq_some_iff.mp hcaptured
  have htake := congrArg (List.take n) hrest
  rw [List.take_append_of_le_length hother, List.take_append_of_le_length hword] at htake
  exact h htake.symm

theorem capture_word {word text : List Char} (hne : text ≠ []) (hplain : '\n' ∉ text) :
    capture word (word ++ text) = some text :=
  capture_eq_some_iff.mpr ⟨text, rfl, lineText_plain hplain, hne⟩

theorem isDeletedMode_none {text : List Char}
    (h : capture "deleted file mode ".toList text = none) :
    isDeletedMode text = false := by
  rw [isDeletedMode, h]

/-- The mode of a deleted file. -/
theorem isDeletedMode_digits (mode : Nat) :
    isDeletedMode ("deleted file mode ".toList ++ (toString mode).toList) = true := by
  have hdigits : ∀ c ∈ (toString mode).toList, isDigit c = true := fun c hc =>
    isDigit_toString hc
  have hne : (toString mode).toList ≠ [] := by
    rw [toString_toList]
    exact Nat.toDigits_ne_nil
  have hplain : '\n' ∉ (toString mode).toList := fun hmem =>
    absurd (isLineBreak_toString hmem) (by decide)
  have htake : (toString mode).toList.takeWhile isDigit = (toString mode).toList :=
    List.takeWhile_eq_self_iff.mpr hdigits
  have hdrop : (toString mode).toList.dropWhile isDigit = [] :=
    List.dropWhile_eq_nil_iff.mpr hdigits
  rw [isDeletedMode, capture_word hne hplain]
  simp only [htake, hdrop]
  cases hd : (toString mode).toList with
  | nil => exact absurd hd hne
  | cons c cs => rfl

/-- What each line after the header is to the patterns. -/
structure Inner (text : List Char) : Prop where
  one_line : '\n' ∉ text
  no_header : fileHeader? text = none

theorem Note.inner {text : List Char} (h : Note text) : Inner text := ⟨h.one_line, h.no_header⟩

theorem Marked.fileHeader?_none {text : List Char} (h : Marked text) : fileHeader? text = none :=
  Diff.fileHeader?_none (h.head_ne (by decide))

namespace GitChange

variable (change : GitChange)

theorem newline_not_mem_headerBody : '\n' ∉ change.headerBody := by
  have hsource := @NamedPath.newline_not_mem_token change.source 'a' (by decide)
  have htarget := @NamedPath.newline_not_mem_token change.target 'b' (by decide)
  simp [headerBody, hsource, htarget]

theorem headerBody_ne_nil : change.headerBody ≠ [] := by
  simp [headerBody]

theorem fileHeader?_headerLine :
    fileHeader? change.headerLine = some (.git, change.headerBody) := by
  rw [fileHeader?, headerLine_eq,
    capture_word change.headerBody_ne_nil change.newline_not_mem_headerBody, Option.map_some,
    Option.some_or]

/-- The lines that tell the form of the change are lines, and no headers. -/
theorem formLines_inner {text : List Char} (h : text ∈ change.formLines) : Inner text := by
  have htarget := change.target.newline_not_mem_bare
  cases hform : change.form with
  | modified =>
    rw [change.formLines_plain (.inl hform)] at h
    cases h
  | created =>
    rw [change.formLines_plain (.inr hform)] at h
    cases h
  | deleted =>
    have hdigits : '\n' ∉ (toString change.mode).toList := fun hmem =>
      absurd (isLineBreak_toString hmem) (by decide)
    rw [change.formLines_deleted hform, List.mem_singleton] at h
    rw [h]
    refine ⟨?_, ?_⟩
    · rw [List.mem_append, not_or]
      exact ⟨by decide, hdigits⟩
    · have hnone : ∀ {word : List Char}, 2 ≤ word.length → word.take 2 ≠ "de".toList →
          capture word ("deleted file mode ".toList ++ (toString change.mode).toList) = none :=
        fun hlength hword => capture_other hlength (by decide) hword
      rw [fileHeader?, hnone (by decide) (by decide), hnone (by decide) (by decide),
        hnone (by decide) (by decide)]
      rfl
  | renamed source =>
    have hsource := source.newline_not_mem_bare
    rw [change.formLines_renamed hform, List.mem_cons, List.mem_singleton] at h
    rcases h with rfl | rfl
    · exact ⟨by simp [hsource], Diff.fileHeader?_none (by simp)⟩
    · exact ⟨by simp [htarget], Diff.fileHeader?_none (by simp)⟩
  | copied source =>
    have hsource := source.newline_not_mem_bare
    rw [change.formLines_copied hform, List.mem_cons, List.mem_singleton] at h
    rcases h with rfl | rfl
    · exact ⟨by simp [hsource], Diff.fileHeader?_none (by simp)⟩
    · exact ⟨by simp [htarget], Diff.fileHeader?_none (by simp)⟩

/-- The first character of such a line. -/
theorem formLines_head {text : List Char} (h : text ∈ change.formLines) :
    change.form = .deleted ∧ text.head? = some 'd' ∨ text.head? = some 'r'
      ∨ text.head? = some 'c' := by
  cases hform : change.form with
  | modified =>
    rw [change.formLines_plain (.inl hform)] at h
    cases h
  | created =>
    rw [change.formLines_plain (.inr hform)] at h
    cases h
  | deleted =>
    rw [change.formLines_deleted hform, List.mem_singleton] at h
    exact .inl ⟨rfl, by rw [h]; simp⟩
  | renamed source =>
    rw [change.formLines_renamed hform, List.mem_cons, List.mem_singleton] at h
    rcases h with rfl | rfl
    · exact .inr (.inl (by simp))
    · exact .inr (.inl (by simp))
  | copied source =>
    rw [change.formLines_copied hform, List.mem_cons, List.mem_singleton] at h
    rcases h with rfl | rfl
    · exact .inr (.inr (by simp))
    · exact .inr (.inr (by simp))

theorem newline_not_mem_plusBody : '\n' ∉ change.plusBody := by
  have htoken := @NamedPath.newline_not_mem_token change.target 'b' (by decide)
  have htab := change.target.newline_not_mem_tab
  unfold plusBody
  split
  · decide
  · simp [htoken, htab]

theorem newline_not_mem_minusBody : '\n' ∉ change.minusBody := by
  have htoken := @NamedPath.newline_not_mem_token change.source 'a' (by decide)
  have htab := change.source.newline_not_mem_tab
  unfold minusBody
  split
  · decide
  · simp [htoken, htab]

theorem plusBody_ne_nil : change.plusBody ≠ [] := by
  unfold plusBody
  split
  · decide
  · simp [change.target.token_ne_nil]

/-- The lines of the patch are lines, and they are marked. -/
theorem patchLines_marked {text : List Char} (h : text ∈ change.patchLines) :
    '\n' ∉ text ∧ Marked text := by
  unfold patchLines at h
  split at h
  · cases h
  · rw [List.mem_cons, List.mem_cons, List.mem_flatMap] at h
    rcases h with rfl | rfl | ⟨hunk, -, htext⟩
    · exact ⟨by simp [change.newline_not_mem_minusBody], .inr (.inr (.inl rfl))⟩
    · exact ⟨by simp [change.newline_not_mem_plusBody], .inr (.inr (.inr (.inl rfl)))⟩
    · exact hunk_texts htext

theorem bodyLines_inner {text : List Char} (h : text ∈ change.bodyLines) : Inner text := by
  rw [bodyLines, List.mem_append, List.mem_append] at h
  rcases h with (h | h) | h
  · exact (change.noted text h).inner
  · exact change.formLines_inner h
  · exact ⟨(change.patchLines_marked h).1, (change.patchLines_marked h).2.fileHeader?_none⟩

theorem lines_one_line {text : List Char} (h : text ∈ change.headerLine :: change.bodyLines) :
    '\n' ∉ text := by
  rcases List.mem_cons.mp h with rfl | h
  · rw [headerLine_eq, List.mem_append, not_or]
    exact ⟨by decide, change.newline_not_mem_headerBody⟩
  · exact (change.bodyLines_inner h).one_line

theorem headerLine_head : change.headerLine.head? = some 'd' := by
  rw [headerLine_eq]
  simp

/-! ## 4. What the patterns find in a section -/

/-- A word that begins no header line, no note and no line of the patch is
searched among the lines that tell the form. -/
theorem search_form {word : List Char} {c : Char} (hword : word.head? = some c)
    (hc : c ∉ ['@', ' ', '-', '+', '\\', 'd']) (hplain : '\n' ∉ word)
    (hnotes : ∀ note ∈ change.notes, capture word note = none) :
    searchLine word change.text = change.formLines.findSome? (capture word) := by
  have hheader : capture word change.headerLine = none := by
    refine capture_none hword ?_
    have hd : c ≠ 'd' := by
      rintro rfl
      simp at hc
    rw [change.headerLine_head]
    exact fun heq => hd (Option.some.inj heq).symm
  have hmarks : c ∉ ['@', ' ', '-', '+', '\\'] := by
    simp only [List.mem_cons, List.not_mem_nil, or_false, not_or] at hc ⊢
    exact ⟨hc.1, hc.2.1, hc.2.2.1, hc.2.2.2.1, hc.2.2.2.2.1⟩
  have hpatch : change.patchLines.findSome? (capture word) = none :=
    List.findSome?_eq_none_iff.mpr fun text htext =>
      capture_none hword ((change.patchLines_marked htext).2.head_ne hmarks)
  have hnone : change.notes.findSome? (capture word) = none :=
    List.findSome?_eq_none_iff.mpr hnotes
  rw [text, searchLine_joined hplain fun line hline => change.lines_one_line hline,
    List.findSome?_cons, hheader, bodyLines, List.findSome?_append, List.findSome?_append,
    hnone, hpatch]
  simp

theorem search_plus : searchLine "+++ ".toList change.text
    = if change.hunks = [] then none else some change.plusBody := by
  have hplus : "+++ ".toList.head? = some '+' := rfl
  have hheader : capture "+++ ".toList change.headerLine = none :=
    capture_none hplus (by rw [change.headerLine_head]; decide)
  have hnotes : change.notes.findSome? (capture "+++ ".toList) = none :=
    List.findSome?_eq_none_iff.mpr fun note hnote => (change.noted note hnote).no_plus
  have hform : change.formLines.findSome? (capture "+++ ".toList) = none := by
    refine List.findSome?_eq_none_iff.mpr fun text htext => capture_none hplus ?_
    rcases change.formLines_head htext with ⟨-, hhead⟩ | hhead | hhead <;> rw [hhead] <;> decide
  have hpatch : change.patchLines.findSome? (capture "+++ ".toList)
      = if change.hunks = [] then none else some change.plusBody := by
    rw [patchLines]
    split
    · rfl
    · have hminus : capture "+++ ".toList ("--- ".toList ++ change.minusBody) = none :=
        capture_none hplus (by simp)
      have hfound : capture "+++ ".toList ("+++ ".toList ++ change.plusBody)
          = some change.plusBody :=
        capture_word change.plusBody_ne_nil change.newline_not_mem_plusBody
      rw [List.findSome?_cons, hminus, List.findSome?_cons, hfound]
  rw [text, searchLine_joined (by decide) fun line hline => change.lines_one_line hline,
    List.findSome?_cons, hheader, bodyLines, List.findSome?_append, List.findSome?_append,
    hnotes, hform, hpatch]
  rfl

theorem search_deleted :
    (patternLines change.text).any isDeletedMode = change.isDeleted := by
  rw [text, any_joined fun line hline => change.lines_one_line hline]
  have hword : "deleted file mode ".toList.head? = some 'd' := rfl
  have hheader : isDeletedMode change.headerLine = false := by
    rw [headerLine_eq]
    exact isDeletedMode_none (capture_other (n := 2) (by decide) (by decide) (by decide))
  have hnotes : change.notes.any isDeletedMode = false :=
    List.any_eq_false.mpr fun note hnote => by simp [(change.noted note hnote).no_deletion]
  have hpatch : change.patchLines.any isDeletedMode = false :=
    List.any_eq_false.mpr fun text htext => by
      rw [isDeletedMode_none (capture_none hword
        ((change.patchLines_marked htext).2.head_ne (by decide)))]
      simp
  have hform : change.formLines.any isDeletedMode = change.isDeleted := by
    unfold isDeleted
    split
    · rename_i hf
      rw [change.formLines_deleted hf, List.any_cons, isDeletedMode_digits]
      rfl
    · rename_i hf
      refine List.any_eq_false.mpr fun text htext => ?_
      have hhead : text.head? ≠ some 'd' := by
        rcases change.formLines_head htext with ⟨hdeleted, -⟩ | hhead | hhead
        · exact absurd hdeleted hf
        · rw [hhead]
          decide
        · rw [hhead]
          decide
      rw [isDeletedMode_none (capture_none hword hhead)]
      simp
  rw [List.any_cons, hheader, bodyLines, List.any_append, List.any_append, hnotes, hpatch, hform]
  simp

/-- The path of a renamed file. -/
theorem search_rename : searchLine "rename to ".toList change.text
    = change.formLines.findSome? (capture "rename to ".toList) :=
  change.search_form (c := 'r') rfl (by decide) (by decide) fun note hnote =>
    (change.noted note hnote).no_rename

theorem search_copy : searchLine "copy to ".toList change.text
    = change.formLines.findSome? (capture "copy to ".toList) :=
  change.search_form (c := 'c') rfl (by decide) (by decide) fun note hnote =>
    (change.noted note hnote).no_copy

theorem target_text_ne_nil : change.target.text ≠ [] := change.target.path.text_ne_nil

/-- A path that a metadata line gives back. -/
theorem metadata_target : ((some change.target.bare).map metadataDestination).getD []
    = change.target.text := change.target.metadataDestination_bare

theorem bare_ne_nil : change.target.bare ≠ [] := by
  intro hnil
  have hdest := change.target.metadataDestination_bare
  rw [hnil] at hdest
  exact change.target_text_ne_nil hdest.symm

/-- The path without a `+++` line. -/
theorem metadataPath_target (hform : change.isDeleted = false) (h : change.Decoded) :
    metadataPath (.git, change.headerBody) change.text = change.target.text := by
  have hheader : change.target.Kept → change.source = change.target →
      gitHeaderDestination (scalars change.headerBody) = change.target.text := by
    intro hkept hsame
    have hbody : scalars change.headerBody
        = textToken change.target.quotePath 'a' change.target.path.bytes ++ .scalar ' '
          :: textToken change.target.quotePath 'b' change.target.path.bytes := by
      rw [headerBody, hsame, scalars_append, change.target.scalars_token,
        ← change.target.scalars_token 'b']
      rfl
    rw [hbody]
    exact (gitHeaderDestination_iff _ change.target_text_ne_nil).mpr hkept
  have hplain : change.formLines = [] → change.source = change.target →
      metadataPath (.git, change.headerBody) change.text = change.target.text := by
    intro hnone hsame
    have hkept : change.target.Kept := h.resolve_right fun hlines => hlines.2.1 hnone
    unfold metadataPath
    rw [change.search_rename, change.search_copy, hnone]
    exact hheader hkept hsame
  cases hf : change.form with
  | modified =>
    refine hplain (change.formLines_plain (.inl hf)) ?_
    simp only [source, hf]
  | created =>
    refine hplain (change.formLines_plain (.inr hf)) ?_
    simp only [source, hf]
  | deleted =>
    simp only [isDeleted, hf] at hform
    cases hform
  | renamed source =>
    have hfrom : capture "rename to ".toList ("rename from ".toList ++ source.bare) = none :=
      capture_other (n := 8) (by decide) (by decide) (by decide)
    have hto : capture "rename to ".toList ("rename to ".toList ++ change.target.bare)
        = some change.target.bare :=
      capture_word change.bare_ne_nil change.target.newline_not_mem_bare
    have hfound : change.formLines.findSome? (capture "rename to ".toList)
        = some change.target.bare := by
      rw [change.formLines_renamed hf, List.findSome?_cons, hfrom, List.findSome?_cons, hto]
    unfold metadataPath
    rw [change.search_rename, hfound, change.metadata_target]
    simp only [if_pos change.target_text_ne_nil, ne_eq]
  | copied source =>
    have hnone : change.formLines.findSome? (capture "rename to ".toList) = none := by
      rw [change.formLines_copied hf]
      refine List.findSome?_eq_none_iff.mpr fun text htext => capture_none (c := 'r') rfl ?_
      rcases List.mem_cons.mp htext with rfl | htext
      · simp
      · rw [List.mem_singleton.mp htext]
        simp
    have hfrom : capture "copy to ".toList ("copy from ".toList ++ source.bare) = none :=
      capture_other (n := 6) (by decide) (by decide) (by decide)
    have hto : capture "copy to ".toList ("copy to ".toList ++ change.target.bare)
        = some change.target.bare :=
      capture_word change.bare_ne_nil change.target.newline_not_mem_bare
    have hfound : change.formLines.findSome? (capture "copy to ".toList)
        = some change.target.bare := by
      rw [change.formLines_copied hf, List.findSome?_cons, hfrom, List.findSome?_cons, hto]
    unfold metadataPath
    rw [change.search_rename, change.search_copy, hnone, hfound, change.metadata_target]
    simp [change.target_text_ne_nil]

/-- **What is made of the section of a change.** -/
theorem attribution (h : change.isDeleted = true ∨ change.Decoded) :
    chunkAttribution (.git, change.headerBody) change.text
      = if change.isDeleted then .deleted else .kept change.target.text := by
  unfold chunkAttribution
  dsimp only
  rw [change.search_deleted]
  by_cases hdeleted : change.isDeleted = true
  · rw [if_pos hdeleted, if_pos hdeleted]
    simp
  · have hdecoded : change.Decoded := h.resolve_left hdeleted
    have hform : change.isDeleted = false := by simpa using hdeleted
    have hpath : attributePath change.target.text = .kept change.target.text :=
      if_neg change.target_text_ne_nil
    rw [if_neg hdeleted, if_neg hdeleted, change.search_plus]
    by_cases hhunks : change.hunks = []
    · rw [if_pos hhunks]
      simpa [change.metadataPath_target hform hdecoded] using hpath
    · have hkept : change.target.Kept := hdecoded.resolve_right fun hlines => hhunks hlines.1
      have hbody : change.plusBody = change.target.token 'b' ++ change.target.tab := by
        unfold plusBody
        cases hf : change.form with
        | deleted =>
          simp only [isDeleted, hf] at hform
          cases hform
        | modified => rfl
        | created => rfl
        | renamed source => rfl
        | copied source => rfl
      have hnull := change.target.text_ne_null
      rw [if_neg hhunks, Option.map_some, hbody, change.target.plusHeaderPath_token hkept]
      simpa [hnull, change.target_text_ne_nil] using hpath

/-- The section as a part of the diff's lines. -/
def part : Part fileHeader? where
  head := change.headerLine ++ ['\n']
  value := (.git, change.headerBody)
  rest := change.bodyLines.map (· ++ ['\n'])
  heads := (fileHeader?_congr (lineText_newline change.headerLine [])).trans
    change.fileHeader?_headerLine
  plain := by
    intro line hline
    obtain ⟨text, htext, rfl⟩ := List.mem_map.mp hline
    exact (fileHeader?_congr (lineText_newline text [])).trans
      (change.bodyLines_inner htext).no_header

end GitChange

/-! ## 5. The round trip -/

theorem patternLines_append (texts : List (List Char)) (after : List Char) :
    patternLines (joined texts ++ after) = patternLines (joined texts) ++ patternLines after :=
  splitAfter_append after (ended_joined texts)

theorem patternLines_changes (changes : List GitChange) :
    patternLines (changes.flatMap GitChange.text)
      = (changes.map GitChange.part).flatMap Part.elements := by
  induction changes with
  | nil => rfl
  | cons change changes ih =>
    rw [List.flatMap_cons, GitChange.text, patternLines_append,
      patternLines_joined fun line hline => change.lines_one_line hline, ih, List.map_cons,
      List.map_cons, List.flatMap_cons]
    rfl

theorem patternLines_diff {before : List (List Char)} (hbefore : ∀ line ∈ before, '\n' ∉ line)
    (changes : List GitChange) :
    patternLines (joined before ++ changes.flatMap GitChange.text)
      = before.map (· ++ ['\n']) ++ (changes.map GitChange.part).flatMap Part.elements := by
  rw [patternLines_append, patternLines_joined hbefore, patternLines_changes]

/-- The sections are the changes. -/
theorem chunks_diff {before : List (List Char)} {changes : List GitChange}
    (hbefore : ∀ line ∈ before, '\n' ∉ line ∧ fileHeader? line = none)
    (hdecoded : ∀ change ∈ changes, change.isDeleted = true ∨ change.Decoded) :
    chunks (joined before ++ changes.flatMap GitChange.text)
      = changes.map fun change => (if change.isDeleted then .deleted else .kept change.target.text,
        change.text) := by
  have hnone : ∀ line ∈ before.map (· ++ ['\n']), fileHeader? line = none := by
    intro line hline
    obtain ⟨text, htext, rfl⟩ := List.mem_map.mp hline
    exact (fileHeader?_congr (lineText_newline text [])).trans (hbefore text htext).2
  rw [chunks, patternLines_diff fun line hline => (hbefore line hline).1,
    sections_flatMap hnone, List.map_map, List.map_map]
  refine List.map_congr_left fun change hchange => ?_
  have htext : change.part.elements.flatten = change.text := by
    rw [GitChange.text, joined, List.flatMap_def]
    rfl
  show (chunkAttribution (.git, change.headerBody) change.part.elements.flatten,
    change.part.elements.flatten) = _
  rw [htext, change.attribution (hdecoded change hchange)]

/-- A file `x`. -/
def xName : NamedPath where
  quotePath := true
  path := ⟨[0x78], by decide, by decide⟩
  shown := "x".toList
  shown_eq := by
    rw [if_neg (by decide), fsdecode_ascii (by decide), fsdecode_nil]
    rfl

theorem xName_text : xName.text = ascii "x" := by
  show fsdecode [0x78] = ascii "x"
  rw [fsdecode_ascii (by decide), fsdecode_nil]
  rfl

/-- A file whose name ends in a space. -/
def spaceName : NamedPath where
  quotePath := true
  path := spacePath
  shown := "a ".toList
  shown_eq := by
    rw [if_neg (by decide), spacePath_text]
    rfl

/-- An added line that looks like a header. -/
def forgedChange : GitChange where
  target := xName
  form := .modified
  mode := 0
  notes := []
  noted := by simp
  hunks := forgedHeader.hunks

/-- A rename that changes no line. -/
def renamedChange : GitChange where
  target := spaceName
  form := .renamed xName
  mode := 0
  notes := []
  noted := by simp
  hunks := []

/-- A file that is deleted. -/
def deletedChange : GitChange where
  target := xName
  form := .deleted
  mode := 100644
  notes := []
  noted := by simp
  hunks := []

theorem forgedChange_decoded : forgedChange.Decoded := by
  refine .inl (.inr fun c hc => ?_)
  have hlast : xName.text.getLast? = some c := hc
  rw [xName_text] at hlast
  cases hlast
  decide

end MultiForge.Diff
