/-
MultiForge.Lib.UnifiedDiff — a unified diff, written and read.

`unifiedDiff` lists the lines of the diff of two lists of lines, and
`withMarker` ends a line that has no newline with the marker of `diff`.
`applyDiff` reads the text of a diff the strict way: over lines that a
newline ends, with every hunk at the place its header names, every old
line found there, and the marker only behind a last line. The text that
was written for two lists of lines is read back hunk by hunk
(`readHunks_unifiedDiff`) and turns one into the other
(`applyHunks_covers`).
-/
import MultiForge.Json.RoundTrip
import MultiForge.Lib.Lines
import MultiForge.Lib.SequenceMatcher

namespace MultiForge.Difflib

open Json (natChars scanWhole)
open Lines (splitAfter)

/-! ## 1. `unified_diff` -/

/-- `_format_range_unified` -/
def formatRange (start stop : Nat) : List Char :=
  let length := stop - start
  if length = 1 then natChars (start + 1)
  else if length = 0 then natChars start ++ ',' :: natChars length
  else natChars (start + 1) ++ ',' :: natChars length

inductive Edit where
  | keep
  | remove
  | add
  deriving DecidableEq, Repr

def Edit.char : Edit → Char
  | .keep => ' '
  | .remove => '-'
  | .add => '+'

/-- The lines of an opcode. -/
def opcodeEdits {α : Type} (a b : List α) (c : Opcode) : List (Edit × α) :=
  match c.tag with
  | .equal => (slice a c.i1 c.i2).map (.keep, ·)
  | .delete => (slice a c.i1 c.i2).map (.remove, ·)
  | .insert => (slice b c.j1 c.j2).map (.add, ·)
  | .replace => (slice a c.i1 c.i2).map (.remove, ·) ++ (slice b c.j1 c.j2).map (.add, ·)

def headerLine (first last : Opcode) : List Char :=
  "@@ -".toList ++ (formatRange first.i1 last.i2 ++ (" +".toList
    ++ (formatRange first.j1 last.j2 ++ " @@\n".toList)))

def editLine (e : Edit × List Char) : List Char := e.1.char :: e.2

/-- The lines of a hunk. -/
def groupLines (a b : List (List Char)) (group : List Opcode) : List (List Char) :=
  match group.head?, group.getLast? with
  | some first, some last =>
      headerLine first last :: (group.flatMap (opcodeEdits a b)).map editLine
  | _, _ => []

/-- The lines that name the file. -/
def fileLines (fromfile tofile : List Char) : List (List Char) :=
  ["--- ".toList ++ fromfile ++ ['\n'], "+++ ".toList ++ tofile ++ ['\n']]

/-- `unified_diff` -/
def unifiedDiff (fromfile tofile : List Char) (a b : List (List Char)) : List (List Char) :=
  let groups := getGroupedOpcodes 3 a b
  if groups.isEmpty then []
  else fileLines fromfile tofile ++ groups.flatMap (groupLines a b)

def noNewline : List Char := "\\ No newline at end of file".toList ++ ['\n']

/-- A line, and the marker when no newline ends it. -/
def withMarker (line : List Char) : List Char :=
  if line.getLast? = some '\n' then line else line ++ '\n' :: noNewline

/-! ## 2. Reading a diff -/

def isNewline (c : Char) : Bool := c = '\n'

/-- The lines that a newline ends. -/
def newlineLines (text : List Char) : List (List Char) := splitAfter isNewline text

/-- A line before a marker has no newline. -/
def dropMarked : List (List Char) → List (List Char)
  | line :: next :: rest =>
      if next = noNewline then line.dropLast :: dropMarked rest
      else line :: dropMarked (next :: rest)
  | lines => lines

/-- A range of lines, as a hunk header has it. -/
structure Range where
  start : Nat
  count : Nat
  deriving DecidableEq, Repr

/-- The lines before the range. -/
def Range.before (r : Range) : Nat := if r.count = 0 then r.start else r.start - 1

structure Hunk (α : Type) where
  old : Range
  new : Range
  body : List (Edit × α)
  deriving DecidableEq, Repr

/-- A given text comes first. -/
def expect (text cs : List Char) : Option (List Char) :=
  if text.isPrefixOf cs then some (cs.drop text.length) else none

def readRange (cs : List Char) : Option (Range × List Char) :=
  match scanWhole cs with
  | some (start, ',' :: rest) => (scanWhole rest).map fun r => (⟨start, r.1⟩, r.2)
  | some (start, rest) => some (⟨start, 1⟩, rest)
  | none => none

def readHeader (line : List Char) : Option (Range × Range) := do
  let cs ← expect "@@ -".toList line
  let (old, cs) ← readRange cs
  let cs ← expect " +".toList cs
  let (new, cs) ← readRange cs
  if cs = " @@\n".toList then some (old, new) else none

/-- The hunks of a diff, and the lines before the first header. -/
def readHunks : List (List Char) →
    Option (List (Edit × List Char) × List (Hunk (List Char)))
  | [] => some ([], [])
  | line :: rest => do
      let (body, hunks) ← readHunks rest
      match line with
      | ' ' :: text => some ((.keep, text) :: body, hunks)
      | '-' :: text => some ((.remove, text) :: body, hunks)
      | '+' :: text => some ((.add, text) :: body, hunks)
      | _ =>
          let (old, new) ← readHeader line
          some ([], ⟨old, new, body⟩ :: hunks)

section Apply

variable {α : Type}

/-- The lines a hunk finds. -/
def oldLines (body : List (Edit × α)) : List α :=
  (body.filter (·.1 ≠ .add)).map Prod.snd

/-- The lines a hunk leaves. -/
def newLines (body : List (Edit × α)) : List α :=
  (body.filter (·.1 ≠ .remove)).map Prod.snd

/-- The hunks, applied behind `i` old and `j` new lines. -/
def applyHunks [DecidableEq α] : Nat → Nat → List α → List (Hunk α) → Option (List α)
  | _, _, lines, [] => some lines
  | i, j, lines, h :: hunks =>
      let skip := h.old.before - i
      let old := oldLines h.body
      let new := newLines h.body
      if i ≤ h.old.before ∧ skip ≤ lines.length ∧ h.new.before = j + skip
          ∧ old.length = h.old.count ∧ new.length = h.new.count
          ∧ old.isPrefixOf (lines.drop skip) then
        (applyHunks (h.old.before + old.length) (h.new.before + new.length)
          (lines.drop (skip + old.length)) hunks).map (lines.take skip ++ new ++ ·)
      else none

end Apply

/-- A diff, read over lines that a newline ends. -/
def applyDiff (fromfile tofile diff text : List Char) : Option (List Char) :=
  if diff = [] then some text
  else do
    let diff ← expect (fileLines fromfile tofile).flatten diff
    let (before, hunks) ← readHunks (dropMarked (newlineLines diff))
    let lines ← applyHunks 0 0 (newlineLines text) hunks
    -- only the last line may lack its newline
    if before = [] ∧ newlineLines lines.flatten = lines then some lines.flatten else none

/-! ## 3. The hunks turn one list into the other -/

section Covers

variable {α : Type}

/-- The range of the lines from `start` to `stop`. -/
def rangeOf (start stop : Nat) : Range :=
  ⟨if stop - start = 0 then start else start + 1, stop - start⟩

theorem before_rangeOf (start stop : Nat) : (rangeOf start stop).before = start := by
  simp only [Range.before, rangeOf]
  split <;> omega

/-- The hunk of a group. -/
def hunkOf (a b : List α) (group : List Opcode) : Option (Hunk α) :=
  match group.head?, group.getLast? with
  | some first, some last =>
      some ⟨rangeOf first.i1 last.i2, rangeOf first.j1 last.j2, group.flatMap (opcodeEdits a b)⟩
  | _, _ => none

/-- Where the last hunk ends; `e` is the end of the one before. -/
def shownEnd (e : Nat × Nat) : List (List Opcode) → Nat × Nat
  | [] => e
  | g :: gs =>
      shownEnd (match g.getLast? with | some last => (last.i2, last.j2) | none => e) gs

variable {a b : List α}

theorem oldLines_append (xs ys : List (Edit × α)) :
    oldLines (xs ++ ys) = oldLines xs ++ oldLines ys := by
  simp [oldLines]

theorem newLines_append (xs ys : List (Edit × α)) :
    newLines (xs ++ ys) = newLines xs ++ newLines ys := by
  simp [newLines]

theorem Opcode.Fits.edits {c : Opcode} (h : c.Fits a b) :
    oldLines (opcodeEdits a b c) = slice a c.i1 c.i2
      ∧ newLines (opcodeEdits a b c) = slice b c.j1 c.j2 := by
  obtain ⟨hi, hj, hfits⟩ := h
  unfold opcodeEdits
  cases htag : c.tag with
  | replace => simp [oldLines, newLines, List.filter_map, Function.comp_def]
  | delete =>
    rw [htag] at hfits
    dsimp only at hfits
    simp [oldLines, newLines, List.filter_map, Function.comp_def, ← hfits, slice_self]
  | insert =>
    rw [htag] at hfits
    dsimp only at hfits
    simp [oldLines, newLines, List.filter_map, Function.comp_def, ← hfits, slice_self]
  | equal =>
    rw [htag] at hfits
    obtain ⟨hlen, hagree⟩ := hfits
    have hsame := hagree.slice_eq
    rw [show c.i1 + (c.i2 - c.i1) = c.i2 by omega,
      show c.j1 + (c.i2 - c.i1) = c.j2 by omega] at hsame
    simp [oldLines, newLines, List.filter_map, Function.comp_def, hsame]

theorem Tiles.le : ∀ {g : List Opcode} {i j i' j' : Nat}, Tiles a b i j g i' j' →
    i ≤ i' ∧ j ≤ j'
  | [], _, _, _, _, ⟨hi, hj⟩ => ⟨hi.le, hj.le⟩
  | _ :: _, _, _, _, _, ⟨hi, hj, hfits, hrest⟩ => by
      have hle := hrest.le
      have h1 := hfits.1
      have h2 := hfits.2.1
      omega

/-- The lines of a group are those between its ends. -/
theorem Tiles.edits : ∀ {g : List Opcode} {i j i' j' : Nat}, Tiles a b i j g i' j' →
    oldLines (g.flatMap (opcodeEdits a b)) = slice a i i'
      ∧ newLines (g.flatMap (opcodeEdits a b)) = slice b j j'
  | [], _, _, _, _, ⟨hi, hj⟩ => by
      subst hi hj
      exact ⟨(slice_self _ _).symm, (slice_self _ _).symm⟩
  | c :: g, _, _, _, _, ⟨hi, hj, hfits, hrest⟩ => by
      subst hi hj
      obtain ⟨hold, hnew⟩ := hfits.edits
      obtain ⟨hold', hnew'⟩ := hrest.edits
      have hle := hrest.le
      rw [List.flatMap_cons, oldLines_append, newLines_append, hold, hnew, hold', hnew']
      exact ⟨slice_append hfits.1 hle.1, slice_append hfits.2.1 hle.2⟩

theorem Tiles.last : ∀ {g : List Opcode} {i j i' j' : Nat}, Tiles a b i j g i' j' → g ≠ [] →
    ∃ last, g.getLast? = some last ∧ last.i2 = i' ∧ last.j2 = j'
  | [c], _, _, _, _, ⟨_, _, _, hi, hj⟩, _ => ⟨c, rfl, hi, hj⟩
  | c :: d :: g, _, _, _, _, ⟨_, _, _, hrest⟩, _ => by
      rw [List.getLast?_cons_cons]
      exact Tiles.last hrest (List.cons_ne_nil _ _)

theorem Tiles.hunk {g : List Opcode} {i j i' j' : Nat} (h : Tiles a b i j g i' j') (hg : g ≠ []) :
    hunkOf a b g = some ⟨rangeOf i i', rangeOf j j', g.flatMap (opcodeEdits a b)⟩ := by
  obtain ⟨last, hlast, hi', hj'⟩ := h.last hg
  cases g with
  | nil => exact absurd rfl hg
  | cons c g =>
    obtain ⟨hi, hj, -⟩ := h
    rw [hunkOf, hlast, List.head?_cons]
    dsimp only
    rw [hi, hj, hi', hj']

theorem Tiles.shownEnd {g : List Opcode} {i j i' j' : Nat} (h : Tiles a b i j g i' j')
    (hg : g ≠ []) (e : Nat × Nat) (gs : List (List Opcode)) :
    shownEnd e (g :: gs) = shownEnd (i', j') gs := by
  obtain ⟨last, hlast, rfl, rfl⟩ := h.last hg
  rw [Difflib.shownEnd, hlast]

theorem Covers.shownEnd {p q : Nat} {gs : List (List Opcode)} (h : Covers a b p q gs) :
    p ≤ (shownEnd (p, q) gs).1 ∧ q ≤ (shownEnd (p, q) gs).2
      ∧ AgreeRest a b (shownEnd (p, q) gs).1 (shownEnd (p, q) gs).2 := by
  induction h with
  | rest hend => exact ⟨Nat.le_refl _, Nat.le_refl _, hend⟩
  | group hgap hgroup hg _ ih =>
    have hle := hgroup.le
    rw [hgroup.shownEnd hg]
    exact ⟨by omega, by omega, ih.2.2⟩

/-- The hunks of groups that cover the changes, applied: what is behind the
last hunk stays. -/
theorem applyHunks_covers [DecidableEq α] {p q : Nat} {gs : List (List Opcode)}
    (h : Covers a b p q gs) (rest : List α) :
    applyHunks p q (slice a p (Difflib.shownEnd (p, q) gs).1 ++ rest) (gs.filterMap (hunkOf a b))
      = some (slice b q (Difflib.shownEnd (p, q) gs).2 ++ rest) := by
  induction h with
  | rest hend => simp [Difflib.shownEnd, applyHunks, slice_self]
  | @group p q k i j g gs hgap hgroup hg hcovers ih =>
    rw [hgroup.shownEnd hg, List.filterMap_cons_some (hgroup.hunk hg)]
    obtain ⟨hie, hje, hrest⟩ := hcovers.shownEnd
    set e := Difflib.shownEnd (i, j) gs
    have hea : e.1 ≤ a.length := Nat.le_trans (Nat.le_add_right _ _) hrest.2.left
    have heb : e.2 ≤ b.length := Nat.le_trans (Nat.le_add_right _ _) hrest.2.right
    obtain ⟨hold, hnew⟩ := hgroup.edits
    obtain ⟨hpi, hqj⟩ := hgroup.le
    have hgapLen : (slice a p (p + k)).length = k := by
      rw [length_slice hgap.left]
      omega
    have hlines : slice a p e.1 ++ rest
        = slice a p (p + k) ++ (slice a (p + k) i ++ (slice a i e.1 ++ rest)) := by
      rw [← List.append_assoc (slice a (p + k) i), slice_append hpi hie, ← List.append_assoc,
        slice_append (Nat.le_add_right _ _) (Nat.le_trans hpi hie)]
    have holdLen : (slice a (p + k) i).length = i - (p + k) := length_slice (by omega)
    have hnewLen : (slice b (q + k) j).length = j - (q + k) := length_slice (by omega)
    rw [applyHunks]
    dsimp only
    rw [before_rangeOf, before_rangeOf, Nat.add_sub_cancel_left, hold, hnew, hlines,
      ← List.drop_drop, List.drop_left' hgapLen, List.drop_left, List.take_left' hgapLen, if_pos]
    · rw [holdLen, hnewLen, show p + k + (i - (p + k)) = i by omega,
        show q + k + (j - (q + k)) = j by omega, ih, Option.map_some, hgap.slice_eq]
      rw [List.append_assoc, ← List.append_assoc (slice b (q + k) j), slice_append hqj hje,
        ← List.append_assoc, slice_append (Nat.le_add_right _ _) (Nat.le_trans hqj hje)]
    · refine ⟨Nat.le_add_right _ _, ?_, rfl, holdLen, hnewLen, ?_⟩
      · rw [List.length_append, hgapLen]
        exact Nat.le_add_right _ _
      · exact List.isPrefixOf_iff_prefix.mpr (List.prefix_append _ _)

end Covers

/-! ## 4. What was written is read -/

/-- A newline at most at the end. -/
def OneLine (line : List Char) : Prop :=
  ∃ body, '\n' ∉ body ∧ (line = body ++ ['\n'] ∨ line = body)

theorem OneLine.cons {line : List Char} (h : OneLine line) {c : Char} (hc : c ≠ '\n') :
    OneLine (c :: line) := by
  obtain ⟨body, hbody, hline⟩ := h
  refine ⟨c :: body, by simp [hbody, Ne.symm hc], ?_⟩
  rcases hline with rfl | rfl
  · exact Or.inl rfl
  · exact Or.inr rfl

theorem newlineLines_append {body : List Char} (h : '\n' ∉ body) (rest : List Char) :
    newlineLines (body ++ '\n' :: rest) = (body ++ ['\n']) :: newlineLines rest := by
  have hbody : ∀ c ∈ body, isNewline c = false := by
    intro c hc
    refine decide_eq_false ?_
    rintro rfl
    exact h hc
  have hend : isNewline '\n' = true := rfl
  have hcut := Lines.splitAfter_append rest (Lines.ended_append_singleton hend body)
  rw [List.append_assoc, List.singleton_append, Lines.splitAfter_closed hend hbody] at hcut
  exact hcut

theorem newlineLines_noNewline (rest : List Char) :
    newlineLines (noNewline ++ rest) = noNewline :: newlineLines rest := by
  have htext : '\n' ∉ "\\ No newline at end of file".toList := by decide
  have hcut := newlineLines_append htext rest
  rw [← List.singleton_append, ← List.append_assoc] at hcut
  exact hcut

theorem ne_noNewline {line : List Char} (h : line.head? ≠ some '\\') : line ≠ noNewline := by
  rintro rfl
  exact h rfl

/-- A line of a diff. -/
structure Printed (line : List Char) : Prop where
  one : OneLine line
  nonempty : line ≠ []
  noMarker : line.head? ≠ some '\\'

theorem withMarker_newline (body : List Char) : withMarker (body ++ ['\n']) = body ++ ['\n'] := by
  simp [withMarker]

/-- What a marker would be taken for does not come next. -/
theorem dropMarked_cons {line : List Char} : ∀ {lines : List (List Char)},
    lines.head? ≠ some noNewline → dropMarked (line :: lines) = line :: dropMarked lines
  | [], _ => rfl
  | next :: rest, h => by
      rw [dropMarked, if_neg]
      rintro rfl
      exact h rfl

theorem withMarker_eq {line : List Char} (h : Printed line) (rest : List Char) :
    ∃ body, '\n' ∉ body ∧ body.head? ≠ some '\\'
      ∧ (line = body ++ ['\n'] ∧ withMarker line ++ rest = body ++ '\n' :: rest
        ∨ line = body ∧ withMarker line ++ rest = body ++ '\n' :: (noNewline ++ rest)) := by
  obtain ⟨⟨body, hbody, hline⟩, hne, hhead⟩ := h
  refine ⟨body, hbody, ?_, ?_⟩
  · rcases hline with rfl | rfl
    · cases body with
      | nil => simp
      | cons c cs => simpa using hhead
    · exact hhead
  · rcases hline with rfl | rfl
    · exact Or.inl ⟨rfl, by rw [withMarker_newline]; simp⟩
    · refine Or.inr ⟨rfl, ?_⟩
      rw [withMarker, if_neg]
      · simp
      · intro hlast
        exact hbody (List.mem_of_getLast? hlast)

/-- The lines of a diff are found in its text. -/
theorem dropMarked_withMarker : ∀ {lines : List (List Char)}, (∀ line ∈ lines, Printed line) →
    dropMarked (newlineLines (lines.flatMap withMarker)) = lines
      ∧ (newlineLines (lines.flatMap withMarker)).head? ≠ some noNewline
  | [], _ => ⟨rfl, nofun⟩
  | line :: lines, h => by
      obtain ⟨ih, hhead⟩ := dropMarked_withMarker fun other hmem =>
        h other (List.mem_cons_of_mem line hmem)
      obtain ⟨body, hbody, hstart, hline⟩ :=
        withMarker_eq (h line List.mem_cons_self) (lines.flatMap withMarker)
      have hne : body ++ ['\n'] ≠ noNewline := by
        refine ne_noNewline ?_
        cases body with
        | nil => simp
        | cons c cs => exact hstart
      rw [List.flatMap_cons]
      rcases hline with ⟨rfl, htext⟩ | ⟨rfl, htext⟩
      · rw [htext, newlineLines_append hbody, dropMarked_cons hhead, ih]
        exact ⟨rfl, fun e => hne (Option.some.inj e)⟩
      · rw [htext, newlineLines_append hbody, newlineLines_noNewline, dropMarked, if_pos rfl,
          List.dropLast_concat, ih]
        exact ⟨rfl, fun e => hne (Option.some.inj e)⟩

theorem expect_append (text cs : List Char) : expect text (text ++ cs) = some cs := by
  rw [expect, if_pos (List.isPrefixOf_iff_prefix.mpr (List.prefix_append _ _)), List.drop_left]

theorem digitEnd_of {c : Char} (h : Json.digit? c = none) (cs : List Char) :
    Json.DigitEnd (c :: cs) := Json.DigitEnd.cons h

theorem readRange_formatRange (start stop : Nat) (rest : List Char) :
    readRange (formatRange start stop ++ ' ' :: rest) = some (rangeOf start stop, ' ' :: rest) := by
  have hblank : Json.DigitEnd (' ' :: rest) := Json.DigitEnd.cons (by decide)
  have hcount : ∀ n m : Nat, readRange ((natChars n ++ ',' :: natChars m) ++ ' ' :: rest)
      = some (⟨n, m⟩, ' ' :: rest) := by
    intro n m
    have hcomma : Json.DigitEnd (',' :: (natChars m ++ ' ' :: rest)) :=
      Json.DigitEnd.cons (by decide)
    rw [List.append_assoc, List.cons_append, readRange, Json.scanWhole_natChars hcomma]
    show (scanWhole (natChars m ++ ' ' :: rest)).map _ = _
    rw [Json.scanWhole_natChars hblank]
    rfl
  unfold formatRange rangeOf
  by_cases hone : stop - start = 1
  · rw [if_pos hone, hone, readRange, Json.scanWhole_natChars hblank]
    rfl
  · rw [if_neg hone]
    by_cases hzero : stop - start = 0
    · rw [if_pos hzero, if_pos hzero]
      exact hcount start _
    · rw [if_neg hzero, if_neg hzero]
      exact hcount (start + 1) _

theorem readHeader_headerLine (first last : Opcode) :
    readHeader (headerLine first last)
      = some (rangeOf first.i1 last.i2, rangeOf first.j1 last.j2) := by
  have hplus : " +".toList ++ (formatRange first.j1 last.j2 ++ " @@\n".toList)
      = ' ' :: '+' :: (formatRange first.j1 last.j2 ++ " @@\n".toList) := rfl
  rw [readHeader, headerLine, expect_append, hplus]
  simp only [Option.bind_eq_bind, Option.bind_some]
  rw [readRange_formatRange, Option.bind_some]
  show (expect " +".toList (' ' :: '+' :: _)).bind _ = _
  rw [← hplus, expect_append, Option.bind_some]
  have hend : " @@\n".toList = ' ' :: "@@\n".toList := rfl
  rw [hend, readRange_formatRange, Option.bind_some]
  exact if_pos rfl

theorem readHunks_edits (edits : List (Edit × List Char)) (rest : List (List Char)) :
    readHunks (edits.map editLine ++ rest)
      = (readHunks rest).map fun r => (edits ++ r.1, r.2) := by
  induction edits with
  | nil =>
    rw [List.map_nil, List.nil_append]
    cases readHunks rest <;> rfl
  | cons edit edits ih =>
    obtain ⟨kind, text⟩ := edit
    rw [List.map_cons, List.cons_append, readHunks, ih]
    cases readHunks rest with
    | none => rfl
    | some r => cases kind <;> rfl

theorem readHunks_header (first last : Opcode) (edits : List (Edit × List Char))
    {rest : List (List Char)} {hunks : List (Hunk (List Char))}
    (h : readHunks rest = some ([], hunks)) :
    readHunks (headerLine first last :: (edits.map editLine ++ rest))
      = some ([], ⟨rangeOf first.i1 last.i2, rangeOf first.j1 last.j2, edits⟩ :: hunks) := by
  have hline : headerLine first last = '@' :: (headerLine first last).tail := rfl
  rw [readHunks, readHunks_edits, h]
  simp only [Option.map_some, List.append_nil, Option.bind_eq_bind, Option.bind_some]
  rw [hline]
  show (readHeader ('@' :: _)).bind _ = _
  rw [← hline, readHeader_headerLine]
  rfl

/-- The hunks of a written diff. -/
theorem readHunks_groups (a b : List (List Char)) : ∀ groups : List (List Opcode),
    readHunks (groups.flatMap (groupLines a b)) = some ([], groups.filterMap (hunkOf a b))
  | [] => rfl
  | g :: gs => by
      have ih := readHunks_groups a b gs
      rw [List.flatMap_cons, List.filterMap_cons]
      unfold groupLines hunkOf
      cases hfirst : g.head? with
      | none => exact ih
      | some first =>
        cases hlast : g.getLast? with
        | none => exact ih
        | some last => exact readHunks_header first last _ ih

theorem newline_not_mem_natChars (n : Nat) : '\n' ∉ natChars n := by
  obtain ⟨ds, hds, -⟩ := Json.natChars_eq_digits n
  rw [hds, List.mem_map]
  rintro ⟨d, -, hd⟩
  revert d
  decide

theorem newline_not_mem_formatRange (start stop : Nat) : '\n' ∉ formatRange start stop := by
  unfold formatRange
  dsimp only
  split
  · exact newline_not_mem_natChars _
  · split <;> simp [newline_not_mem_natChars]

theorem printed_headerLine (first last : Opcode) : Printed (headerLine first last) where
  one := by
    refine ⟨"@@ -".toList ++ (formatRange first.i1 last.i2 ++ (" +".toList
      ++ (formatRange first.j1 last.j2 ++ " @@".toList))), ?_, Or.inl ?_⟩
    · simp [newline_not_mem_formatRange]
    · simp [headerLine]
  nonempty := List.cons_ne_nil _ _
  noMarker := by
    show some '@' ≠ some '\\'
    decide

theorem printed_editLine {edit : Edit × List Char} (h : OneLine edit.2) :
    Printed (editLine edit) where
  one := h.cons (by cases edit.1 <;> decide)
  nonempty := List.cons_ne_nil _ _
  noMarker := by
    show some edit.1.char ≠ some '\\'
    cases edit.1 <;> decide

theorem mem_slice {α : Type} {xs : List α} {i j : Nat} {x : α} (h : x ∈ slice xs i j) : x ∈ xs :=
  List.mem_of_mem_take (List.mem_of_mem_drop h)

theorem mem_opcodeEdits {α : Type} {a b : List α} {c : Opcode} {edit : Edit × α}
    (h : edit ∈ opcodeEdits a b c) : edit.2 ∈ a ∨ edit.2 ∈ b := by
  have hleft : ∀ kind : Edit, edit ∈ (slice a c.i1 c.i2).map (kind, ·) → edit.2 ∈ a := by
    intro kind hmem
    obtain ⟨x, hx, rfl⟩ := List.mem_map.mp hmem
    exact mem_slice hx
  have hright : ∀ kind : Edit, edit ∈ (slice b c.j1 c.j2).map (kind, ·) → edit.2 ∈ b := by
    intro kind hmem
    obtain ⟨x, hx, rfl⟩ := List.mem_map.mp hmem
    exact mem_slice hx
  unfold opcodeEdits at h
  split at h
  · exact Or.inl (hleft _ h)
  · exact Or.inl (hleft _ h)
  · exact Or.inr (hright _ h)
  · rcases List.mem_append.mp h with h | h
    · exact Or.inl (hleft _ h)
    · exact Or.inr (hright _ h)

theorem printed_groups {a b : List (List Char)} (ha : ∀ x ∈ a, OneLine x)
    (hb : ∀ x ∈ b, OneLine x) (groups : List (List Opcode)) :
    ∀ line ∈ groups.flatMap (groupLines a b), Printed line := by
  intro line hline
  obtain ⟨group, -, hmem⟩ := List.mem_flatMap.mp hline
  unfold groupLines at hmem
  split at hmem
  · rcases List.mem_cons.mp hmem with rfl | hmem
    · exact printed_headerLine _ _
    · obtain ⟨edit, hedit, rfl⟩ := List.mem_map.mp hmem
      obtain ⟨c, -, hc⟩ := List.mem_flatMap.mp hedit
      rcases mem_opcodeEdits hc with hx | hx
      · exact printed_editLine (ha _ hx)
      · exact printed_editLine (hb _ hx)
  · cases hmem

/-! ## 5. What a reader makes of it -/

theorem flatten_newlineLines (text : List Char) : (newlineLines text).flatten = text :=
  Lines.flatten_splitAfter text

/-- What comes behind the first pieces is cut by itself. -/
theorem splitAfter_tail {α : Type} {p : α → Bool} : ∀ {cs : List α} {l : List α}
    {ls : List (List α)}, splitAfter p cs = l :: ls → splitAfter p ls.flatten = ls
  | c :: cs, l, ls, h => by
      rw [splitAfter] at h
      split at h
      · cases h
        rw [Lines.flatten_splitAfter]
      · cases hcs : splitAfter p cs with
        | nil =>
          rw [hcs] at h
          cases h
          rfl
        | cons k ks =>
          rw [hcs] at h
          cases h
          exact splitAfter_tail hcs

theorem newlineLines_drop (n : Nat) (text : List Char) :
    newlineLines ((newlineLines text).drop n).flatten = (newlineLines text).drop n := by
  induction n generalizing text with
  | zero => rw [List.drop_zero, flatten_newlineLines]
  | succ n ih =>
    cases hcut : newlineLines text with
    | nil => rfl
    | cons l ls =>
      have htail : newlineLines ls.flatten = ls := splitAfter_tail hcut
      have hdrop := ih ls.flatten
      rwa [htail] at hdrop

/-- Up to the end of the last hunk the lines are those that newlines end. -/
def ShownWhole (a b : List (List Char)) : Prop :=
  let e := shownEnd (0, 0) (getGroupedOpcodes 3 a b)
  a.take e.1 = (newlineLines a.flatten).take e.1 ∧ b.take e.2 = (newlineLines b.flatten).take e.2

/-- The text of a diff. -/
def diffText (file : List Char) (a b : List (List Char)) : List Char :=
  (unifiedDiff file file a b).flatMap withMarker

theorem newlineLines_shown {a : List (List Char)} {n : Nat}
    (h : a.take n = (newlineLines a.flatten).take n) :
    newlineLines a.flatten = slice a 0 n ++ newlineLines (a.drop n).flatten := by
  have hrest : ((newlineLines a.flatten).drop n).flatten = (a.drop n).flatten := by
    refine (List.append_right_inj (a.take n).flatten).mp ?_
    have hcut : (a.take n).flatten ++ ((newlineLines a.flatten).drop n).flatten = a.flatten := by
      rw [h, ← List.flatten_append, List.take_append_drop, flatten_newlineLines]
    rw [hcut, ← List.flatten_append, List.take_append_drop]
  rw [← hrest, newlineLines_drop, slice, List.drop_zero, h, List.take_append_drop]

theorem Agree.drop_eq {α : Type} {a b : List α} {i j : Nat} (h : AgreeRest a b i j) :
    a.drop i = b.drop j := by
  obtain ⟨hlen, hagree⟩ := h
  have hleft := hagree.left
  have hright := hagree.right
  have hsame := hagree.slice_eq
  rw [show i + (a.length - i) = a.length by omega, show j + (a.length - i) = b.length by omega,
    slice_to_end, slice_to_end] at hsame
  exact hsame

/-- The text of a diff is read as its hunks. -/
theorem applyDiff_hunks (file : List Char) {a b : List (List Char)} (ha : ∀ x ∈ a, OneLine x)
    (hb : ∀ x ∈ b, OneLine x) (hne : getGroupedOpcodes 3 a b ≠ []) (text : List Char) :
    applyDiff file file (diffText file a b) text
      = (applyHunks 0 0 (newlineLines text) ((getGroupedOpcodes 3 a b).filterMap (hunkOf a b))).bind
        fun lines => if newlineLines lines.flatten = lines then some lines.flatten else none := by
  rw [diffText, unifiedDiff]
  set groups := getGroupedOpcodes 3 a b
  have hread := readHunks_groups a b groups
  have hlines := (dropMarked_withMarker (printed_groups ha hb groups)).1
  have hdiff : (fileLines file file ++ groups.flatMap (groupLines a b)).flatMap withMarker
      = (fileLines file file).flatten ++ (groups.flatMap (groupLines a b)).flatMap withMarker := by
    simp only [List.flatMap_append, fileLines, List.flatMap_cons, List.flatMap_nil,
      withMarker_newline, List.flatten_cons, List.flatten_nil]
  have hsome : (fileLines file file).flatten
      ++ (groups.flatMap (groupLines a b)).flatMap withMarker ≠ [] := by
    simp [fileLines]
  rw [if_neg (by simpa using hne), hdiff, applyDiff, if_neg hsome, expect_append]
  simp only [Option.bind_eq_bind, Option.bind_some]
  rw [hlines, hread, Option.bind_some]
  simp only [true_and]

/-- **A diff turns one text into the other**, where newlines end the lines
up to its last hunk. -/
theorem applyDiff_diffText (file : List Char) {a b : List (List Char)}
    (ha : ∀ x ∈ a, OneLine x) (hb : ∀ x ∈ b, OneLine x) (h : ShownWhole a b) :
    applyDiff file file (diffText file a b) a.flatten = some b.flatten := by
  obtain ⟨hleft, hright⟩ := h
  have hcovers := getGroupedOpcodes_covers 3 a b
  have hrest := hcovers.shownEnd.2.2
  have hold := newlineLines_shown hleft
  have hnew := newlineLines_shown hright
  rw [← Agree.drop_eq hrest] at hnew
  have happly := applyHunks_covers hcovers
    (newlineLines (a.drop (shownEnd (0, 0) (getGroupedOpcodes 3 a b)).1).flatten)
  rw [← hold, ← hnew] at happly
  by_cases hgroups : getGroupedOpcodes 3 a b = []
  · rw [hgroups] at happly
    have hsame : newlineLines a.flatten = newlineLines b.flatten := Option.some.inj happly
    have hflat := congrArg List.flatten hsame
    rw [flatten_newlineLines, flatten_newlineLines] at hflat
    rw [diffText, unifiedDiff, hgroups, hflat]
    rfl
  · rw [applyDiff_hunks file ha hb hgroups, happly, Option.bind_some, flatten_newlineLines,
      if_pos rfl]

theorem getElem?_slice {α : Type} (xs : List α) (lo hi t : Nat) :
    (slice xs lo hi)[t]? = if lo + t < hi then xs[lo + t]? else none := by
  rw [slice, List.getElem?_drop, List.getElem?_take]

/-- Parts of equal parts are equal. -/
theorem slice_sub {α : Type} {xs ys : List α} {lo hi i j : Nat}
    (h : slice xs lo hi = slice ys lo hi) (hi1 : lo ≤ i) (hi2 : j ≤ hi) :
    slice xs i j = slice ys i j := by
  refine List.ext_getElem? fun t => ?_
  rw [getElem?_slice, getElem?_slice]
  split
  · have hsame := congrArg (·[i - lo + t]?) h
    rwa [getElem?_slice, getElem?_slice, if_pos (by omega), if_pos (by omega),
      show lo + (i - lo + t) = i + t by omega] at hsame
  · rfl

/-- The opcodes of a group stand at their numbers in two other lists. -/
def Stands {α : Type} (a b xs ys : List α) (group : List Opcode) : Prop :=
  ∀ c ∈ group, slice xs c.i1 c.i2 = slice a c.i1 c.i2 ∧ slice ys c.j1 c.j2 = slice b c.j1 c.j2

theorem Tiles.within {α : Type} {a b : List α} : ∀ {g : List Opcode} {i j i' j' : Nat},
    Tiles a b i j g i' j' → ∀ c ∈ g, i ≤ c.i1 ∧ c.i2 ≤ i' ∧ j ≤ c.j1 ∧ c.j2 ≤ j'
  | d :: g, _, _, _, _, ⟨hi, hj, hfits, hrest⟩, c, hc => by
      have hle := hrest.le
      have h1 := hfits.1
      have h2 := hfits.2.1
      rcases List.mem_cons.mp hc with rfl | hc
      · omega
      · have hwithin := hrest.within c hc
        omega

/-- Lines that begin with a part of `a` have that part in its place. -/
theorem slice_of_isPrefixOf {α : Type} [DecidableEq α] {xs part : List α} {lo hi : Nat}
    (h : part.isPrefixOf (xs.drop lo) = true) (hlen : part.length = hi - lo) :
    slice xs lo hi = part := by
  obtain ⟨rest, hrest⟩ := List.isPrefixOf_iff_prefix.mp h
  rw [slice, List.drop_take, ← hrest, ← hlen, List.take_left]

/-- Hunks that can be applied stand at their numbers. -/
theorem applyHunks_stands {α : Type} [DecidableEq α] {a b xs ys : List α} {p q : Nat}
    {gs : List (List Opcode)} (h : Covers a b p q gs)
    (happly : applyHunks p q (xs.drop p) (gs.filterMap (hunkOf a b)) = some (ys.drop q)) :
    ∀ g ∈ gs, Stands a b xs ys g := by
  induction h with
  | rest => exact nofun
  | @group p q k i j g gs hgap hgroup hg hcovers ih =>
    obtain ⟨hold, hnew⟩ := hgroup.edits
    obtain ⟨hpi, hqj⟩ := hgroup.le
    have hi : i ≤ a.length := Nat.le_trans hcovers.shownEnd.1
      (Nat.le_trans (Nat.le_add_right _ _) hcovers.shownEnd.2.2.2.left)
    have hj : j ≤ b.length := Nat.le_trans hcovers.shownEnd.2.1
      (Nat.le_trans (Nat.le_add_right _ _) hcovers.shownEnd.2.2.2.right)
    have holdLen : (slice a (p + k) i).length = i - (p + k) := length_slice hi
    have hnewLen : (slice b (q + k) j).length = j - (q + k) := length_slice hj
    rw [List.filterMap_cons_some (hgroup.hunk hg), applyHunks] at happly
    dsimp only at happly
    rw [before_rangeOf, before_rangeOf, Nat.add_sub_cancel_left, hold, hnew] at happly
    split at happly
    · rename_i hfound
      obtain ⟨-, hskip, -, -, -, hprefix⟩ := hfound
      obtain ⟨out, hout, hys⟩ := Option.map_eq_some_iff.mp happly
      rw [List.drop_drop] at hprefix
      have htake : ((xs.drop p).take k).length = k := by
        rw [List.length_take, Nat.min_eq_left hskip]
      have hdrop : ys.drop (q + k) = slice b (q + k) j ++ out := by
        rw [← List.drop_drop, ← hys, List.append_assoc, List.drop_left' htake]
      have hrest : ys.drop j = out := by
        have hcut := congrArg (List.drop (j - (q + k))) hdrop
        rwa [List.drop_drop, show q + k + (j - (q + k)) = j by omega, List.drop_left' hnewLen]
          at hcut
      rw [List.drop_drop, holdLen, hnewLen, show p + (k + (i - (p + k))) = i by omega,
        show p + k + (i - (p + k)) = i by omega, show q + k + (j - (q + k)) = j by omega,
        ← hrest] at hout
      intro group hgroups
      rcases List.mem_cons.mp hgroups with rfl | hgroups
      · have hxs := slice_of_isPrefixOf hprefix holdLen
        have hys' : slice ys (q + k) j = slice b (q + k) j :=
          slice_of_isPrefixOf (by
            rw [hdrop]
            exact List.isPrefixOf_iff_prefix.mpr (List.prefix_append _ _)) hnewLen
        intro c hc
        obtain ⟨h1, h2, h3, h4⟩ := hgroup.within c hc
        exact ⟨slice_sub hxs h1 h2, slice_sub hys' h3 h4⟩
      · exact ih hout group hgroups
    · cases happly

/-- Where a diff turns one text into the other, every line it shows stands
at its number among the lines that newlines end. -/
theorem applyDiff_shows (file : List Char) {a b : List (List Char)}
    (ha : ∀ x ∈ a, OneLine x) (hb : ∀ x ∈ b, OneLine x)
    (h : applyDiff file file (diffText file a b) a.flatten = some b.flatten) :
    ∀ g ∈ getGroupedOpcodes 3 a b,
      Stands a b (newlineLines a.flatten) (newlineLines b.flatten) g := by
  by_cases hgroups : getGroupedOpcodes 3 a b = []
  · rw [hgroups]
    exact nofun
  · rw [applyDiff_hunks file ha hb hgroups, Option.bind_eq_some_iff] at h
    obtain ⟨lines, happly, hlines⟩ := h
    split at hlines
    · rename_i hwhole
      rw [Option.some.inj hlines] at hwhole
      rw [← hwhole] at happly
      exact applyHunks_stands (getGroupedOpcodes_covers 3 a b) happly
    · cases hlines

end MultiForge.Difflib
