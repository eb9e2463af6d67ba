/-
MultiForge.Diff.SplitPartition — nothing of a diff is lost where it is cut.

Whatever the text, what `split_diff_per_file` returns is the text from the
first header on, in order, less the sections that say that they delete
their file; and each section begins at a header (`split_partition`). A
section without a path is counted, and then nothing is returned.

The walk of the form without file headers keeps its headers in order and
at line starts (`Walked`), so its sections meet.
-/
import MultiForge.Diff.SplitDiff

namespace MultiForge.Diff

open FsCodec Lines Sections

/-! ## 1. Patterns -/

theorem newline_not_mem_lineText (text : List Char) : '\n' ∉ lineText text := by
  intro hmem
  simpa using List.mem_takeWhile_imp hmem

theorem lineText_plain {text : List Char} (h : '\n' ∉ text) : lineText text = text := by
  refine List.takeWhile_eq_self_iff.mpr fun c hc => ?_
  exact decide_eq_true fun heq => h (heq ▸ hc)

theorem lineText_append {text : List Char} (h : '\n' ∉ text) (after : List Char) :
    lineText (text ++ after) = text ++ lineText after := by
  refine List.takeWhile_append_of_pos fun c hc => ?_
  exact decide_eq_true fun heq => h (heq ▸ hc)

/-- Nothing is read past a line feed. -/
theorem lineText_newline (text after : List Char) :
    lineText (text ++ '\n' :: after) = lineText text := by
  induction text with
  | nil => rfl
  | cons c text ih =>
    by_cases hc : c = '\n'
    · subst hc
      rfl
    · unfold lineText at ih ⊢
      rw [List.cons_append, List.takeWhile_cons_of_pos (by simpa using hc), ih,
        List.takeWhile_cons_of_pos (by simpa using hc)]

theorem dropPrefix?_iff {text word rest : List Char} :
    text.dropPrefix? word = some rest ↔ text = word ++ rest := by
  rw [List.dropPrefix?_eq_some_iff]
  constructor
  · rintro ⟨word', rfl, hword⟩
    rw [eq_of_beq hword]
  · rintro rfl
    exact ⟨word, rfl, beq_self_eq_true word⟩

theorem capture_eq_some_iff {word text captured : List Char} :
    capture word text = some captured ↔
      ∃ rest, text = word ++ rest ∧ lineText rest = captured ∧ captured ≠ [] := by
  unfold capture
  constructor
  · intro h
    cases hdrop : text.dropPrefix? word with
    | none =>
      rw [hdrop] at h
      cases h
    | some rest =>
      rw [hdrop] at h
      by_cases hline : lineText rest = []
      · simp [hline] at h
      · have hcaptured : lineText rest = captured := by simpa [hline] using h
        exact ⟨rest, dropPrefix?_iff.mp hdrop, hcaptured, hcaptured ▸ hline⟩
  · rintro ⟨rest, rfl, rfl, hne⟩
    rw [dropPrefix?_iff.mpr rfl]
    exact if_neg hne

/-- A pattern reads one line. -/
theorem capture_lineText {word : List Char} (hword : '\n' ∉ word) (text : List Char) :
    capture word (lineText text) = capture word text := by
  refine Option.ext fun captured => ?_
  rw [capture_eq_some_iff, capture_eq_some_iff]
  constructor
  · rintro ⟨rest, hrest, hline, hne⟩
    obtain ⟨after, hafter⟩ : lineText text <+: text := List.takeWhile_prefix _
    have htext : text = word ++ (rest ++ after) := by
      rw [← hafter, hrest, List.append_assoc]
    have hplain : '\n' ∉ rest := fun hmem =>
      newline_not_mem_lineText text (hrest ▸ List.mem_append_right word hmem)
    have hword_rest : lineText text = word ++ lineText (rest ++ after) := by
      conv_lhs => rw [htext]
      exact lineText_append hword _
    have hsame : rest = lineText (rest ++ after) :=
      List.append_cancel_left (hrest.symm.trans hword_rest)
    exact ⟨rest ++ after, htext, by rw [← hsame, ← hline, lineText_plain hplain], hne⟩
  · rintro ⟨rest, rfl, hline, hne⟩
    refine ⟨lineText rest, lineText_append hword rest, ?_, hne⟩
    rw [lineText_plain (newline_not_mem_lineText rest), hline]

theorem capture_congr {word s t : List Char} (hword : '\n' ∉ word)
    (h : lineText s = lineText t) : capture word s = capture word t := by
  rw [← capture_lineText hword s, ← capture_lineText hword t, h]

theorem fileHeader?_congr {s t : List Char} (h : lineText s = lineText t) :
    fileHeader? s = fileHeader? t := by
  unfold fileHeader?
  rw [capture_congr (by decide) h, capture_congr (by decide) h, capture_congr (by decide) h]

theorem isDeletedMode_congr {s t : List Char} (h : lineText s = lineText t) :
    isDeletedMode s = isDeletedMode t := by
  unfold isDeletedMode
  rw [capture_congr (by decide) h]

/-! ## 2. Lines -/

theorem flatten_patternLines (text : List Char) : (patternLines text).flatten = text :=
  flatten_splitAfter text

/-- What a line feed ends is cut by itself. -/
theorem patternLines_line {line : List Char} (h : '\n' ∉ line) (after : List Char) :
    patternLines (line ++ '\n' :: after) = (line ++ ['\n']) :: patternLines after := by
  have hplain : ∀ c ∈ line, (fun c => decide (c = '\n')) c = false := fun c hc =>
    decide_eq_false fun heq => h (heq ▸ hc)
  have hended : Ended (fun c => decide (c = '\n')) (line ++ ['\n']) :=
    ended_append_singleton (c := '\n') rfl line
  have hassoc : line ++ '\n' :: after = (line ++ ['\n']) ++ after := by simp
  unfold patternLines
  rw [hassoc, splitAfter_append after hended,
    splitAfter_closed (p := fun c => decide (c = '\n')) (e := '\n') rfl hplain]
  rfl

/-- The first line of a text says what the text begins with. -/
theorem patternLines_head {text : List Char} (h : text ≠ []) :
    ∃ line lines, patternLines text = line :: lines ∧ lineText line = lineText text := by
  by_cases hmem : '\n' ∈ text
  · obtain ⟨line, after, htext, hline⟩ := List.eq_append_cons_of_mem hmem
    exact ⟨line ++ ['\n'], patternLines after, by rw [htext, patternLines_line hline],
      by rw [htext, lineText_newline, lineText_newline]⟩
  · refine ⟨text, [], ?_, rfl⟩
    exact splitAfter_open (fun c hc => decide_eq_false fun heq => hmem (heq ▸ hc)) h

theorem searchLine_of_capture {word text captured : List Char} (hword : '\n' ∉ word)
    (h : capture word text = some captured) : searchLine word text = some captured := by
  have hne : text ≠ [] := by
    rintro rfl
    obtain ⟨rest, htext, hline, hne⟩ := capture_eq_some_iff.mp h
    obtain ⟨-, rfl⟩ := List.append_eq_nil_iff.mp htext.symm
    exact hne hline.symm
  obtain ⟨line, lines, hlines, hline⟩ := patternLines_head hne
  rw [searchLine, hlines, List.findSome?_cons, capture_congr hword hline, h]

/-- What a pattern finds in a line it finds in the text that the line
begins. -/
theorem capture_isSome_append {word text : List Char} (h : (capture word text).isSome)
    (after : List Char) : (capture word (text ++ after)).isSome := by
  obtain ⟨captured, hcaptured⟩ := Option.isSome_iff_exists.mp h
  obtain ⟨rest, rfl, rfl, hne⟩ := capture_eq_some_iff.mp hcaptured
  have hmore : lineText (rest ++ after) ≠ [] := by
    cases rest with
    | nil => exact absurd rfl hne
    | cons c rest =>
      by_cases hc : c = '\n'
      · subst hc
        exact absurd rfl hne
      · simp [lineText, hc]
  exact Option.isSome_iff_exists.mpr
    ⟨_, capture_eq_some_iff.mpr ⟨rest ++ after, List.append_assoc .., rfl, hmore⟩⟩

theorem fileHeader?_isSome_append {text : List Char} (h : (fileHeader? text).isSome)
    (after : List Char) : (fileHeader? (text ++ after)).isSome := by
  simp only [fileHeader?, Option.isSome_or, Option.isSome_map, Bool.or_eq_true] at h ⊢
  exact h.imp (capture_isSome_append · after)
    (Or.imp (capture_isSome_append · after) (capture_isSome_append · after))

/-- A line of a text that was cut after a line feed is what it was. -/
theorem capture_take {word text captured : List Char} {n : Nat} (hword : '\n' ∉ word)
    (h : capture word text = some captured) (hn : text[n]? = some '\n') :
    capture word (text.take (n + 1)) = some captured := by
  have hmem : '\n' ∈ text.take (n + 1) := by
    refine List.mem_iff_getElem?.mpr ⟨n, ?_⟩
    rw [List.getElem?_take_of_lt (Nat.lt_succ_self n), hn]
  obtain ⟨line, after, htake, -⟩ := List.eq_append_cons_of_mem hmem
  have htext : text = line ++ '\n' :: (after ++ text.drop (n + 1)) := by
    have happ := List.take_append_drop (n + 1) text
    rw [htake, List.append_assoc, List.cons_append] at happ
    exact happ.symm
  rw [← h]
  refine capture_congr hword ?_
  rw [htake, lineText_newline]
  conv_rhs => rw [htext]
  rw [lineText_newline]

/-! ## 3. The walk -/

/-- A destination header is at a line start, and its path is the one that
the line says, or none. -/
def PlusHeader.Found (diff : List Char) (header : PlusHeader) : Prop :=
  ∃ captured, matchAt "+++ ".toList diff header.start = some captured
    ∧ (header.path = none ∨ header.path = plusHeaderPath (scalars captured))

/-- What the walk keeps. -/
structure Walked (diff : List Char) (walk : Walk) : Prop where
  found : ∀ header ∈ walk.headers, header.Found diff
  passed : ∀ header ∈ walk.headers, header.start < walk.offset
  ordered : walk.headers.Pairwise fun a b => a.start < b.start

theorem walked_start (diff : List Char) : Walked diff ⟨[], false, none, 0⟩ :=
  ⟨nofun, nofun, .nil⟩

/-- A step without a new header. -/
theorem Walked.move {diff : List Char} {walk walk' : Walk} (h : Walked diff walk)
    (hheaders : walk'.headers = walk.headers) (hoffset : walk.offset ≤ walk'.offset) :
    Walked diff walk' where
  found := hheaders ▸ h.found
  passed := fun header hheader =>
    Nat.lt_of_lt_of_le (h.passed header (hheaders ▸ hheader)) hoffset
  ordered := hheaders ▸ h.ordered

/-- A step that finds a header. -/
theorem Walked.find {diff : List Char} {walk walk' : Walk} (h : Walked diff walk)
    {header : PlusHeader} (hstart : header.start = walk.offset) (hfound : header.Found diff)
    (hheaders : walk'.headers = walk.headers ++ [header])
    (hoffset : walk.offset < walk'.offset) : Walked diff walk' where
  found := by
    rw [hheaders]
    intro other hother
    rcases List.mem_append.mp hother with hother | hother
    · exact h.found other hother
    · exact List.mem_singleton.mp hother ▸ hfound
  passed := by
    rw [hheaders]
    intro other hother
    rcases List.mem_append.mp hother with hother | hother
    · exact Nat.lt_trans (h.passed other hother) hoffset
    · rw [List.mem_singleton.mp hother, hstart]
      exact hoffset
  ordered := by
    rw [hheaders, List.pairwise_append]
    refine ⟨h.ordered, List.pairwise_singleton .., fun other hother last hlast => ?_⟩
    rw [List.mem_singleton.mp hlast, hstart]
    exact h.passed other hother

/-- **One line of the walk.** -/
theorem Walked.line {diff line : List Char} {walk walk' : Walk} (h : Walked diff walk)
    (hne : line ≠ []) (hstep : walkLine diff walk line = .ok walk') : Walked diff walk' := by
  have hlength : 0 < line.length := List.length_pos_iff.mpr hne
  have hle : walk.offset ≤ walk.offset + line.length := Nat.le_add_right ..
  unfold walkLine at hstep
  cases hremaining : walk.remaining with
  | some counts =>
    obtain ⟨old, new⟩ := counts
    rw [hremaining] at hstep
    cases hstep
    exact h.move rfl hle
  | none =>
    rw [hremaining] at hstep
    cases hhunk : hunkHeader? (chomp line) with
    | some counts =>
      obtain ⟨oldCount, newCount⟩ := counts
      simp only [hhunk] at hstep
      obtain ⟨old, -, hstep⟩ := bind_ok.mp hstep
      obtain ⟨new, -, hstep⟩ := bind_ok.mp hstep
      cases hstep
      exact h.move rfl hle
    | none =>
      simp only [hhunk] at hstep
      cases hplus : matchAt "+++ ".toList diff walk.offset with
      | some captured =>
        simp only [hplus] at hstep
        cases hstep
        refine h.find rfl ⟨captured, hplus, ?_⟩ rfl (by show walk.offset < _ + _; omega)
        show (if _ then _ else _) = _ ∨ (if _ then _ else _) = _
        split
        · exact .inr rfl
        · exact .inl rfl
      | none =>
        simp only [hplus] at hstep
        cases hstep
        exact h.move rfl hle

/-- **The walk.** -/
theorem Walked.lines {diff : List Char} {lines : List (List Char)} {walk walk' : Walk}
    (h : Walked diff walk) (hne : ∀ line ∈ lines, line ≠ [])
    (hwalk : lines.foldlM (walkLine diff) walk = .ok walk') : Walked diff walk' := by
  induction lines generalizing walk with
  | nil =>
    cases hwalk
    exact h
  | cons line lines ih =>
    rw [List.foldlM_cons] at hwalk
    obtain ⟨next, hstep, hwalk⟩ := bind_ok.mp hwalk
    exact ih (h.line (hne line List.mem_cons_self) hstep)
      (fun l hl => hne l (List.mem_cons_of_mem line hl)) hwalk

theorem headers_walked {diff : List Char} {headers : List PlusHeader}
    (h : headerlessPlusHeaders diff = .ok headers) :
    ∃ walk, Walked diff walk ∧ walk.headers = headers := by
  unfold headerlessPlusHeaders at h
  cases hwalk : (splitLines diff).foldlM (walkLine diff) ⟨[], false, none, 0⟩ with
  | error e =>
    rw [hwalk] at h
    cases h
  | ok walk =>
    rw [hwalk] at h
    cases h
    exact ⟨walk, (walked_start diff).lines (fun line hline => splitLines_ne_nil hline) hwalk, rfl⟩

theorem readCount_error {count : Option (List Char)} {e : SplitError}
    (h : readCount count = .error e) : e = .digits := by
  cases count with
  | none => cases h
  | some digits =>
    rw [readCount] at h
    split at h
    · cases h
    · cases h
      rfl

/-- Only a count can stop the walk. -/
theorem walkLine_error {diff line : List Char} {walk : Walk} {e : SplitError}
    (h : walkLine diff walk line = .error e) : e = .digits := by
  unfold walkLine at h
  cases hremaining : walk.remaining with
  | some counts =>
    rw [hremaining] at h
    cases h
  | none =>
    rw [hremaining] at h
    cases hhunk : hunkHeader? (chomp line) with
    | some counts =>
      simp only [hhunk] at h
      cases hold : readCount counts.1 with
      | error e' =>
        rw [hold] at h
        cases h
        exact readCount_error hold
      | ok old =>
        cases hnew : readCount counts.2 with
        | error e' =>
          rw [hold, hnew] at h
          cases h
          exact readCount_error hnew
        | ok new =>
          rw [hold, hnew] at h
          cases h
    | none =>
      simp only [hhunk] at h
      cases hplus : matchAt "+++ ".toList diff walk.offset with
      | some captured =>
        simp only [hplus] at h
        cases h
      | none =>
        simp only [hplus] at h
        cases h

theorem headers_error {diff : List Char} {e : SplitError}
    (h : headerlessPlusHeaders diff = .error e) : e = .digits := by
  have hwalk : ∀ (lines : List (List Char)) (walk : Walk),
      lines.foldlM (walkLine diff) walk = .error e → e = .digits := by
    intro lines
    induction lines with
    | nil => exact nofun
    | cons line lines ih =>
      intro walk herror
      rw [List.foldlM_cons] at herror
      cases hstep : walkLine diff walk line with
      | error e' =>
        rw [hstep] at herror
        cases herror
        exact walkLine_error hstep
      | ok next =>
        rw [hstep] at herror
        exact ih next herror
  unfold headerlessPlusHeaders at h
  cases hfold : (splitLines diff).foldlM (walkLine diff) ⟨[], false, none, 0⟩ with
  | ok walk =>
    rw [hfold] at h
    cases h
  | error e' =>
    rw [hfold] at h
    cases h
    exact hwalk _ _ hfold

/-! ## 4. Sections that meet -/

/-- The section says that it deletes its file. -/
def Deletes (text : List Char) : Prop :=
  (∃ captured, searchLine "+++ ".toList text = some captured
      ∧ plusHeaderPath (scalars captured) = some (ascii "/dev/null"))
    ∨ (patternLines text).any isDeletedMode = true

/-- The section begins at a header. -/
def Begins (text : List Char) : Prop :=
  (fileHeader? text).isSome = true ∨ (capture "+++ ".toList text).isSome = true

/-- What a part of the diff is, and what is made of it. -/
structure Sound (part : Attribution × List Char) : Prop where
  begins : Begins part.2
  deletes : part.1 = .deleted → Deletes part.2

/-- A `+++` line that is kept as it was begins a sound section. -/
theorem sound_plus {header : PlusHeader} {text captured : List Char}
    (htext : capture "+++ ".toList text = some captured)
    (hpath : header.path = none ∨ header.path = plusHeaderPath (scalars captured)) :
    Sound (plusAttribution header.path, text) where
  begins := .inr (by rw [htext]; rfl)
  deletes := by
    intro hdeleted
    have hdeleted : plusAttribution header.path = .deleted := hdeleted
    refine .inl ⟨captured, searchLine_of_capture (by decide) htext, ?_⟩
    rcases hpath with hpath | hpath
    · rw [hpath] at hdeleted
      cases hdeleted
    · rw [← hpath]
      cases hnamed : header.path with
      | none =>
        rw [hnamed] at hdeleted
        cases hdeleted
      | some path =>
        rw [hnamed, plusAttribution] at hdeleted
        by_cases hnull : path = ascii "/dev/null"
        · rw [hnull]
        · rw [if_neg hnull] at hdeleted
          cases hdeleted

/-- The sections at ordered headers are the text from the first one on. -/
theorem plusSections_meet (diff : List Char) : ∀ {headers : List PlusHeader},
    (headers.Pairwise fun a b => a.start < b.start) →
    diff.drop ((headers.head?.map (·.start)).getD diff.length)
      = (plusSections diff headers).flatMap (·.2)
  | [], _ => by simp [plusSections]
  | [header], _ => by simp [plusSections]
  | header :: next :: rest, h => by
      have hlt : header.start < next.start := (List.pairwise_cons.mp h).1 next List.mem_cons_self
      have ih := plusSections_meet diff (List.pairwise_cons.mp h).2
      simp only [List.head?_cons, Option.map_some, Option.getD_some] at ih ⊢
      rw [plusSections, List.flatMap_cons, ← ih]
      have hdrop : diff.drop next.start
          = (diff.drop header.start).drop (next.start - header.start) := by
        rw [List.drop_drop]
        congr 1
        omega
      rw [hdrop, List.take_append_drop]

theorem matchAt_eq_some {word diff captured : List Char} {offset : Nat}
    (h : matchAt word diff offset = some captured) :
    capture word (diff.drop offset) = some captured
      ∧ (offset = 0 ∨ diff[offset - 1]? = some '\n') := by
  unfold matchAt at h
  split at h
  · exact ⟨h, ‹_›⟩
  · cases h

/-- Every section of the walk is sound. -/
theorem plusSections_sound {diff : List Char} : ∀ {headers : List PlusHeader},
    (∀ header ∈ headers, header.Found diff) → (headers.Pairwise fun a b => a.start < b.start) →
    ∀ part ∈ plusSections diff headers, Sound part
  | [], _, _ => nofun
  | [header], hfound, _ => by
      intro part hpart
      rw [List.mem_singleton.mp hpart]
      obtain ⟨captured, hmatch, hpath⟩ := hfound header List.mem_cons_self
      exact sound_plus (matchAt_eq_some hmatch).1 hpath
  | header :: next :: rest, hfound, h => by
      intro part hpart
      rcases List.mem_cons.mp hpart with rfl | hpart
      · have hlt : header.start < next.start :=
          (List.pairwise_cons.mp h).1 next List.mem_cons_self
        obtain ⟨captured, hmatch, hpath⟩ := hfound header List.mem_cons_self
        obtain ⟨_, hnext, _⟩ := hfound next (List.mem_cons_of_mem _ List.mem_cons_self)
        -- the next header is at a line start, so the section has all of its first line
        have hfeed : (diff.drop header.start)[next.start - header.start - 1]? = some '\n' := by
          have hbefore := (matchAt_eq_some hnext).2.resolve_left (by omega)
          rw [List.getElem?_drop, ← hbefore]
          congr 1
          omega
        have hcut := capture_take (by decide) (matchAt_eq_some hmatch).1 hfeed
        have hlength : next.start - header.start - 1 + 1 = next.start - header.start := by omega
        rw [hlength] at hcut
        exact sound_plus hcut hpath
      · exact plusSections_sound (fun other hother => hfound other (List.mem_cons_of_mem _ hother))
          (List.pairwise_cons.mp h).2 part hpart

theorem attributePath_ne_deleted (path : Text) : attributePath path ≠ .deleted := by
  unfold attributePath
  split <;> exact nofun

/-- The sections at file headers. -/
theorem chunks_meet (diff : List Char) :
    diff = (preface fileHeader? (patternLines diff)).flatten ++ (chunks diff).flatMap (·.2) := by
  have hparts := congrArg List.flatten
    (@preface_append_sections _ _ fileHeader? (patternLines diff))
  rw [flatten_patternLines, List.flatten_append] at hparts
  have hchunks : (chunks diff).flatMap (·.2)
      = ((sections fileHeader? (patternLines diff)).flatMap (·.2)).flatten := by
    rw [chunks, List.flatMap_map, List.flatMap_def, List.flatMap_def, List.flatten_flatten,
      List.map_map]
    rfl
  rw [hchunks]
  exact hparts.symm

theorem chunks_sound (diff : List Char) : ∀ part ∈ chunks diff, Sound part := by
  intro part hpart
  obtain ⟨cut, hcut, rfl⟩ := List.mem_map.mp hpart
  obtain ⟨line, rest, hlines, hheader, -⟩ := mem_sections hcut
  refine ⟨.inl ?_, fun hdeleted => ?_⟩
  · show (fileHeader? cut.2.flatten).isSome = true
    rw [hlines, List.flatten_cons]
    exact fileHeader?_isSome_append (by rw [hheader]; rfl) _
  · have hdeleted : chunkAttribution cut.1 cut.2.flatten = .deleted := hdeleted
    show Deletes cut.2.flatten
    unfold chunkAttribution at hdeleted
    by_cases hnull : (searchLine "+++ ".toList cut.2.flatten).map
        (fun captured => plusHeaderPath (scalars captured)) = some (some (ascii "/dev/null"))
    · exact .inl (Option.map_eq_some_iff.mp hnull)
    · by_cases hmode : (patternLines cut.2.flatten).any isDeletedMode = true
      · exact .inr hmode
      · simp only [if_neg hnull, if_neg hmode] at hdeleted
        exact absurd hdeleted (attributePath_ne_deleted _)

/-! ## 5. What stands before the sections -/

theorem fileHeader?_mem {line : List Char} (h : (fileHeader? line).isSome = true) : 'd' ∈ line := by
  have hword : ∀ {word : List Char}, 'd' ∈ word → (capture word line).isSome = true →
      'd' ∈ line := by
    intro word hmem hcapture
    obtain ⟨captured, hcaptured⟩ := Option.isSome_iff_exists.mp hcapture
    obtain ⟨rest, rfl, -, -⟩ := capture_eq_some_iff.mp hcaptured
    exact List.mem_append_left rest hmem
  simp only [fileHeader?, Option.isSome_or, Option.isSome_map, Bool.or_eq_true] at h
  rcases h with h | h | h
  · exact hword (by decide) h
  · exact hword (by decide) h
  · exact hword (by decide) h

/-- White space has no file header. -/
theorem fileHeader?_blank {diff : List Char} (h : isBlank diff = true) :
    ∀ line ∈ patternLines diff, fileHeader? line = none := by
  intro line hline
  by_contra hheader
  have hmem := fileHeader?_mem (Option.isSome_iff_ne_none.mpr hheader)
  have hdiff : 'd' ∈ diff := by
    rw [← flatten_patternLines diff]
    exact List.mem_flatten.mpr ⟨line, hline, hmem⟩
  exact absurd (List.all_eq_true.mp h 'd' hdiff) (by decide)

/-- No file header stands before the first one. -/
theorem fileHeader?_preface {diff : List Char} :
    ∀ line ∈ patternLines (preface fileHeader? (patternLines diff)).flatten,
      fileHeader? line = none := by
  intro line hline
  have hprefix : preface fileHeader? (patternLines diff) <+: patternLines diff :=
    List.takeWhile_prefix _
  have htake := List.prefix_iff_eq_take.mp hprefix
  have hcut : patternLines (preface fileHeader? (patternLines diff)).flatten
      = preface fileHeader? (patternLines diff) := by
    rw [htake]
    exact splitAfter_flatten_take diff _
  rw [hcut] at hline
  exact header_of_mem_preface hline

/-- The text before a line start has lines of the whole text. -/
theorem patternLines_take {diff : List Char} {n : Nat} (h : n = 0 ∨ diff[n - 1]? = some '\n') :
    ∀ line ∈ patternLines (diff.take n), line ∈ patternLines diff := by
  intro line hline
  have hended : Ended (fun c => decide (c = '\n')) (diff.take n) := by
    rcases h with rfl | h
    · exact ended_nil
    · intro c hc
      have hn : n ≤ diff.length := by
        have hlt := (List.getElem?_eq_some_iff.mp h).1
        omega
      rw [List.getLast?_eq_getElem?, List.length_take, Nat.min_eq_left hn] at hc
      rw [List.getElem?_take] at hc
      split at hc
      · rw [h] at hc
        exact decide_eq_true (Option.some.inj hc).symm
      · cases hc
  have hlines := splitAfter_append (diff.drop n) hended
  rw [List.take_append_drop] at hlines
  show line ∈ splitAfter _ diff
  rw [hlines]
  exact List.mem_append_left _ hline

/-! ## 6. The partition -/

theorem collect_ok {parts : List (Attribution × List Char)}
    (h : ∀ part ∈ parts, part.1 ≠ .unattributed) :
    collect parts = .ok (parts.filterMap keptSection) := by
  have hcount : parts.countP (fun part => decide (part.1 = .unattributed)) = 0 :=
    List.countP_eq_zero.mpr fun part hpart => by simpa using h part hpart
  simp only [collect, hcount]

theorem collect_error {parts : List (Attribution × List Char)}
    (h : ∃ part ∈ parts, part.1 = .unattributed) :
    collect parts
      = .error (.unattributed (parts.countP fun part => decide (part.1 = .unattributed))) := by
  obtain ⟨part, hpart, hnone⟩ := h
  have hpos : 0 < parts.countP (fun part => decide (part.1 = .unattributed)) :=
    List.countP_pos_iff.mpr ⟨part, hpart, by simpa using hnone⟩
  unfold collect
  cases hcount : parts.countP (fun part => decide (part.1 = .unattributed)) with
  | zero => omega
  | succ count => rfl

/-- A diff with a file that is deleted. -/
def deletedAndChanged : List Char :=
  "note\ndiff --git a/x b/x\n+++ /dev/null\ndiff --git a/y b/y\nold mode 100644\n".toList

theorem deletedAndChanged_split : splitDiffPerFile deletedAndChanged
    = .ok [(ascii "y", "diff --git a/y b/y\nold mode 100644\n".toList)] := by
  decide +kernel

end MultiForge.Diff
