/-
MultiForge.Engine.PatchEnvelope — Codex's patch envelope, printed and
parsed.

`FileOp` is an operation of the grammar: its path as the header has it and
its body line by line. The parser reads what is printed (`parse_print`) and
reads nothing else (`parse_accepts`), up to what it does on purpose: it
takes carriage returns off the end of every line, since an envelope may
have `\r\n` line ends, blank lines off both ends of the text and whitespace
off both ends of a path.
-/
import MultiForge.Engine.HookAdapters

namespace MultiForge.Engine

open MultiForge.Lines (isSpace isBlank)

/-! ## 1. Operations -/

/-- The text of a line. -/
structure LineText where
  text : List Char
  oneLine : '\n' ∉ text

/-- A path as a header has it. -/
structure HeaderPath extends LineText where
  named : strip text ≠ []

inductive BodyLine where
  | added (line : LineText)
  | removed (line : LineText)
  | context (line : LineText)
  | hunk (line : LineText)
  | blank
  | endOfFile

inductive FileOp where
  | add (path : HeaderPath) (body : List BodyLine)
  | update (path : HeaderPath) (moveTo : Option HeaderPath) (body : List BodyLine)
  | delete (path : HeaderPath)

def headerPrefix : PatchOpKind → List Char
  | .add => "*** Add File: ".toList
  | .update => "*** Update File: ".toList
  | .delete => "*** Delete File: ".toList

def BodyLine.print : BodyLine → List Char
  | .added line => '+' :: line.text
  | .removed line => '-' :: line.text
  | .context line => ' ' :: line.text
  | .hunk line => '@' :: '@' :: line.text
  | .blank => []
  | .endOfFile => eofMarker

namespace FileOp

def kind : FileOp → PatchOpKind
  | add .. => .add
  | update .. => .update
  | delete .. => .delete

def path : FileOp → HeaderPath
  | add path _ => path
  | update path _ _ => path
  | delete path => path

def moveTo : FileOp → Option HeaderPath
  | update _ moveTo _ => moveTo
  | _ => none

def body : FileOp → List BodyLine
  | add _ body => body
  | update _ _ body => body
  | delete _ => []

/-- The lines before the body. -/
def headerLines (op : FileOp) : List (List Char) :=
  (headerPrefix op.kind ++ op.path.text) :: (op.moveTo.map fun t => moveToPrefix ++ t.text).toList

def lines (op : FileOp) : List (List Char) := op.headerLines ++ op.body.map BodyLine.print

end FileOp

/-- The texts of the added lines. -/
def addedTexts (body : List BodyLine) : List (List Char) :=
  body.filterMap fun line => match line with
    | .added line => some line.text
    | _ => none

/-- What the parser says of an operation. -/
def FileOp.result (op : FileOp) : PatchFileOp where
  kind := op.kind
  path := strip (op.moveTo.getD op.path).text
  moveTo := op.moveTo.map fun t => strip t.text
  addedContent := joinLines (addedTexts op.body)
  rawSection := joinLines op.lines
  sourcePath := op.moveTo.map fun _ => strip op.path.text

/-- The lines of an envelope. -/
def envelopeLines (ops : List FileOp) : List (List Char) :=
  beginPatch :: (ops.flatMap FileOp.lines ++ [endPatch])

def printPatch (ops : List FileOp) : String := String.ofList (joinLines (envelopeLines ops))

/-! ## 2. Sections -/

/-- The section that the parser makes of an operation. -/
def FileOp.section_ (op : FileOp) : PatchSection where
  kind := op.kind
  path := strip op.path.text
  moveTo := op.moveTo.map fun t => strip t.text
  headerLines := op.headerLines
  body := op.body.map BodyLine.print

theorem extractCodexAddedLines_print (body : List BodyLine) :
    extractCodexAddedLines (body.map BodyLine.print) = joinLines (addedTexts body) := by
  rw [extractCodexAddedLines, addedTexts, List.filterMap_map]
  congr 1
  refine List.filterMap_congr fun line _ => ?_
  cases line <;> rfl

theorem finalize_section (op : FileOp) : op.section_.finalize = op.result := by
  cases op with
  | delete path => rfl
  | add path body =>
    simp only [PatchSection.finalize, FileOp.section_, FileOp.result, FileOp.kind, FileOp.moveTo,
      FileOp.body, FileOp.lines, reduceCtorEq, if_false, extractCodexAddedLines_print]
    rfl
  | update path moveTo body =>
    simp only [PatchSection.finalize, FileOp.section_, FileOp.result, FileOp.kind, FileOp.moveTo,
      FileOp.body, FileOp.lines, reduceCtorEq, if_false, extractCodexAddedLines_print]
    cases moveTo <;> rfl

/-! ## 3. One line -/

theorem matchHeader_header (kind : PatchOpKind) (text : List Char) :
    matchHeader (headerPrefix kind ++ text) = some (kind, strip text) := by
  cases kind <;> rfl

theorem matchHeader_moveTo (text : List Char) : matchHeader (moveToPrefix ++ text) = none := rfl

theorem matchHeader_print (line : BodyLine) : matchHeader line.print = none := by
  cases line <;> rfl

theorem moveTo_print (line : BodyLine) : moveToPrefix.isPrefixOf line.print = false := by
  cases line <;> rfl

theorem bodyLine_print (line : BodyLine) : line.print = eofMarker ∨ isBodyLine line.print = true := by
  cases line with
  | endOfFile => exact Or.inl rfl
  | _ => exact Or.inr rfl

/-- The section a header opens. -/
def openSection (kind : PatchOpKind) (text : List Char) : PatchSection :=
  { kind := kind, path := strip text, headerLines := [headerPrefix kind ++ text] }

theorem parseLine_header (state : List PatchFileOp × Option PatchSection) (kind : PatchOpKind)
    {text : List Char} (h : strip text ≠ []) :
    parseLine state (headerPrefix kind ++ text)
      = some (state.1 ++ (state.2.map PatchSection.finalize).toList, some (openSection kind text)) := by
  rw [parseLine, matchHeader_header]
  exact if_neg h

theorem isPrefixOf_append (pre text : List Char) : pre.isPrefixOf (pre ++ text) = true :=
  List.isPrefixOf_iff_prefix.mpr (List.prefix_append pre text)

theorem parseLine_moveTo (done : List PatchFileOp) {current : PatchSection} {text : List Char}
    (hkind : current.kind = .update) (hbody : current.body = []) (hmove : current.moveTo = none)
    (h : strip text ≠ []) :
    parseLine (done, some current) (moveToPrefix ++ text)
      = some (done, some { current with
          moveTo := some (strip text)
          headerLines := current.headerLines ++ [moveToPrefix ++ text] }) := by
  rw [parseLine, matchHeader_moveTo]
  simp only [isPrefixOf_append, if_true, List.drop_left]
  rw [if_neg]
  simp [hkind, hbody, hmove, h]

theorem parseLine_body (done : List PatchFileOp) {current : PatchSection}
    (hkind : current.kind ≠ .delete) (line : BodyLine) :
    parseLine (done, some current) line.print
      = some (done, some { current with body := current.body ++ [line.print] }) := by
  rw [parseLine, matchHeader_print]
  simp only [moveTo_print, Bool.false_eq_true, if_false, if_neg hkind]
  exact if_pos (bodyLine_print line)

theorem foldlM_body (done : List PatchFileOp) : ∀ (body : List BodyLine) {current : PatchSection},
    current.kind ≠ .delete →
      (body.map BodyLine.print).foldlM parseLine (done, some current)
        = some (done, some { current with body := current.body ++ body.map BodyLine.print })
  | [], current, _ => by simp
  | line :: body, current, hkind => by
      rw [List.map_cons, List.foldlM_cons, parseLine_body done hkind line]
      have ih := @foldlM_body done body { current with body := current.body ++ [line.print] } hkind
      simpa using ih

/-- The lines of an operation end the section before it and open its own. -/
theorem foldlM_op (state : List PatchFileOp × Option PatchSection) (op : FileOp) :
    op.lines.foldlM parseLine state
      = some (state.1 ++ (state.2.map PatchSection.finalize).toList, some op.section_) := by
  have hopen := parseLine_header state op.kind op.path.named
  rw [FileOp.lines, FileOp.headerLines, List.cons_append, List.foldlM_cons, hopen]
  cases op with
  | delete path => rfl
  | add path body => exact foldlM_body _ body nofun
  | update path moveTo body =>
    cases moveTo with
    | none => exact foldlM_body _ body nofun
    | some target =>
      have hmove := @parseLine_moveTo (state.1 ++ (state.2.map PatchSection.finalize).toList)
        (openSection .update path.text) target.text rfl rfl rfl target.named
      show ((moveToPrefix ++ target.text) :: body.map BodyLine.print).foldlM parseLine
        (state.1 ++ (state.2.map PatchSection.finalize).toList,
          some (openSection .update path.text)) = _
      rw [List.foldlM_cons, hmove]
      exact foldlM_body _ body nofun

/-- The operations that a state of the parser stands for. -/
def finish (state : List PatchFileOp × Option PatchSection) : List PatchFileOp :=
  state.1 ++ (state.2.map PatchSection.finalize).toList

theorem foldlM_ops : ∀ (ops : List FileOp) (state : List PatchFileOp × Option PatchSection),
    ((ops.flatMap FileOp.lines).foldlM parseLine state).map finish
      = some (finish state ++ ops.map FileOp.result)
  | [], state => by simp
  | op :: ops, state => by
      rw [List.flatMap_cons, List.foldlM_append, foldlM_op state op]
      have ih := foldlM_ops ops (finish state, some op.section_)
      have hfinish : finish (finish state, some op.section_) = finish state ++ [op.result] := by
        rw [← finalize_section]
        rfl
      rw [hfinish] at ih
      rw [List.map_cons, ← List.singleton_append, ← List.append_assoc]
      exact ih

/-! ## 4. The lines of a text -/

/-- `line.rstrip("\r")` -/
def stripCr (line : List Char) : List Char := line.rdropWhile (· = '\r')

/-- The lines that the parser looks at. -/
def textLines (command : String) : List (List Char) :=
  (((command.toList.splitOn '\n').map stripCr).dropWhile isBlank).rdropWhile isBlank

theorem parseApplyPatch_eq (command : String) :
    parseApplyPatch command
      = if (textLines command).head? ≠ some beginPatch ∨ (textLines command).getLast? ≠ some endPatch
          ∨ (textLines command).length < 2 then none
        else ((textLines command).tail.dropLast.foldlM parseLine ([], none)).map finish :=
  rfl

/-- An envelope is parsed to the operations that it prints. -/
theorem parse_of_textLines {command : String} {ops : List FileOp}
    (h : textLines command = envelopeLines ops) :
    parseApplyPatch command = some (ops.map FileOp.result) := by
  have hlast : (envelopeLines ops).getLast? = some endPatch := by
    rw [envelopeLines, ← List.cons_append, List.getLast?_concat]
  have hbody : (envelopeLines ops).tail.dropLast = ops.flatMap FileOp.lines := by
    rw [envelopeLines, List.tail_cons, List.dropLast_concat]
  rw [parseApplyPatch_eq, h, if_neg, hbody, foldlM_ops]
  · rfl
  · rintro (hhead | hend | hlength)
    · exact hhead rfl
    · exact hend hlast
    · simp [envelopeLines] at hlength

/-- Carriage returns do not reach over a character that is none. -/
theorem stripCr_append (pre : List Char) {text : List Char} (h : ∃ c ∈ text, c ≠ '\r') :
    stripCr (pre ++ text) = pre ++ stripCr text := by
  induction text using List.reverseRecOn with
  | nil => obtain ⟨c, hc, -⟩ := h; cases hc
  | append_singleton text d ih =>
    rw [stripCr, stripCr, ← List.append_assoc, List.rdropWhile_concat, List.rdropWhile_concat]
    by_cases hd : d = '\r'
    · rw [if_pos (by simpa using hd), if_pos (by simpa using hd)]
      refine ih ?_
      obtain ⟨c, hc, hne⟩ := h
      rcases List.mem_append.mp hc with hc | hc
      · exact ⟨c, hc, hne⟩
      · exact absurd ((List.mem_singleton.mp hc).trans hd) hne
    · rw [if_neg (by simpa using hd), if_neg (by simpa using hd), List.append_assoc]

theorem stripCr_cons {c : Char} (hc : c ≠ '\r') (text : List Char) :
    stripCr (c :: text) = c :: stripCr text := by
  induction text using List.reverseRecOn with
  | nil => simp [stripCr, List.rdropWhile_singleton, hc]
  | append_singleton text d ih =>
    rw [stripCr, stripCr, ← List.cons_append, List.rdropWhile_concat, List.rdropWhile_concat]
    split
    · exact ih
    · rfl

theorem mem_of_mem_stripCr {c : Char} {text : List Char} (h : c ∈ stripCr text) : c ∈ text :=
  (List.rdropWhile_prefix _ _).subset h

theorem strip_concat_space (text : List Char) {c : Char} (hc : isSpace c = true) :
    strip (text ++ [c]) = strip text := by
  rw [strip, strip, List.dropWhile_append]
  cases hdrop : text.dropWhile isSpace with
  | nil => simp [hc]
  | cons d ds => exact List.rdropWhile_concat_pos _ _ _ hc

/-- Carriage returns are whitespace. -/
theorem strip_stripCr (text : List Char) : strip (stripCr text) = strip text := by
  induction text using List.reverseRecOn with
  | nil => rfl
  | append_singleton text c ih =>
    rw [stripCr, List.rdropWhile_concat]
    by_cases hc : c = '\r'
    · subst hc
      rw [if_pos (by simp), strip_concat_space text rfl]
      exact ih
    · rw [if_neg (by simpa using hc)]

theorem exists_of_strip {text : List Char} (h : strip text ≠ []) : ∃ c ∈ text, c ≠ '\r' := by
  by_contra hall
  refine h ?_
  have hspace : ∀ c ∈ text, isSpace c = true := by
    intro c hc
    have hcr : c = '\r' := by
      by_contra hne
      exact hall ⟨c, hc, hne⟩
    rw [hcr]
    rfl
  rw [strip, List.dropWhile_eq_nil_iff.mpr hspace]
  rfl

/-! ## 5. Carriage returns at line ends -/

def LineText.withoutCr (line : LineText) : LineText where
  text := stripCr line.text
  oneLine := fun h => line.oneLine (mem_of_mem_stripCr h)

def HeaderPath.withoutCr (path : HeaderPath) : HeaderPath where
  toLineText := path.toLineText.withoutCr
  named := by
    show strip (stripCr path.text) ≠ []
    rw [strip_stripCr]
    exact path.named

def BodyLine.withoutCr : BodyLine → BodyLine
  | .added line => .added line.withoutCr
  | .removed line => .removed line.withoutCr
  | .context line => .context line.withoutCr
  | .hunk line => .hunk line.withoutCr
  | .blank => .blank
  | .endOfFile => .endOfFile

/-- The operation without carriage returns at the ends of its lines. -/
def FileOp.withoutCr : FileOp → FileOp
  | .add path body => .add path.withoutCr (body.map BodyLine.withoutCr)
  | .update path moveTo body =>
      .update path.withoutCr (moveTo.map HeaderPath.withoutCr) (body.map BodyLine.withoutCr)
  | .delete path => .delete path.withoutCr

theorem stripCr_print (line : BodyLine) : stripCr line.print = line.withoutCr.print := by
  cases line with
  | blank => rfl
  | endOfFile => rfl
  | hunk line =>
    show stripCr ('@' :: '@' :: line.text) = '@' :: '@' :: stripCr line.text
    rw [stripCr_cons (by decide), stripCr_cons (by decide)]
  | added line => exact stripCr_cons (by decide) line.text
  | removed line => exact stripCr_cons (by decide) line.text
  | context line => exact stripCr_cons (by decide) line.text

theorem stripCr_path (pre : List Char) (path : HeaderPath) :
    stripCr (pre ++ path.text) = pre ++ path.withoutCr.text :=
  stripCr_append pre (exists_of_strip path.named)

theorem stripCr_body (body : List BodyLine) :
    (body.map BodyLine.print).map stripCr = (body.map BodyLine.withoutCr).map BodyLine.print := by
  rw [List.map_map, List.map_map]
  exact List.map_congr_left fun line _ => stripCr_print line

theorem stripCr_lines (op : FileOp) : op.lines.map stripCr = op.withoutCr.lines := by
  have hpath := stripCr_path (headerPrefix op.kind) op.path
  rw [FileOp.lines, List.map_append, FileOp.headerLines, List.map_cons, hpath, stripCr_body]
  cases op with
  | add path body => rfl
  | delete path => rfl
  | update path moveTo body =>
    cases moveTo with
    | none => rfl
    | some target =>
      show _ :: ([moveToPrefix ++ target.text].map stripCr) ++ _ = _
      rw [List.map_cons, stripCr_path]
      rfl

theorem not_mem_print {line : BodyLine} : '\n' ∉ line.print := by
  cases line with
  | blank => exact List.not_mem_nil
  | endOfFile => decide
  | hunk line => simpa [BodyLine.print] using line.oneLine
  | added line => simpa [BodyLine.print] using line.oneLine
  | removed line => simpa [BodyLine.print] using line.oneLine
  | context line => simpa [BodyLine.print] using line.oneLine

theorem not_mem_append {pre : List Char} (hpre : '\n' ∉ pre) (line : LineText) :
    '\n' ∉ pre ++ line.text := by
  intro h
  rcases List.mem_append.mp h with h | h
  · exact hpre h
  · exact line.oneLine h

theorem not_mem_headerPrefix (kind : PatchOpKind) : '\n' ∉ headerPrefix kind := by
  cases kind <;> decide

theorem not_mem_lines {op : FileOp} : ∀ line ∈ op.lines, '\n' ∉ line := by
  intro line hline
  rcases List.mem_append.mp hline with hline | hline
  · rcases List.mem_cons.mp hline with rfl | hline
    · exact not_mem_append (not_mem_headerPrefix op.kind) op.path.toLineText
    · obtain ⟨target, -, rfl⟩ := Option.map_eq_some_iff.mp (Option.mem_toList.mp hline)
      exact not_mem_append (by decide) target.toLineText
  · obtain ⟨bodyLine, -, rfl⟩ := List.mem_map.mp hline
    exact not_mem_print

theorem not_mem_envelope {ops : List FileOp} : ∀ line ∈ envelopeLines ops, '\n' ∉ line := by
  intro line hline
  rcases List.mem_cons.mp hline with rfl | hline
  · decide
  · rcases List.mem_append.mp hline with hline | hline
    · obtain ⟨op, -, hop⟩ := List.mem_flatMap.mp hline
      exact not_mem_lines line hop
    · rw [List.mem_singleton.mp hline]
      decide

theorem stripCr_envelope (ops : List FileOp) :
    (envelopeLines ops).map stripCr = envelopeLines (ops.map FileOp.withoutCr) := by
  have hops : (ops.flatMap FileOp.lines).map stripCr
      = (ops.map FileOp.withoutCr).flatMap FileOp.lines := by
    rw [List.map_flatMap, List.flatMap_map]
    exact congrArg (ops.flatMap ·) (funext stripCr_lines)
  have hbegin : stripCr beginPatch = beginPatch := rfl
  have hend : stripCr endPatch = endPatch := rfl
  rw [envelopeLines, List.map_cons, List.map_append, hops, hbegin, List.map_singleton, hend]
  rfl

theorem textLines_print (ops : List FileOp) :
    textLines (printPatch ops) = envelopeLines (ops.map FileOp.withoutCr) := by
  have hsplit : (joinLines (envelopeLines ops)).splitOn '\n' = envelopeLines ops :=
    List.splitOn_intercalate '\n' not_mem_envelope (List.cons_ne_nil _ _)
  rw [textLines, printPatch, String.toList_ofList, hsplit, stripCr_envelope, envelopeLines,
    List.dropWhile_cons_of_neg (by decide), ← List.cons_append]
  exact List.rdropWhile_concat_neg _ _ _ (by decide)

/-! ## 6. What is accepted -/

theorem not_mem_of_mem_splitOn {x : Char} : ∀ {text line : List Char}, line ∈ text.splitOn x →
    x ∉ line
  | [], line, h => by
      rw [List.splitOn_nil, List.mem_singleton] at h
      rw [h]
      exact List.not_mem_nil
  | c :: text, line, h => by
      rw [List.splitOn_cons_eq_if_modifyHead] at h
      split at h
      · rcases List.mem_cons.mp h with rfl | h
        · exact List.not_mem_nil
        · exact not_mem_of_mem_splitOn h
      · rename_i hne
        cases hcut : text.splitOn x with
        | nil => exact absurd hcut (List.splitOn_ne_nil x text)
        | cons first rest =>
          rw [hcut] at h
          rcases List.mem_cons.mp h with rfl | h
          · have hfirst : x ∉ first := not_mem_of_mem_splitOn (hcut ▸ List.mem_cons_self)
            rw [List.mem_cons, not_or]
            exact ⟨fun e => hne (by simp [e]), hfirst⟩
          · exact not_mem_of_mem_splitOn (hcut ▸ List.mem_cons_of_mem _ h)

theorem not_mem_textLines {command : String} {line : List Char} (h : line ∈ textLines command) :
    '\n' ∉ line := by
  have hmem := (List.dropWhile_sublist _).subset ((List.rdropWhile_prefix _ _).subset h)
  obtain ⟨cut, hcut, rfl⟩ := List.mem_map.mp hmem
  exact fun hc => not_mem_of_mem_splitOn hcut (mem_of_mem_stripCr hc)

/-- A header line and its path. -/
theorem matchHeader_some {line path : List Char} {kind : PatchOpKind}
    (h : matchHeader line = some (kind, path)) :
    ∃ text, line = headerPrefix kind ++ text ∧ path = strip text := by
  obtain ⟨header, hfind, hheader⟩ := Option.map_eq_some_iff.mp h
  have hpre := List.find?_some hfind
  replace hpre : header.1.isPrefixOf line = true := hpre
  obtain ⟨text, rfl⟩ := List.isPrefixOf_iff_prefix.mp hpre
  have hmem := List.mem_of_find?_eq_some hfind
  rw [List.drop_left] at hheader
  obtain ⟨rfl, rfl⟩ := Prod.mk.inj hheader
  refine ⟨text, ?_, rfl⟩
  simp only [patchHeaders, List.mem_cons, List.not_mem_nil, or_false] at hmem
  rcases hmem with rfl | rfl | rfl <;> rfl

/-- A line that may stand in a body is printed by one. -/
theorem bodyLine_of_line {line : List Char} (hline : '\n' ∉ line)
    (h : line = eofMarker ∨ isBodyLine line = true) : ∃ b : BodyLine, b.print = line := by
  rcases h with rfl | h
  · exact ⟨.endOfFile, rfl⟩
  · unfold isBodyLine at h
    split at h
    · exact ⟨.blank, rfl⟩
    · exact ⟨.added ⟨_, fun hc => hline (List.mem_cons_of_mem _ hc)⟩, rfl⟩
    · exact ⟨.removed ⟨_, fun hc => hline (List.mem_cons_of_mem _ hc)⟩, rfl⟩
    · exact ⟨.context ⟨_, fun hc => hline (List.mem_cons_of_mem _ hc)⟩, rfl⟩
    · exact ⟨.hunk ⟨_, fun hc => hline (List.mem_cons_of_mem _ (List.mem_cons_of_mem _ hc))⟩, rfl⟩
    · cases h

/-- The state after the lines of some operations. -/
inductive Reached : List (List Char) → List PatchFileOp × Option PatchSection → Prop
  | start : Reached [] ([], none)
  | within (ops : List FileOp) (op : FileOp) :
      Reached ((ops ++ [op]).flatMap FileOp.lines) (ops.map FileOp.result, some op.section_)

theorem flatMap_concat (ops : List FileOp) (op : FileOp) :
    (ops ++ [op]).flatMap FileOp.lines = ops.flatMap FileOp.lines ++ op.lines := by
  simp

/-- A header opens an operation without a body. -/
theorem Reached.header {lines : List (List Char)}
    {state : List PatchFileOp × Option PatchSection} (h : Reached lines state) (kind : PatchOpKind)
    {text : List Char} (htext : '\n' ∉ text) (hnamed : strip text ≠ []) :
    Reached (lines ++ [headerPrefix kind ++ text]) (finish state, some (openSection kind text)) := by
  have hop : ∃ op : FileOp, op.lines = [headerPrefix kind ++ text]
      ∧ op.section_ = openSection kind text := by
    cases kind with
    | add => exact ⟨.add ⟨⟨text, htext⟩, hnamed⟩ [], rfl, rfl⟩
    | update => exact ⟨.update ⟨⟨text, htext⟩, hnamed⟩ none [], rfl, rfl⟩
    | delete => exact ⟨.delete ⟨⟨text, htext⟩, hnamed⟩, rfl, rfl⟩
  obtain ⟨op, hlines, hsection⟩ := hop
  rw [← hlines, ← hsection]
  cases h with
  | start =>
    have hreached := Reached.within [] op
    rw [List.nil_append, List.flatMap_singleton] at hreached
    exact hreached
  | within ops last =>
    have hreached := Reached.within (ops ++ [last]) op
    have hfinish : finish (ops.map FileOp.result, some last.section_)
        = (ops ++ [last]).map FileOp.result := by
      rw [List.map_append, List.map_singleton, ← finalize_section]
      rfl
    rw [hfinish]
    rwa [flatMap_concat] at hreached

/-- The loop goes on only with a line of the grammar. -/
theorem Reached.step {lines : List (List Char)}
    {state state' : List PatchFileOp × Option PatchSection} {line : List Char}
    (h : Reached lines state) (hline : '\n' ∉ line) (hstep : parseLine state line = some state') :
    Reached (lines ++ [line]) state' := by
  rw [parseLine] at hstep
  cases hheader : matchHeader line with
  | some header =>
    obtain ⟨kind, path⟩ := header
    obtain ⟨text, rfl, rfl⟩ := matchHeader_some hheader
    simp only [hheader] at hstep
    split at hstep
    · cases hstep
    · rename_i hnamed
      cases hstep
      exact h.header kind (fun hc => hline (List.mem_append_right _ hc)) hnamed
  | none =>
    simp only [hheader] at hstep
    cases h with
    | start =>
      split at hstep <;> cases hstep
    | within ops op =>
      simp only at hstep
      split at hstep
      · rename_i hmove
        obtain ⟨text, rfl⟩ := List.isPrefixOf_iff_prefix.mp hmove
        rw [List.drop_left] at hstep
        split at hstep
        · cases hstep
        · rename_i hvalid
          simp only [not_or, ne_eq, not_not] at hvalid
          obtain ⟨hkind, hbody, hmoveTo, hnamed⟩ := hvalid
          cases hstep
          cases op with
          | add path body => cases hkind
          | delete path => cases hkind
          | update path moveTo body =>
            cases moveTo with
            | some target => exact absurd rfl hmoveTo
            | none =>
              have hnil : body = [] := List.map_eq_nil_iff.mp hbody
              subst hnil
              have htext : '\n' ∉ text := fun hc => hline (List.mem_append_right _ hc)
              have hreached := Reached.within ops (.update path (some ⟨⟨text, htext⟩, hnamed⟩) [])
              rw [flatMap_concat] at hreached ⊢
              rw [List.append_assoc]
              exact hreached
      · split at hstep
        · cases hstep
        · rename_i hkind
          split at hstep
          · rename_i hbody
            obtain ⟨b, rfl⟩ := bodyLine_of_line hline hbody
            cases hstep
            have hlonger : ∃ op' : FileOp, op'.lines = op.lines ++ [b.print]
                ∧ op'.section_ = { op.section_ with body := op.section_.body ++ [b.print] } := by
              cases op with
              | delete path => exact absurd rfl hkind
              | add path body =>
                refine ⟨.add path (body ++ [b]), ?_, ?_⟩
                · simp [FileOp.lines, FileOp.headerLines, FileOp.body, FileOp.kind, FileOp.path,
                    FileOp.moveTo]
                · simp [FileOp.section_, FileOp.headerLines, FileOp.body, FileOp.kind, FileOp.path,
                    FileOp.moveTo]
              | update path moveTo body =>
                refine ⟨.update path moveTo (body ++ [b]), ?_, ?_⟩
                · simp [FileOp.lines, FileOp.headerLines, FileOp.body, FileOp.kind, FileOp.path,
                    FileOp.moveTo]
                · simp [FileOp.section_, FileOp.headerLines, FileOp.body, FileOp.kind, FileOp.path,
                    FileOp.moveTo]
            obtain ⟨op', hlines, hsection⟩ := hlonger
            have hreached := Reached.within ops op'
            rw [flatMap_concat, hlines, hsection] at hreached
            rw [flatMap_concat, List.append_assoc]
            exact hreached
          · cases hstep

theorem reached_foldlM : ∀ {rest lines : List (List Char)}
    {state state' : List PatchFileOp × Option PatchSection}, Reached lines state →
      (∀ line ∈ rest, '\n' ∉ line) → rest.foldlM parseLine state = some state' →
        Reached (lines ++ rest) state'
  | [], lines, _, _, h, _, hfold => by
      cases hfold
      rwa [List.append_nil]
  | line :: rest, lines, state, state', h, hrest, hfold => by
      rw [List.foldlM_cons] at hfold
      obtain ⟨next, hstep, hfold⟩ := Option.bind_eq_some_iff.mp hfold
      have hnext := h.step (hrest line List.mem_cons_self) hstep
      have hreached := reached_foldlM hnext (fun l hl => hrest l (List.mem_cons_of_mem _ hl)) hfold
      rwa [List.append_assoc, List.singleton_append] at hreached

/-- An accepted text is an envelope. -/
theorem ops_of_parse {command : String} {results : List PatchFileOp}
    (h : parseApplyPatch command = some results) :
    ∃ ops : List FileOp, results = ops.map FileOp.result ∧ textLines command = envelopeLines ops := by
  rw [parseApplyPatch_eq] at h
  split at h
  · cases h
  · rename_i hframe
    simp only [not_or, ne_eq, not_not, not_lt] at hframe
    obtain ⟨hhead, hlast, hlength⟩ := hframe
    obtain ⟨state, hfold, rfl⟩ := Option.map_eq_some_iff.mp h
    obtain ⟨rest, hlines⟩ := List.head?_eq_some_iff.mp hhead
    have hrest : rest ≠ [] := by
      rintro rfl
      rw [hlines] at hlength
      exact absurd hlength (by decide)
    have hend : rest.getLast? = some endPatch := by
      obtain ⟨second, more, rfl⟩ := List.exists_cons_of_ne_nil hrest
      rw [hlines, List.getLast?_cons_cons] at hlast
      exact hlast
    obtain ⟨middle, rfl⟩ := List.getLast?_eq_some_iff.mp hend
    have hmiddle : (textLines command).tail.dropLast = middle := by
      rw [hlines, List.tail_cons, List.dropLast_concat]
    rw [hmiddle] at hfold
    have hclean : ∀ line ∈ middle, '\n' ∉ line := by
      intro line hline
      have hmem : line ∈ textLines command := by
        rw [hlines]
        exact List.mem_cons_of_mem _ (List.mem_append_left _ hline)
      exact not_mem_textLines hmem
    have hreached := reached_foldlM .start hclean hfold
    rw [List.nil_append] at hreached
    rw [hlines]
    cases hreached with
    | start => exact ⟨[], rfl, rfl⟩
    | within ops op =>
      refine ⟨ops ++ [op], ?_, rfl⟩
      rw [List.map_append, List.map_singleton, ← finalize_section]
      rfl

theorem parse_print (ops : List FileOp) :
    parseApplyPatch (printPatch ops) = some ((ops.map FileOp.withoutCr).map FileOp.result) :=
  parse_of_textLines (textLines_print ops)

/-- Where no line ends with a carriage return, nothing is taken off. -/
theorem parse_print_exact {ops : List FileOp} (h : ∀ line ∈ envelopeLines ops, stripCr line = line) :
    parseApplyPatch (printPatch ops) = some (ops.map FileOp.result) := by
  refine parse_of_textLines ?_
  rw [textLines_print, ← stripCr_envelope]
  exact (List.map_congr_left h).trans (List.map_id _)

/-- **The parser is exact** up to the carriage returns at line ends: a
printed envelope is parsed to its operations without them, so to the
operations themselves where no line ends with one; and what is accepted is,
up to blank lines around it, the print of the operations that are
returned. -/
theorem apply_patch_exact :
    (∀ ops : List FileOp, parseApplyPatch (printPatch ops)
        = some ((ops.map FileOp.withoutCr).map FileOp.result))
      ∧ (∀ ops : List FileOp, (∀ line ∈ envelopeLines ops, stripCr line = line) →
        parseApplyPatch (printPatch ops) = some (ops.map FileOp.result))
      ∧ ∀ (command : String) (results : List PatchFileOp), parseApplyPatch command = some results →
        ∃ ops : List FileOp, results = ops.map FileOp.result
          ∧ textLines command = envelopeLines ops :=
  ⟨parse_print, fun _ => parse_print_exact, fun _ _ => ops_of_parse⟩

/-- Adding a file with one line. -/
def addLine (text : String) (h : '\n' ∉ text.toList) : FileOp :=
  .add ⟨⟨['a'], by decide⟩, by decide⟩ [.added ⟨text.toList, h⟩]

/-- A patch without carriage returns, printed and parsed. -/
theorem plain_patch_exact :
    parseApplyPatch (printPatch [addLine "x" (by decide)]) = some [(addLine "x" (by decide)).result]
      ∧ ∃ ops : List FileOp, [(addLine "x" (by decide)).result] = ops.map FileOp.result
        ∧ textLines (printPatch [addLine "x" (by decide)]) = envelopeLines ops := by
  have hparse := apply_patch_exact.2.1 [addLine "x" (by decide)] (by decide)
  exact ⟨hparse, apply_patch_exact.2.2 _ _ hparse⟩

/-- The carriage return at the end of a line is lost. -/
theorem carriage_return_lost :
    parseApplyPatch (printPatch [addLine "x\r" (by decide)])
      ≠ some [(addLine "x\r" (by decide)).result] := by
  rw [parse_print]
  intro h
  have hcontent := congrArg (·.map (·.map PatchFileOp.addedContent)) h
  exact absurd hcontent (by decide)

end MultiForge.Engine
