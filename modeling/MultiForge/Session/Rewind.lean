/-
MultiForge.Session.Rewind — `write_rewind_transcript_prefix` of
`forge.session.rewind`, and the turns of `forge.core.transcript`.

A rewind drops the last turns of a transcript. Turns are groups of entries,
and what is written is the beginning of the file up to the last line of the
turns that are kept, fewer of them where a tool call would be left without
its result.
-/
import MultiForge.Json.PyValue
import MultiForge.Lib.Grouping
import MultiForge.Lib.Lines

namespace MultiForge.Session.Rewind

open PyValue Lines

variable {F : Type}

/-! ## 1. Entries -/

/-- An object of a transcript. -/
abbrev Entry (F : Type) := List (PyStr × PyValue F)

/-- `_RawTranscriptEntry` -/
structure RawEntry (F : Type) where
  entry : Entry F
  lineIndex : Nat

inductive Role where
  | user
  | assistant
  deriving DecidableEq, Repr

/-- `normalize_transcript_role` -/
def normalizeTranscriptRole (raw : PyValue F) : Option Role :=
  if raw.isStr "user" || raw.isStr "human" then some .user
  else if raw.isStr "assistant" || raw.isStr "ai" then some .assistant
  else none

/-- `resolve_entry_role` -/
def resolveEntryRole (entry : Entry F) : Option Role :=
  match get entry "message" with
  | .obj message =>
      (normalizeTranscriptRole (get message "role")).or (normalizeTranscriptRole (get entry "type"))
  | _ => normalizeTranscriptRole (get entry "type")

def textBlock (text : PyStr) : Entry F :=
  [(py "type", .str (py "text")), (py "text", .str text)]

/-- The blocks of a content, if it is a list or a text. -/
def contentBlocks : PyValue F → Option (List (Entry F))
  | .list blocks => some (blocks.filterMap fun
      | .obj block => some block
      | _ => none)
  | .str (c :: cs) => some [textBlock (c :: cs)]
  | _ => none

/-- `extract_entry_blocks` -/
def extractEntryBlocks (entry : Entry F) : List (Entry F) :=
  let ofMessage :=
    match get entry "message" with
    | .obj message => contentBlocks (get message "content")
    | _ => none
  match ofMessage.or (contentBlocks (get entry "content")) with
  | some blocks => blocks
  | none =>
      match get entry "text" with
      | .str (c :: cs) => [textBlock (c :: cs)]
      | _ => []

/-- A string that is there and not empty. -/
def textField (key : String) (items : Entry F) : Option PyStr :=
  match get items key with
  | .str (c :: cs) => some (c :: cs)
  | _ => none

/-! ## 2. Turns -/

/-- What `group_entries_into_turns` remembers: the turns of the request ids,
    and `current_fallback_group`. -/
structure Requests where
  turnOf : List (PyStr × Nat)
  fallback : Option Nat

/-- The turn that an entry goes to, when there are `n` of them. -/
def place (requests : Requests) (n : Nat) (raw : RawEntry F) : Requests × Grouping.Place :=
  match textField "requestId" raw.entry with
  | some id =>
      match (requests.turnOf.find? fun item => item.1 = id).map Prod.snd with
      | some i => ({ requests with fallback := none }, .old i)
      | none => (⟨requests.turnOf ++ [(id, n)], none⟩, .fresh)
  | none =>
      match resolveEntryRole raw.entry with
      | some .user => ({ requests with fallback := some n }, .fresh)
      | role =>
          match requests.fallback with
          | some i => (requests, .old i)
          | none =>
              if role = some .assistant then ({ requests with fallback := some n }, .fresh)
              else (requests, .nowhere)

/-- `group_entries_into_turns` -/
def groupEntriesIntoTurns (raws : List (RawEntry F)) : List (List (RawEntry F)) :=
  (Grouping.run place (Grouping.start ⟨[], none⟩) raws).groups

/-! ## 3. Reading -/

variable [PyFloatText F] (limits : Limits)

/-- The object of a line, if it has one. -/
def readLine (line : List Char) : Except LoadError (Option (Entry F)) :=
  if strip line = [] then .ok none
  else match (pyLoads limits (strip line) : Except LoadError (PyValue F)) with
    | .ok (.obj entry) => .ok (some entry)
    | .ok _ => .ok none
    | .error .decode => .ok none
    | .error e => .error e

/-- `_parse_raw_transcript_entries`, of lines with the number of the first -/
def parseRawTranscriptEntries : Nat → List (List Char) → Except LoadError (List (RawEntry F))
  | _, [] => .ok []
  | i, line :: lines =>
      (readLine limits line).bind fun entry =>
        (parseRawTranscriptEntries (i + 1) lines).map fun raws =>
          (entry.map fun entry => ⟨entry, i⟩).toList ++ raws

/-- `parse_rewind_transcript_entries`, of a file with this text -/
def parseRewindTranscriptEntries (file : List Char) : Except LoadError (List (RawEntry F)) :=
  parseRawTranscriptEntries limits 0 (splitLines (translate file))

/-! ## 4. The prefix -/

/-- The ids of a kind of block. -/
def blockIds (type key : String) (entries : List (Entry F)) : List PyStr :=
  (entries.flatMap extractEntryBlocks).filterMap fun block =>
    if (get block "type").isStr type then textField key block else none

def toolUses (entries : List (Entry F)) : List PyStr := blockIds "tool_use" "id" entries

def toolResults (entries : List (Entry F)) : List PyStr :=
  blockIds "tool_result" "tool_use_id" entries

/-- `_has_dangling_tool_use` -/
def hasDanglingToolUse (entries : List (Entry F)) : Bool :=
  (toolUses entries).any fun id => !(toolResults entries).contains id

/-- `_cutoff_line_for_kept_turns` -/
def cutoffLine (turns : List (List (RawEntry F))) (kept : Nat) : Int :=
  ((turns.take kept).flatten.map fun raw => (raw.lineIndex : Int)).max?.getD (-1)

/-- The entries up to a line. -/
def upTo (cutoff : Int) (raws : List (RawEntry F)) : List (RawEntry F) :=
  raws.filter fun raw => (raw.lineIndex : Int) ≤ cutoff

/-- `_snap_to_complete_prefix` -/
def snapToCompletePrefix (raws : List (RawEntry F)) (turns : List (List (RawEntry F))) : Nat → Nat
  | 0 => 0
  | kept + 1 =>
      if hasDanglingToolUse ((upTo (cutoffLine turns (kept + 1)) raws).map RawEntry.entry) then
        snapToCompletePrefix raws turns kept
      else kept + 1

/-- `_assert_kept_turns_form_raw_prefix`; a line stands for its entry. -/
def keptTurnsFormRawPrefix (raws : List (RawEntry F)) (turns : List (List (RawEntry F)))
    (kept : Nat) (cutoff : Int) : Bool :=
  let grouped := turns.flatten.map RawEntry.lineIndex
  let expected := (turns.take kept).flatten.map RawEntry.lineIndex
  let selected := ((upTo cutoff raws).map RawEntry.lineIndex).filter fun i => i ∈ grouped
  selected.all (fun i => i ∈ expected) && expected.all fun i => i ∈ selected

/-- `RewindPrefixResult`, with the text that is written -/
structure RewindPrefix where
  text : List Char
  totalTurns : Nat
  requestedKeepTurns : Nat
  keptTurns : Nat
  actualDroppedTurns : Nat
  linesWritten : Nat
  entriesWritten : Nat
  snappedToSafeBoundary : Bool
  deriving DecidableEq, Repr

inductive RewindError where
  /-- `drop_last must be non-negative` -/
  | negative
  | load (e : LoadError)
  /-- `rewind transcript turns are not a contiguous raw prefix` -/
  | interleaved
  deriving DecidableEq, Repr

/-- `write_rewind_transcript_prefix`, of a source file with this text; an
    error leaves the destination alone. -/
def writeRewindTranscriptPrefix (F : Type) [PyFloatText F] (limits : Limits) (file : List Char)
    (dropLast : Int) : Except RewindError RewindPrefix :=
  if dropLast < 0 then .error .negative
  else
    let source := translate file
    let lines := splitLines source
    match (parseRawTranscriptEntries limits 0 lines : Except LoadError (List (RawEntry F))) with
    | .error e => .error (.load e)
    | .ok raws =>
        let turns := groupEntriesIntoTurns raws
        let requested := turns.length - dropLast.toNat
        if dropLast = 0 then .ok {
          text := source
          totalTurns := turns.length
          requestedKeepTurns := turns.length
          keptTurns := turns.length
          actualDroppedTurns := 0
          linesWritten := lines.length
          entriesWritten := raws.length
          snappedToSafeBoundary := false }
        else
          let kept := snapToCompletePrefix raws turns requested
          let cutoff := cutoffLine turns kept
          if keptTurnsFormRawPrefix raws turns kept cutoff then
            let selected := if 0 ≤ cutoff then lines.take (cutoff + 1).toNat else []
            .ok {
              text := selected.flatten
              totalTurns := turns.length
              requestedKeepTurns := requested
              keptTurns := kept
              actualDroppedTurns := turns.length - kept
              linesWritten := selected.length
              entriesWritten := (upTo cutoff raws).length
              snappedToSafeBoundary := kept ≠ requested }
          else .error .interleaved

end MultiForge.Session.Rewind
