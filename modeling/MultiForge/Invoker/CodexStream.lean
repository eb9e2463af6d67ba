/-
MultiForge.Invoker.CodexStream — reducing the events of `codex exec --json`.

`parse_codex_jsonl_stream` cuts the output of a Codex run with
`str.splitlines`, passes over what is not JSON and reduces the events that
are left to the answer, the token counts, the thread and whether the turn
failed. JSON may hold U+2028, U+2029 and U+0085 as they are, and
`splitlines` cuts there too, so that an event with such a character is two
pieces that are no events. Numbers are converted with `int()`, which
raises on an infinity, and an integer with very many digits makes a line
that `json.loads` gives up on.

`lineEvents` are the events that were written and `pieceEvents` those that
are found. The reduction is the one of the written events exactly when
both carry the same (`parse_codex_jsonl_stream_iff`); for lines that none
of this touches they are the same (`pieceEvents_plain`).
-/
import MultiForge.Json.PyValue
import MultiForge.Lib.LineEnds

namespace MultiForge.Invoker

open PyValue Lines

/-- Floats that `int()` converts, and those it raises on. -/
class PyFloatInt (F : Type) extends PyFloatText F where
  /-- `int(x)`; `none` for an infinity and a NaN -/
  int? : F → Option Int

instance : PyFloatInt FloatText where
  int?
    | .decimal d =>
        let n : Int := if 0 ≤ d.scale then d.mantissa * 10 ^ d.scale.toNat
          else (d.mantissa / 10 ^ (-d.scale).toNat : Nat)
        some (if d.neg then -n else n)
    | _ => none

variable {F : Type} [PyFloatInt F]

/-! ## 1. The code -/

/-- What is raised while a stream is reduced. -/
inductive PyException where
  | recursionError
  /-- `int()` of an infinity (`OverflowError`) or a NaN (`ValueError`) -/
  | intConversion
  deriving DecidableEq, Repr

structure CodexStreamResult where
  finalText : PyStr
  inputTokens : Option Int
  outputTokens : Option Int
  cachedTokens : Option Int
  isError : Bool
  errorMessage : Option PyStr
  threadId : Option PyStr
  deriving DecidableEq, Repr

/-- The variables of the loop. -/
structure Reduction where
  texts : List PyStr
  inputTokens : Option Int
  outputTokens : Option Int
  cachedTokens : Option Int
  isError : Bool
  errorMessage : Option PyStr
  threadId : Option PyStr

def Reduction.start : Reduction := ⟨[], none, none, none, false, none, none⟩

def Reduction.result (s : Reduction) : CodexStreamResult where
  finalText := [0x0a].intercalate s.texts
  inputTokens := s.inputTokens
  outputTokens := s.outputTokens
  cachedTokens := s.cachedTokens
  isError := s.isError
  errorMessage := s.errorMessage
  threadId := s.threadId

/-- `_agent_message_text` -/
def agentMessageText : PyValue F → Option PyStr
  | .obj item =>
      if (get item "type").isStr "agent_message" then
        match get item "text" with
        | .str text => some text
        | _ => none
      else none
  | _ => none

/-- `isinstance(v, str) and v.strip()` -/
def nonBlank : PyValue F → Option PyStr
  | .str s => if PyStr.strip s = [] then none else some s
  | _ => none

/-- `_extract_error_message` -/
def extractErrorMessage (event : List (PyStr × PyValue F)) : Option PyStr :=
  match nonBlank (get event "message") with
  | some message => some message
  | none => match get event "error" with
      | .obj nested => nonBlank (get nested "message")
      | _ => none

/-- `_as_int` -/
def asInt (strict : Bool) : PyValue F → Except PyException (Option Int)
  | .int n => .ok (some n)
  | .float x =>
      if strict then .ok none
      else match PyFloatInt.int? x with
        | some n => .ok (some n)
        | none => .error .intConversion
  | _ => .ok none

/-- One event. -/
def reduceEvent (strict : Bool) (event : List (PyStr × PyValue F)) (s : Reduction) :
    Except PyException Reduction :=
  let etype := get event "type"
  if etype.isStr "item.completed" then
    match agentMessageText (get event "item") with
    | some text => .ok { s with texts := s.texts ++ [text] }
    | none => .ok s
  else if etype.isStr "turn.completed" then
    match get event "usage" with
    | .obj usage => do
        let inputTokens ← asInt strict (get usage "input_tokens")
        let outputTokens ← asInt strict (get usage "output_tokens")
        let cachedTokens ← asInt strict (get usage "cached_input_tokens")
        return { s with inputTokens, outputTokens, cachedTokens }
    | _ => .ok s
  else if etype.isStr "thread.started" then
    match s.threadId, get event "thread_id" with
    | none, .str (c :: cs) => .ok { s with threadId := some (c :: cs) }
    | _, _ => .ok s
  else if etype.isStr "error" || etype.isStr "turn.failed" then
    .ok { s with
      isError := true
      errorMessage := s.errorMessage.or (extractErrorMessage event) }
  else .ok s

/-- One line. The line break is taken off with the blanks around it. -/
def reduceLine (limits : Limits) (strict : Bool) (line : List Char) (s : Reduction) :
    Except PyException Reduction :=
  let line := strip line
  if line = [] then .ok s
  else match (pyLoads limits line : Except LoadError (PyValue F)) with
    | .error .recursion => .error .recursionError
    | .error _ => .ok s
    | .ok (.obj event) => reduceEvent strict event s
    | .ok _ => .ok s

/-- The loop over the lines. -/
def reduceLines (F : Type) [PyFloatInt F] (limits : Limits) (strict : Bool) :
    List (List Char) → Reduction → Except PyException Reduction
  | [], s => .ok s
  | line :: lines, s => do
      reduceLines F limits strict lines (← reduceLine (F := F) limits strict line s)

def parseCodexJsonlStream (F : Type) [PyFloatInt F] (limits : Limits) (strict : Bool)
    (stdout : List Char) : Except PyException CodexStreamResult := do
  let s ← reduceLines F limits strict (splitLines stdout) .start
  return s.result

/-! ## 2. What events carry -/

/-- The text of an agent message. -/
def textOf (event : List (PyStr × PyValue F)) : Option PyStr :=
  if (get event "type").isStr "item.completed" then agentMessageText (get event "item") else none

/-- The usage object of a completed turn. -/
def usageOf (event : List (PyStr × PyValue F)) : Option (List (PyStr × PyValue F)) :=
  if (get event "type").isStr "turn.completed" then
    match get event "usage" with
    | .obj usage => some usage
    | _ => none
  else none

/-- The non-empty id of a started thread. -/
def threadOf (event : List (PyStr × PyValue F)) : Option PyStr :=
  if (get event "type").isStr "thread.started" then
    match get event "thread_id" with
    | .str (c :: cs) => some (c :: cs)
    | _ => none
  else none

def isErrorEvent (event : List (PyStr × PyValue F)) : Bool :=
  (get event "type").isStr "error" || (get event "type").isStr "turn.failed"

/-- Token counts. -/
structure Counts where
  inputTokens : Option Int
  outputTokens : Option Int
  cachedTokens : Option Int
  deriving DecidableEq, Repr

/-- The counts of a usage object; an error where a number of it is not
finite. -/
def countsOf (strict : Bool) (usage : List (PyStr × PyValue F)) : Except PyException Counts := do
  let inputTokens ← asInt strict (get usage "input_tokens")
  let outputTokens ← asInt strict (get usage "output_tokens")
  let cachedTokens ← asInt strict (get usage "cached_input_tokens")
  return ⟨inputTokens, outputTokens, cachedTokens⟩

/-- The counts of the last usage object. -/
def lastCounts (strict : Bool) (events : List (List (PyStr × PyValue F))) :
    Except PyException Counts :=
  match (events.filterMap usageOf).getLast? with
  | none => .ok ⟨none, none, none⟩
  | some usage => countsOf strict usage

/-- The result is what the events carry. -/
structure Reduces (strict : Bool) (events : List (List (PyStr × PyValue F)))
    (r : CodexStreamResult) : Prop where
  finalText : r.finalText = [0x0a].intercalate (events.filterMap textOf)
  isError : r.isError = true ↔ ∃ event ∈ events, isErrorEvent event = true
  threadId : r.threadId = events.findSome? threadOf
  tokens : lastCounts strict events = .ok ⟨r.inputTokens, r.outputTokens, r.cachedTokens⟩

/-! ## 3. What is written and what is found -/

/-- Limits that a text cannot reach. -/
def unlimited (text : List Char) : Limits := ⟨text.length, text.length⟩

/-- The event of a line: the line is the JSON text of an object. -/
def lineEvent (F : Type) [PyFloatInt F] (line : List Char) : Option (List (PyStr × PyValue F)) :=
  match pyLoads (unlimited line) line with
  | .ok (.obj event) => some event
  | _ => none

/-- The events of a stream of lines. -/
def lineEvents (F : Type) [PyFloatInt F] (lines : List (List Char)) :
    List (List (PyStr × PyValue F)) := lines.filterMap (lineEvent F)

/-- The lines as they are written, each with its newline. -/
def stdoutOf (lines : List (List Char)) : List Char := lines.flatMap (· ++ ['\n'])

/-- The event of a piece of the output, within the limits of the
interpreter. -/
def pieceEvent (F : Type) [PyFloatInt F] (limits : Limits) (piece : List Char) :
    Option (List (PyStr × PyValue F)) :=
  if strip piece = [] then none
  else match pyLoads limits (strip piece) with
    | .ok (.obj event) => some event
    | _ => none

/-- The events of the pieces that a text is cut into at line breaks of
every kind. -/
def pieceEvents (F : Type) [PyFloatInt F] (limits : Limits) (stdout : List Char) :
    List (List (PyStr × PyValue F)) := (splitLines stdout).filterMap (pieceEvent F limits)

/-- The output is reduced to what its lines carry. -/
def Faithful (F : Type) [PyFloatInt F] (limits : Limits) (strict : Bool)
    (lines : List (List Char)) : Prop :=
  ∃ r, parseCodexJsonlStream F limits strict (stdoutOf lines) = .ok r ∧
    Reduces strict (lineEvents F lines) r

/-- Nothing in the output raises: no piece nests too deeply, and every
usage object that is found has finite numbers. -/
structure Convertible (F : Type) [PyFloatInt F] (limits : Limits) (strict : Bool)
    (stdout : List Char) : Prop where
  shallow : ∀ piece ∈ splitLines stdout, strip piece ≠ [] →
    (pyLoads limits (strip piece) : Except LoadError (PyValue F)) ≠ .error .recursion
  finite : ∀ event ∈ pieceEvents F limits stdout, ∀ usage, usageOf event = some usage →
    ∃ counts, countsOf strict usage = .ok counts

/-- Two sequences of events carry the same. -/
structure SameContent (strict : Bool) (events events' : List (List (PyStr × PyValue F))) :
    Prop where
  texts : [0x0a].intercalate (events.filterMap textOf)
    = [0x0a].intercalate (events'.filterMap textOf)
  errors : (∃ event ∈ events, isErrorEvent event = true)
    ↔ ∃ event ∈ events', isErrorEvent event = true
  threads : events.findSome? threadOf = events'.findSome? threadOf
  usages : lastCounts strict events = lastCounts strict events'

/-- A line that is found as it was written: it has no line break of
another kind and no blanks around it, and it is within the limits. -/
structure Plain (F : Type) [PyFloatInt F] (limits : Limits) (line : List Char) : Prop where
  oneLine : ∀ c ∈ line, isLineBreak c = false
  stripped : strip (line ++ ['\n']) = line
  within : (pyLoads limits line : Except LoadError (PyValue F)) = pyLoads (unlimited line) line

/-! ## 4. One event -/

/-- The variables hold what the events carry. -/
structure Carries (strict : Bool) (events : List (List (PyStr × PyValue F))) (s : Reduction) :
    Prop where
  texts : s.texts = events.filterMap textOf
  isError : s.isError = true ↔ ∃ event ∈ events, isErrorEvent event = true
  threadId : s.threadId = events.findSome? threadOf
  tokens : lastCounts strict events = .ok ⟨s.inputTokens, s.outputTokens, s.cachedTokens⟩

theorem carries_start (strict : Bool) : Carries (F := F) strict [] .start :=
  ⟨rfl, by simp [Reduction.start], rfl, rfl⟩

theorem Carries.reduces {strict : Bool} {events : List (List (PyStr × PyValue F))} {s : Reduction}
    (h : Carries strict events s) : Reduces strict events s.result :=
  ⟨by simp [Reduction.result, h.texts], h.isError, h.threadId, h.tokens⟩

theorem lastCounts_snoc (strict : Bool) (events : List (List (PyStr × PyValue F)))
    (event : List (PyStr × PyValue F)) :
    lastCounts strict (events ++ [event]) = match usageOf event with
      | none => lastCounts strict events
      | some usage => countsOf strict usage := by
  cases h : usageOf event with
  | none => simp [lastCounts, h]
  | some usage => simp [lastCounts, h]

/-- What the variables have to hold after one more event. -/
theorem Carries.snoc {strict : Bool} {events : List (List (PyStr × PyValue F))}
    {event : List (PyStr × PyValue F)} {s s' : Reduction} (h : Carries strict events s)
    (htexts : s'.texts = s.texts ++ (textOf event).toList)
    (herror : s'.isError = (s.isError || isErrorEvent event))
    (hthread : s'.threadId = s.threadId.or (threadOf event))
    (htokens : (match usageOf event with
      | none => (.ok ⟨s.inputTokens, s.outputTokens, s.cachedTokens⟩ : Except PyException Counts)
      | some usage => countsOf strict usage)
        = .ok ⟨s'.inputTokens, s'.outputTokens, s'.cachedTokens⟩) :
    Carries strict (events ++ [event]) s' := by
  constructor
  · rw [htexts, h.texts, List.filterMap_append]
    cases hevent : textOf event <;> simp [hevent]
  · rw [herror, Bool.or_eq_true, h.isError]
    simp [or_and_right, exists_or]
  · rw [hthread, h.threadId, List.findSome?_append]
    simp
  · rw [lastCounts_snoc, ← htokens]
    cases hevent : usageOf event with
    | none => exact h.tokens
    | some usage => rfl

theorem reduceEvent_item {strict : Bool} {events : List (List (PyStr × PyValue F))}
    {event : List (PyStr × PyValue F)} {s : Reduction} (h : Carries strict events s)
    (htype : get event "type" = .str (py "item.completed")) :
    ∃ s', reduceEvent strict event s = .ok s' ∧ Carries strict (events ++ [event]) s' := by
  cases htext : agentMessageText (get event "item") with
  | none =>
    refine ⟨s, by simp [reduceEvent, htype, htext], h.snoc ?_ ?_ ?_ ?_⟩ <;>
      simp [textOf, threadOf, usageOf, isErrorEvent, htype, htext]
  | some text =>
    refine ⟨{ s with texts := s.texts ++ [text] }, by simp [reduceEvent, htype, htext],
      h.snoc ?_ ?_ ?_ ?_⟩ <;>
      simp [textOf, threadOf, usageOf, isErrorEvent, htype, htext]

theorem reduceEvent_thread {strict : Bool} {events : List (List (PyStr × PyValue F))}
    {event : List (PyStr × PyValue F)} {s : Reduction} (h : Carries strict events s)
    (htype : get event "type" = .str (py "thread.started")) :
    ∃ s', reduceEvent strict event s = .ok s' ∧ Carries strict (events ++ [event]) s' := by
  cases hold : s.threadId with
  | some old =>
    -- the first id is kept
    refine ⟨s, by simp [reduceEvent, htype, hold], h.snoc ?_ ?_ ?_ ?_⟩ <;>
      simp [textOf, usageOf, isErrorEvent, htype, hold]
  | none =>
    cases hid : get event "thread_id" with
    | str id =>
      cases id with
      | nil =>
        refine ⟨s, by simp [reduceEvent, htype, hold, hid], h.snoc ?_ ?_ ?_ ?_⟩ <;>
          simp [textOf, threadOf, usageOf, isErrorEvent, htype, hold, hid]
      | cons c cs =>
        refine ⟨{ s with threadId := some (c :: cs) }, by simp [reduceEvent, htype, hold, hid],
          h.snoc ?_ ?_ ?_ ?_⟩ <;>
          simp [textOf, threadOf, usageOf, isErrorEvent, htype, hold, hid]
    | _ =>
      refine ⟨s, by simp [reduceEvent, htype, hold, hid], h.snoc ?_ ?_ ?_ ?_⟩ <;>
        simp [textOf, threadOf, usageOf, isErrorEvent, htype, hold, hid]

theorem reduceEvent_error {strict : Bool} {events : List (List (PyStr × PyValue F))}
    {event : List (PyStr × PyValue F)} {s : Reduction} (h : Carries strict events s)
    (herror : isErrorEvent event = true) :
    ∃ s', reduceEvent strict event s = .ok s' ∧ Carries strict (events ++ [event]) s' := by
  have htype : get event "type" = .str (py "error") ∨ get event "type" = .str (py "turn.failed") := by
    simpa [isErrorEvent, isStr_iff] using herror
  refine ⟨{ s with
    isError := true
    errorMessage := s.errorMessage.or (extractErrorMessage event) }, ?_, h.snoc ?_ ?_ ?_ ?_⟩
  all_goals
    obtain htype | htype := htype <;>
      simp [reduceEvent, textOf, threadOf, usageOf, isErrorEvent, htype]

/-- The counts of a completed turn replace the ones before. -/
theorem reduceEvent_usage {strict : Bool} {event usage : List (PyStr × PyValue F)} (s : Reduction)
    (htype : get event "type" = .str (py "turn.completed"))
    (hvalue : get event "usage" = .obj usage) :
    reduceEvent strict event s = (countsOf strict usage).map fun counts => { s with
      inputTokens := counts.inputTokens
      outputTokens := counts.outputTokens
      cachedTokens := counts.cachedTokens } := by
  have hreduce : reduceEvent strict event s = (do
      let inputTokens ← asInt strict (get usage "input_tokens")
      let outputTokens ← asInt strict (get usage "output_tokens")
      let cachedTokens ← asInt strict (get usage "cached_input_tokens")
      return { s with inputTokens, outputTokens, cachedTokens }) := by
    simp [reduceEvent, htype, hvalue]
  rw [hreduce, countsOf]
  cases asInt strict (get usage "input_tokens") with
  | error e => rfl
  | ok inputTokens =>
    cases asInt strict (get usage "output_tokens") with
    | error e => rfl
    | ok outputTokens =>
      cases asInt strict (get usage "cached_input_tokens") with
      | error e => rfl
      | ok cachedTokens => rfl

theorem reduceEvent_turn {strict : Bool} {events : List (List (PyStr × PyValue F))}
    {event : List (PyStr × PyValue F)} {s : Reduction} (h : Carries strict events s)
    (htype : get event "type" = .str (py "turn.completed"))
    (husage : ∀ usage, usageOf event = some usage → ∃ counts, countsOf strict usage = .ok counts) :
    ∃ s', reduceEvent strict event s = .ok s' ∧ Carries strict (events ++ [event]) s' := by
  cases hvalue : get event "usage" with
  | obj usage =>
    have hfound : usageOf event = some usage := by simp [usageOf, htype, hvalue]
    obtain ⟨counts, hcounts⟩ := husage usage hfound
    refine ⟨{ s with
      inputTokens := counts.inputTokens
      outputTokens := counts.outputTokens
      cachedTokens := counts.cachedTokens }, ?_, h.snoc ?_ ?_ ?_ ?_⟩
    · rw [reduceEvent_usage s htype hvalue, hcounts]
      rfl
    · simp [textOf, htype]
    · simp [isErrorEvent, htype]
    · simp [threadOf, htype]
    · simp [hfound, hcounts]
  | _ =>
    refine ⟨s, by simp [reduceEvent, htype, hvalue], h.snoc ?_ ?_ ?_ ?_⟩ <;>
      simp [textOf, threadOf, usageOf, isErrorEvent, htype, hvalue]

/-- **One event**: where its usage object, if it has one, can be converted,
it is reduced and the variables carry one event more. -/
theorem reduceEvent_spec {strict : Bool} {events : List (List (PyStr × PyValue F))}
    {event : List (PyStr × PyValue F)} {s : Reduction} (h : Carries strict events s)
    (husage : ∀ usage, usageOf event = some usage → ∃ counts, countsOf strict usage = .ok counts) :
    ∃ s', reduceEvent strict event s = .ok s' ∧ Carries strict (events ++ [event]) s' := by
  cases hitem : (get event "type").isStr "item.completed" with
  | true => exact reduceEvent_item h (isStr_iff.mp hitem)
  | false =>
    cases hturn : (get event "type").isStr "turn.completed" with
    | true => exact reduceEvent_turn h (isStr_iff.mp hturn) husage
    | false =>
      cases hthread : (get event "type").isStr "thread.started" with
      | true => exact reduceEvent_thread h (isStr_iff.mp hthread)
      | false =>
        cases herror : isErrorEvent event with
        | true => exact reduceEvent_error h herror
        | false =>
          -- an event of another type
          have hnot : (get event "type").isStr "error" = false ∧
              (get event "type").isStr "turn.failed" = false := by
            simpa [isErrorEvent] using herror
          refine ⟨s, ?_, h.snoc ?_ ?_ ?_ ?_⟩
          · simp [reduceEvent, hitem, hturn, hthread, hnot]
          · simp [textOf, hitem]
          · simp [herror]
          · simp [threadOf, hthread]
          · simp [usageOf, hturn]

/-- A usage object that cannot be converted raises. -/
theorem reduceEvent_raises {strict : Bool} {event usage : List (PyStr × PyValue F)} (s : Reduction)
    (husage : usageOf event = some usage) {e : PyException} (he : countsOf strict usage = .error e) :
    reduceEvent strict event s = .error e := by
  simp only [usageOf] at husage
  split at husage
  · next htype =>
    cases hvalue : get event "usage" with
    | obj items =>
      rw [hvalue] at husage
      cases husage
      rw [reduceEvent_usage s (isStr_iff.mp htype) hvalue, he]
      rfl
    | _ => simp [hvalue] at husage
  · cases husage

/-! ## 5. The lines -/

variable {limits : Limits} {strict : Bool}

/-- A piece that is no event is passed over, unless it nests too deeply. -/
theorem reduceLine_none {piece : List Char} (s : Reduction) (h : pieceEvent F limits piece = none)
    (hshallow : strip piece ≠ [] →
      (pyLoads limits (strip piece) : Except LoadError (PyValue F)) ≠ .error .recursion) :
    reduceLine (F := F) limits strict piece s = .ok s := by
  by_cases hblank : strip piece = []
  · simp [reduceLine, hblank]
  · have hshallow := hshallow hblank
    simp only [pieceEvent, hblank, if_false] at h
    simp only [reduceLine, hblank, if_false]
    cases hload : (pyLoads limits (strip piece) : Except LoadError (PyValue F)) with
    | error e =>
      cases e with
      | recursion => exact absurd hload hshallow
      | _ => rfl
    | ok value =>
      cases value with
      | obj event => simp [hload] at h
      | _ => rfl

theorem reduceLine_some {piece : List Char} {event : List (PyStr × PyValue F)} (s : Reduction)
    (h : pieceEvent F limits piece = some event) :
    reduceLine (F := F) limits strict piece s = reduceEvent strict event s := by
  by_cases hblank : strip piece = []
  · simp [pieceEvent, hblank] at h
  · simp only [pieceEvent, hblank, if_false] at h
    simp only [reduceLine, hblank, if_false]
    cases hload : (pyLoads limits (strip piece) : Except LoadError (PyValue F)) with
    | error e => simp [hload] at h
    | ok value =>
      cases value with
      | obj items =>
        rw [hload] at h
        cases h
        rfl
      | _ => simp [hload] at h

/-- Where nothing raises, the pieces are reduced one by one and the
variables carry their events. -/
theorem reduceLines_ok {pieces : List (List Char)}
    (hshallow : ∀ piece ∈ pieces, strip piece ≠ [] →
      (pyLoads limits (strip piece) : Except LoadError (PyValue F)) ≠ .error .recursion)
    (hfinite : ∀ event ∈ pieces.filterMap (pieceEvent F limits), ∀ usage,
      usageOf event = some usage → ∃ counts, countsOf strict usage = .ok counts)
    {events : List (List (PyStr × PyValue F))} {s : Reduction} (h : Carries strict events s) :
    ∃ s', reduceLines F limits strict pieces s = .ok s' ∧
      Carries strict (events ++ pieces.filterMap (pieceEvent F limits)) s' := by
  induction pieces generalizing events s with
  | nil => exact ⟨s, rfl, by simpa using h⟩
  | cons piece pieces ih =>
    have hrest := ih fun other hmem => hshallow other (List.mem_cons_of_mem piece hmem)
    cases hevent : pieceEvent F limits piece with
    | none =>
      rw [List.filterMap_cons_none hevent] at hfinite ⊢
      obtain ⟨s', hrun, hcarries⟩ := hrest hfinite h
      refine ⟨s', ?_, hcarries⟩
      rw [reduceLines, reduceLine_none s hevent (hshallow piece List.mem_cons_self)]
      exact hrun
    | some event =>
      rw [List.filterMap_cons_some hevent] at hfinite ⊢
      obtain ⟨s₁, hstep, hcarries₁⟩ := reduceEvent_spec h (hfinite event List.mem_cons_self)
      obtain ⟨s', hrun, hcarries⟩ :=
        hrest (fun other hmem => hfinite other (List.mem_cons_of_mem event hmem)) hcarries₁
      refine ⟨s', ?_, by simpa using hcarries⟩
      rw [reduceLines, reduceLine_some s hevent, hstep]
      exact hrun

/-- One piece that raises ends the reduction. -/
theorem reduceLines_raises {pieces : List (List Char)} {piece : List Char} (hmem : piece ∈ pieces)
    (hraises : ∀ s, ∃ e, reduceLine (F := F) limits strict piece s = .error e) (s : Reduction) :
    ∃ e, reduceLines F limits strict pieces s = .error e := by
  induction pieces generalizing s with
  | nil => cases hmem
  | cons first pieces ih =>
    cases hfirst : reduceLine (F := F) limits strict first s with
    | error e =>
      rw [reduceLines, hfirst]
      exact ⟨e, rfl⟩
    | ok s' =>
      obtain rfl | hmem := List.mem_cons.mp hmem
      · obtain ⟨e, he⟩ := hraises s
        rw [he] at hfirst
        cases hfirst
      · obtain ⟨e, he⟩ := ih hmem s'
        rw [reduceLines, hfirst]
        exact ⟨e, he⟩

/-- Where nothing raises, the result is what the pieces carry. -/
theorem parseCodexJsonlStream_ok {stdout : List Char}
    (h : Convertible F limits strict stdout) :
    ∃ r, parseCodexJsonlStream F limits strict stdout = .ok r ∧
      Reduces strict (pieceEvents F limits stdout) r := by
  obtain ⟨s, hrun, hcarries⟩ := reduceLines_ok h.shallow h.finite (carries_start strict)
  refine ⟨s.result, ?_, hcarries.reduces⟩
  rw [parseCodexJsonlStream, hrun]
  rfl

theorem reduceLine_deep {piece : List Char} (hblank : strip piece ≠ [])
    (hdeep : (pyLoads limits (strip piece) : Except LoadError (PyValue F)) = .error .recursion)
    (s : Reduction) : reduceLine (F := F) limits strict piece s = .error .recursionError := by
  simp [reduceLine, hblank, hdeep]

/-- A result means that nothing raised. -/
theorem convertible_of_ok {stdout : List Char} {r : CodexStreamResult}
    (h : parseCodexJsonlStream F limits strict stdout = .ok r) :
    Convertible F limits strict stdout := by
  have hnone : ¬ ∃ piece ∈ splitLines stdout,
      ∀ s, ∃ e, reduceLine (F := F) limits strict piece s = .error e := by
    intro hsome
    obtain ⟨piece, hmem, hraises⟩ := hsome
    obtain ⟨e, he⟩ := reduceLines_raises hmem hraises .start
    rw [parseCodexJsonlStream, he] at h
    cases h
  constructor
  · intro piece hmem hblank hdeep
    exact hnone ⟨piece, hmem, fun s => ⟨_, reduceLine_deep hblank hdeep s⟩⟩
  · intro event hevent usage husage
    cases hcounts : countsOf strict usage with
    | ok counts => exact ⟨counts, rfl⟩
    | error e =>
      obtain ⟨piece, hmem, hpiece⟩ := List.mem_filterMap.mp hevent
      refine absurd ⟨piece, hmem, fun s => ⟨e, ?_⟩⟩ hnone
      rw [reduceLine_some s hpiece]
      exact reduceEvent_raises s husage hcounts

/-! ## 6. The events that are found -/

theorem Reduces.congr {events events' : List (List (PyStr × PyValue F))} {r : CodexStreamResult}
    (h : Reduces strict events r) (hsame : SameContent strict events events') :
    Reduces strict events' r :=
  ⟨h.finalText.trans hsame.texts, h.isError.trans hsame.errors, h.threadId.trans hsame.threads,
    hsame.usages.symm.trans h.tokens⟩

theorem Reduces.same {events events' : List (List (PyStr × PyValue F))} {r : CodexStreamResult}
    (h : Reduces strict events r) (h' : Reduces strict events' r) :
    SameContent strict events events' :=
  ⟨h.finalText.symm.trans h'.finalText, h.isError.symm.trans h'.isError,
    h.threadId.symm.trans h'.threadId, h.tokens.trans h'.tokens.symm⟩

/-- The stream of a line without other line breaks is that line. -/
theorem pieceEvents_line {line : List Char} (h : Plain F limits line) :
    (splitLines (line ++ ['\n'])).filterMap (pieceEvent F limits) = (lineEvent F line).toList := by
  have hpiece : pieceEvent F limits (line ++ ['\n']) = lineEvent F line := by
    by_cases hblank : line = []
    · subst hblank
      rfl
    · rw [pieceEvent, h.stripped, if_neg hblank, h.within]
      rfl
  rw [splitLines_plain h.oneLine]
  cases hevent : lineEvent F line with
  | none => simp [hpiece, hevent]
  | some event => simp [hpiece, hevent]

/-- Of plain lines, what is found is what was written. -/
theorem pieceEvents_plain {lines : List (List Char)} (h : ∀ line ∈ lines, Plain F limits line) :
    pieceEvents F limits (stdoutOf lines) = lineEvents F lines := by
  rw [pieceEvents, stdoutOf, splitLines_flatMap]
  induction lines with
  | nil => rfl
  | cons line lines ih =>
    have hline := pieceEvents_line (h line List.mem_cons_self)
    have hrest := ih fun other hmem => h other (List.mem_cons_of_mem line hmem)
    rw [List.flatMap_cons, List.filterMap_append, hline, hrest, lineEvents, lineEvents]
    cases hevent : lineEvent F line with
    | none => rw [List.filterMap_cons_none hevent]; rfl
    | some event => rw [List.filterMap_cons_some hevent]; rfl

theorem faithful_iff (lines : List (List Char)) :
    Faithful F limits strict lines ↔ Convertible F limits strict (stdoutOf lines) ∧
      SameContent strict (pieceEvents F limits (stdoutOf lines)) (lineEvents F lines) := by
  constructor
  · intro h
    obtain ⟨r, hr, hlines⟩ := h
    have hconvertible := convertible_of_ok hr
    obtain ⟨r', hr', hpieces⟩ := parseCodexJsonlStream_ok hconvertible
    rw [hr] at hr'
    cases hr'
    exact ⟨hconvertible, hpieces.same hlines⟩
  · intro h
    obtain ⟨hconvertible, hsame⟩ := h
    obtain ⟨r, hr, hpieces⟩ := parseCodexJsonlStream_ok hconvertible
    exact ⟨r, hr, hpieces.congr hsame⟩

/-- **The stream**: the output is reduced to what its lines carry exactly
when nothing in it raises and the pieces between line breaks of every kind
carry the same as the lines, which is so where every line is plain. -/
theorem parse_codex_jsonl_stream_iff (lines : List (List Char)) :
    (Faithful F limits strict lines ↔ Convertible F limits strict (stdoutOf lines) ∧
        SameContent strict (pieceEvents F limits (stdoutOf lines)) (lineEvents F lines)) ∧
      ((∀ line ∈ lines, Plain F limits line) →
        SameContent strict (pieceEvents F limits (stdoutOf lines)) (lineEvents F lines)) := by
  refine ⟨faithful_iff lines, ?_⟩
  intro hplain
  rw [pieceEvents_plain hplain]
  exact ⟨rfl, Iff.rfl, rfl, rfl⟩

/-! ## 7. A line separator in a message -/

/-- An error event whose message has U+2028 in it. -/
def separatedError : List Char :=
  "\x7b\"type\": \"error\", \"message\": \"no\u2028quota\"\x7d".toList

/-- The failed turn is reported as a success without an answer. -/
theorem failure_reported_as_success :
    parseCodexJsonlStream FloatText ⟨1000, 4300⟩ false (stdoutOf [separatedError])
        = .ok ⟨[], none, none, none, false, none, none⟩ ∧
      (lineEvents FloatText [separatedError]).any isErrorEvent = true ∧
      ¬ Faithful FloatText ⟨1000, 4300⟩ false [separatedError] := by
  have hresult : parseCodexJsonlStream FloatText ⟨1000, 4300⟩ false (stdoutOf [separatedError])
      = .ok ⟨[], none, none, none, false, none, none⟩ := by decide +kernel
  have hwritten : (lineEvents FloatText [separatedError]).any isErrorEvent = true := by
    decide +kernel
  refine ⟨hresult, hwritten, ?_⟩
  intro h
  obtain ⟨r, hr, hreduces⟩ := h
  rw [hresult] at hr
  cases hr
  have herror := hreduces.isError.mpr (List.any_eq_true.mp hwritten)
  cases herror

end MultiForge.Invoker
