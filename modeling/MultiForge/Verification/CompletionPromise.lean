/-
MultiForge.Verification.CompletionPromise — the completion promise at Stop.

At every Stop, `_run_verification_check` looks for a configured line, the
promise, in the last assistant message of the transcript and blocks the
Stop while it is missing. `_get_last_assistant_text_for_verification`
reads the transcript line by line and passes over what is not JSON. A line
that is JSON but no object, or that `json.loads` gives up on for another
reason than its syntax, raises out of the loop, and the caller allows the
Stop when the transcript cannot be read. `Readable` names the lines for
which this does not happen, and `verification_iff` shows that they are
the ones for which the check does what it is for.

`diagnostic` stands for `_bounded_diagnostic` and `pyRepr` for the `repr`
of a string; both only shape messages. `elapsedMinutes` is the time since a
recorded start, or the exception that `parse_iso` raises on it.
-/
import Mathlib.Data.List.Lex
import Mathlib.Algebra.Order.Ring.Unbundled.Rat
import MultiForge.Json.PyValue
import MultiForge.Lib.Latest
import MultiForge.Lib.Utf8

namespace MultiForge.Verification

open PyValue

variable {F : Type} [PyFloatText F] (limits : Limits)

/-! ## 1. The last assistant message -/

/-- What is raised while a transcript is read. -/
inductive PyException where
  | fileNotFoundError
  | osError
  | unicodeDecodeError
  | attributeError
  | valueError
  | recursionError
  deriving DecidableEq, Repr

/-- `type(exc).__name__` -/
def PyException.typeName : PyException → String
  | .fileNotFoundError => "FileNotFoundError"
  | .osError => "OSError"
  | .unicodeDecodeError => "UnicodeDecodeError"
  | .attributeError => "AttributeError"
  | .valueError => "ValueError"
  | .recursionError => "RecursionError"

/-- `joined.endswith(("\n", "\r"))` -/
def endsLine (s : PyStr) : Bool := s.getLast? = some 0x0a || s.getLast? = some 0x0d

/-- `text.startswith(("\n", "\r"))` -/
def startsLine (s : PyStr) : Bool := s.head? = some 0x0a || s.head? = some 0x0d

/-- `_join_assistant_text_blocks` -/
def joinAssistantTextBlocks : List PyStr → PyStr
  | [] => []
  | text :: texts => texts.foldl (fun joined text =>
      (if !endsLine joined && !startsLine text then joined ++ [0x0a] else joined) ++ text) text

/-- The text of a content block. -/
def blockText : PyValue F → Option PyStr
  | .obj block => match get block "text" with
      | .str t => if t = [] then none else some t
      | _ => none
  | _ => none

/-- `entry.get("timestamp", "")`, or `""` where that is no string. -/
def entryTimestamp (entry : List (PyStr × PyValue F)) : PyStr :=
  match getD entry "timestamp" (.str []) with
  | .str ts => ts
  | _ => []

/-- `latest_text` and `latest_ts` -/
structure Latest where
  text : Option PyStr
  ts : PyStr
  deriving DecidableEq, Repr

/-- What the two formats do with the content of a message. -/
def takeContent (entry message : List (PyStr × PyValue F)) (latest : Latest) : Latest :=
  match get message "content" with
  | .list content =>
      let texts := content.filterMap blockText
      if texts = [] then latest
      else if latest.ts ≤ entryTimestamp entry then
        ⟨some (joinAssistantTextBlocks texts), entryTimestamp entry⟩
      else latest
  | _ => latest

/-- One entry of the transcript. -/
def takeEntry (entry : List (PyStr × PyValue F)) (latest : Latest) : Latest :=
  match get entry "message" with
  | .obj message =>
      if (get message "role").isStr "assistant" then takeContent entry message latest
      else if (get entry "type").isStr "assistant" then takeContent entry message latest
      else latest
  | _ => latest

/-- One line of the transcript. -/
def takeLine (line : List Char) (latest : Latest) : Except PyException Latest :=
  let line := Lines.strip line
  if line = [] then .ok latest
  else match (pyLoads limits line : Except LoadError (PyValue F)) with
    | .error .decode => .ok latest
    | .error .digits => .error .valueError
    | .error .recursion => .error .recursionError
    | .ok (.obj entry) => .ok (takeEntry entry latest)
    | .ok _ => .error .attributeError

/-- The loop over the lines. -/
def takeLines : List (List Char) → Latest → Except PyException Latest
  | [], latest => .ok latest
  | line :: lines, latest => do takeLines lines (← takeLine (F := F) limits line latest)

/-- A transcript file: absent, failing to open or read, or its bytes. -/
inductive TranscriptFile where
  | missing
  | failing
  | bytes (content : List UInt8)
  deriving DecidableEq, Repr

/-- The text of the file, as text mode reads it. -/
def TranscriptFile.text : TranscriptFile → Except PyException (List Char)
  | .missing => .error .fileNotFoundError
  | .failing => .error .osError
  | .bytes content => match Utf8.decode content with
      | some text => .ok text
      | none => .error .unicodeDecodeError

/-- `_get_last_assistant_text_for_verification` with `raise_on_error` -/
def getLastAssistantText (F : Type) [PyFloatText F] (limits : Limits) (file : TranscriptFile) :
    Except PyException (Option PyStr) :=
  match file with
  | .missing => .ok none
  | _ => do
      let text ← file.text
      let latest ← takeLines (F := F) limits (Lines.readlines text) ⟨none, []⟩
      return latest.text

/-! ## 2. The check -/

/-- The fields of `VerificationConfig` that the check reads. -/
structure VerificationConfig where
  type : PyStr
  promise : Option PyStr
  maxIterations : Int
  maxMinutes : Option Int
  bypass : Bool
  onIncomplete : PyStr
  reInjectPrompt : Option PyStr
  deriving DecidableEq, Repr

inductive Status where
  | passed
  | incomplete
  | misconfigured
  | infrastructureError
  deriving DecidableEq, Repr

/-- The text of a status, as it is recorded. -/
def Status.text : Status → String
  | .passed => "passed"
  | .incomplete => "incomplete"
  | .misconfigured => "misconfigured"
  | .infrastructureError => "infrastructure_error"

structure Outcome where
  status : Status
  detail : Option PyStr
  deriving DecidableEq, Repr

variable (diagnostic pyRepr : PyStr → PyStr)

/-- `line.strip() == promise_stripped` for a line of the text. -/
def hasPromiseLine (promise text : PyStr) : Bool :=
  (PyStr.splitLines text).any fun line => PyStr.strip line = PyStr.strip promise

/-- `_check_completion_promise` -/
def checkCompletionPromise (F : Type) [PyFloatText F] (limits : Limits)
    (diagnostic : PyStr → PyStr) (promise : Option PyStr) (file : TranscriptFile) : Outcome :=
  match promise with
  | none => ⟨.misconfigured, some (py "completion_promise requires a non-empty promise")⟩
  | some promise =>
      if PyStr.strip promise = [] then
        ⟨.misconfigured, some (py "completion_promise requires a non-empty promise")⟩
      else if 0x0a ∈ promise ∨ 0x0d ∈ promise then
        ⟨.misconfigured, some (py "completion_promise must be a single line")⟩
      else if file = .missing then
        ⟨.infrastructureError, some (py "verification transcript is unavailable")⟩
      else match getLastAssistantText F limits file with
        | .error e =>
            ⟨.infrastructureError,
              some (py ("verification transcript could not be read (" ++ e.typeName ++ ")"))⟩
        | .ok text =>
            if text.any (hasPromiseLine promise) then ⟨.passed, none⟩
            else ⟨.incomplete, some (diagnostic (py "Promise not found: " ++ promise))⟩

/-- `_legacy_config_outcome` -/
def legacyConfigOutcome (ver : VerificationConfig) : Option Outcome :=
  if ver.type ∉ [py "completion_promise", py "test_suite"] then
    some ⟨.misconfigured,
      some (diagnostic (py "Unknown legacy verification.type " ++ pyRepr ver.type))⟩
  else if ver.onIncomplete ∉ [py "block", py "warn", py "allow"] then
    some ⟨.misconfigured,
      some (diagnostic (py "Unknown legacy verification.on_incomplete " ++ pyRepr ver.onIncomplete))⟩
  else none

/-- The parts of `VerificationConfirmed` that the check reads. -/
structure VerificationConfirmed where
  iterations : Int
  startedAt : Option PyStr
  deriving DecidableEq, Repr

/-- What a Stop meets besides its configuration: the transcript, what
earlier Stops recorded, whether the session manifest can be updated, and
what the test suite says. -/
structure Stop where
  file : TranscriptFile
  confirmed : Option VerificationConfirmed
  persists : Bool
  testSuite : Outcome

/-- What a Stop is told. -/
inductive Decision where
  | allow
  | block (message : PyStr)
  deriving DecidableEq, Repr

/-- One `_persist_verification`. -/
structure Record where
  result : String
  error : Option PyStr
  incrementIterations : Bool
  setStartedAt : Bool
  autoBypass : Bool
  deriving DecidableEq, Repr

/-- What a check decides and what it asks to have recorded. -/
structure Report where
  decision : Decision
  record : Option Record
  deriving DecidableEq, Repr

/-- `_report_fail_open` -/
def reportFailOpen (outcome : Outcome) : Report :=
  ⟨.allow, some ⟨outcome.status.text, outcome.detail, false, false, false⟩⟩

/-- `"\n"` between the lines of a message. -/
def message (lines : List PyStr) : PyStr := [0x0a].intercalate lines

/-- The text that goes back to the assistant. -/
def blockMessage (diagnostic : PyStr → PyStr) (ver : VerificationConfig) (checkError : PyStr) :
    PyStr :=
  let hatches := [py "Escape hatches:", py "  - Type: %cancel-verification",
    py "  - Or run: forge session set verification.bypass true"]
  match ver.reInjectPrompt with
  | some (c :: cs) => c :: cs
  | _ =>
      if ver.type = py "test_suite" then
        message ([py "Verification incomplete: tests did not pass.",
          py "Error: " ++ checkError, [],
          py "Fix the failing tests and try again."] ++ hatches)
      else
        message ([py "Verification incomplete: expected completion promise not found.",
          py "Expected: " ++ diagnostic (ver.promise.getD []),
          py "(must appear on its own line in the assistant's response)", [],
          py "Continue working and output the completion promise when done."] ++ hatches)

/-- This Stop is past the iteration limit. -/
def exceedsIterations (ver : VerificationConfig) (stop : Stop) : Prop :=
  ver.maxIterations < (stop.confirmed.map (·.iterations)).getD 0 + 1

instance (ver : VerificationConfig) (stop : Stop) : Decidable (exceedsIterations ver stop) :=
  inferInstanceAs (Decidable (_ < _))

/-- Whether this Stop is past the time limit; the name of an exception
where the recorded start cannot be read. -/
def exceedsMinutes (elapsedMinutes : PyStr → Except String ℚ) (ver : VerificationConfig) (stop : Stop) :
    Except String Bool :=
  match ver.maxMinutes, stop.confirmed.bind (·.startedAt) with
  | some limit, some startedAt => (elapsedMinutes startedAt).map fun e => (limit : ℚ) < e
  | _, _ => .ok false

/-- The rest of the check, for an outcome that is incomplete. -/
def reportIncomplete (diagnostic : PyStr → PyStr) (elapsedMinutes : PyStr → Except String ℚ)
    (ver : VerificationConfig) (stop : Stop) (detail : Option PyStr) : Report :=
  let checkError := match detail with
    | some (c :: cs) => c :: cs
    | _ => py "verification did not pass"
  if ver.onIncomplete = py "warn" then
    ⟨.allow, some ⟨"incomplete", some checkError, false, false, false⟩⟩
  else if exceedsIterations ver stop then
    ⟨.allow, some ⟨"max_iterations",
      some (py ("Exceeded " ++ toString ver.maxIterations ++ " iterations")), false, false, true⟩⟩
  else match exceedsMinutes elapsedMinutes ver stop with
    | .error e => reportFailOpen
        ⟨.infrastructureError,
          some (py ("verification timing state is unreadable (" ++ e ++ ")"))⟩
    | .ok true =>
        ⟨.allow, some ⟨"max_minutes",
          some (py ("Exceeded " ++ toString (ver.maxMinutes.getD 0) ++ " minutes")),
          false, false, true⟩⟩
    | .ok false =>
        let record := some ⟨"incomplete", some checkError, true, true, false⟩
        if stop.persists then ⟨.block (blockMessage diagnostic ver checkError), record⟩
        else ⟨.allow, record⟩

/-- `_run_verification_check`, for an effective intent with this
configuration -/
def runVerificationCheck (F : Type) [PyFloatText F] (limits : Limits)
    (diagnostic pyRepr : PyStr → PyStr) (elapsedMinutes : PyStr → Except String ℚ)
    (ver : VerificationConfig) (stop : Stop) : Report :=
  match legacyConfigOutcome diagnostic pyRepr ver with
  | some outcome => reportFailOpen outcome
  | none =>
      if ver.bypass || ver.onIncomplete = py "allow" then ⟨.allow, none⟩
      else
        let outcome := if ver.type = py "test_suite" then stop.testSuite
          else checkCompletionPromise F limits diagnostic ver.promise stop.file
        match outcome.status with
        | .passed => ⟨.allow, some ⟨"passed", none, false, false, false⟩⟩
        | .misconfigured => reportFailOpen outcome
        | .infrastructureError => reportFailOpen outcome
        | .incomplete => reportIncomplete diagnostic elapsedMinutes ver stop outcome.detail

/-! ## 3. What the check is for -/

/-- The joined text and the timestamp of an assistant entry that has
text. -/
def assistantText (entry : List (PyStr × PyValue F)) : Option (PyStr × PyStr) :=
  match get entry "message" with
  | .obj message =>
      if (get message "role").isStr "assistant" || (get entry "type").isStr "assistant" then
        match get message "content" with
        | .list content =>
            let texts := content.filterMap blockText
            if texts = [] then none
            else some (entryTimestamp entry, joinAssistantTextBlocks texts)
        | _ => none
      else none
  | _ => none

/-- The object of a line, if it is the JSON text of one. -/
def entryOf (F : Type) [PyFloatText F] (limits : Limits) (line : List Char) :
    Option (List (PyStr × PyValue F)) :=
  if Lines.strip line = [] then none
  else match pyLoads limits (Lines.strip line) with
    | .ok (.obj entry) => some entry
    | _ => none

/-- The assistant messages of a transcript, in the order of the file. -/
def assistantTexts (F : Type) [PyFloatText F] (limits : Limits) (text : List Char) :
    List (PyStr × PyStr) :=
  (Lines.readlines text).filterMap fun line => (entryOf F limits line).bind assistantText

/-- The reader returns the last assistant message of a readable file. -/
def ReadsLast (F : Type) [PyFloatText F] (limits : Limits) (file : TranscriptFile) : Prop :=
  ∀ text, file.text = .ok text → ∃ last, IsLastMax (assistantTexts F limits text) last ∧
    getLastAssistantText F limits file = .ok (last.map Prod.snd)

/-- A completion promise that is configured to block. -/
structure Blocking (ver : VerificationConfig) (promise : PyStr) : Prop where
  type : ver.type = py "completion_promise"
  hasPromise : ver.promise = some promise
  notBlank : PyStr.strip promise ≠ []
  oneLine : ¬ (0x0a ∈ promise ∨ 0x0d ∈ promise)
  onIncomplete : ver.onIncomplete = py "block"
  bypass : ver.bypass = false

/-- A reason to allow a Stop: the last message has the promise as a line,
a limit is reached, or the file cannot be read. -/
def Justified (F : Type) [PyFloatText F] (limits : Limits)
    (elapsedMinutes : PyStr → Except String ℚ) (ver : VerificationConfig) (stop : Stop)
    (promise : PyStr) : Prop :=
  (∃ text last, stop.file.text = .ok text ∧ IsLastMax (assistantTexts F limits text) (some last) ∧
      hasPromiseLine promise last.2 = true)
    ∨ exceedsIterations ver stop ∨ exceedsMinutes elapsedMinutes ver stop = .ok true
    ∨ ∃ e, stop.file.text = .error e

/-- The last assistant message decides. -/
def DecidesByLastMessage (F : Type) [PyFloatText F] (limits : Limits)
    (diagnostic pyRepr : PyStr → PyStr) (elapsedMinutes : PyStr → Except String ℚ)
    (ver : VerificationConfig) (stop : Stop) : Prop :=
  ReadsLast F limits stop.file ∧ ∀ promise, Blocking ver promise →
    (runVerificationCheck F limits diagnostic pyRepr elapsedMinutes ver stop).decision = .allow →
    Justified F limits elapsedMinutes ver stop promise

/-- A line that the reader passes over or takes: blank, not JSON, or an
object. -/
def Readable (F : Type) [PyFloatText F] (limits : Limits) (line : List Char) : Prop :=
  Lines.strip line = [] ∨
    (pyLoads limits (Lines.strip line) : Except LoadError (PyValue F)) = .error .decode ∨
    ∃ entry : List (PyStr × PyValue F), pyLoads limits (Lines.strip line) = .ok (.obj entry)

/-- A blocked Stop can be recorded, and so can be the time it began. -/
def StateWorks (elapsedMinutes : PyStr → Except String ℚ) (ver : VerificationConfig)
    (stop : Stop) : Prop :=
  stop.persists = true ∧ ∃ late, exceedsMinutes elapsedMinutes ver stop = .ok late

/-! ## 4. Reading the lines -/

/-- An assistant message replaces one that is not later. -/
def Latest.take (latest : Latest) : Option (PyStr × PyStr) → Latest
  | none => latest
  | some (ts, text) => if latest.ts ≤ ts then ⟨some text, ts⟩ else latest

omit [PyFloatText F] in
theorem takeContent_eq (entry message : List (PyStr × PyValue F)) (latest : Latest) :
    takeContent entry message latest = latest.take (match get message "content" with
      | .list content =>
          if content.filterMap blockText = [] then none
          else some (entryTimestamp entry, joinAssistantTextBlocks (content.filterMap blockText))
      | _ => none) := by
  cases hcontent : get message "content" with
  | list content =>
    by_cases htexts : content.filterMap blockText = []
    · simp [takeContent, hcontent, htexts, Latest.take]
    · simp [takeContent, hcontent, htexts, Latest.take]
  | _ => simp [takeContent, hcontent, Latest.take]

omit [PyFloatText F] in
/-- Both formats take the message that the entry stands for. -/
theorem takeEntry_eq (entry : List (PyStr × PyValue F)) (latest : Latest) :
    takeEntry entry latest = latest.take (assistantText entry) := by
  cases hmessage : get entry "message" with
  | obj message =>
    cases hrole : (get message "role").isStr "assistant" <;>
      cases htype : (get entry "type").isStr "assistant" <;>
      simp [takeEntry, assistantText, hmessage, hrole, htype, takeContent_eq, Latest.take]
  | _ => simp [takeEntry, assistantText, hmessage, Latest.take]

variable {limits}

theorem takeLine_readable {line : List Char} (h : Readable F limits line) (latest : Latest) :
    takeLine (F := F) limits line latest
      = .ok (latest.take ((entryOf F limits line).bind assistantText)) := by
  obtain hblank | hdecode | ⟨entry, hentry⟩ := h
  · simp [takeLine, entryOf, hblank, Latest.take]
  · simp [takeLine, entryOf, hdecode, Latest.take]
  · by_cases hblank : Lines.strip line = []
    · simp [takeLine, entryOf, hblank, Latest.take]
    · simp [takeLine, entryOf, hblank, hentry, takeEntry_eq]

theorem takeLine_odd {line : List Char} (h : ¬ Readable F limits line) (latest : Latest) :
    ∃ e, takeLine (F := F) limits line latest = .error e := by
  simp only [Readable, not_or, not_exists] at h
  obtain ⟨hblank, hdecode, hobj⟩ := h
  simp only [takeLine, hblank, if_false]
  cases hload : (pyLoads limits (Lines.strip line) : Except LoadError (PyValue F)) with
  | error e =>
    cases e with
    | decode => exact absurd hload hdecode
    | digits => exact ⟨_, rfl⟩
    | recursion => exact ⟨_, rfl⟩
  | ok value =>
    cases value with
    | obj entry => exact absurd hload (hobj entry)
    | _ => exact ⟨_, rfl⟩

/-- `latest` is what the messages that have been read leave. -/
def Holds (seen : List (PyStr × PyStr)) (latest : Latest) : Prop :=
  match latest.text with
  | none => seen = [] ∧ latest.ts = []
  | some text => IsLastMax seen (some (latest.ts, text))

theorem Holds.take {seen : List (PyStr × PyStr)} {latest : Latest} (h : Holds seen latest)
    (found : Option (PyStr × PyStr)) : Holds (seen ++ found.toList) (latest.take found) := by
  cases found with
  | none => simpa [Latest.take] using h
  | some m =>
    obtain ⟨text, ts⟩ := latest
    cases text with
    | none =>
      obtain ⟨rfl, rfl⟩ := h
      have hle : [] ≤ m.1 := not_lt.mp (List.not_lt_nil m.1)
      simp [Latest.take, Holds, hle, isLastMax_singleton]
    | some text =>
      have hsnoc := IsLastMax.snoc (e := m) h
      by_cases hle : ts ≤ m.1
      · simpa [Latest.take, Holds, hle] using hsnoc
      · simpa [Latest.take, Holds, hle] using hsnoc

theorem Holds.isLastMax {seen : List (PyStr × PyStr)} {latest : Latest} (h : Holds seen latest) :
    ∃ last, IsLastMax seen last ∧ latest.text = last.map Prod.snd := by
  obtain ⟨text, ts⟩ := latest
  cases text with
  | none => exact ⟨none, h.1, rfl⟩
  | some text => exact ⟨some (ts, text), h, rfl⟩

theorem takeLines_readable {lines : List (List Char)} (h : ∀ line ∈ lines, Readable F limits line)
    {seen : List (PyStr × PyStr)} {latest : Latest} (hseen : Holds seen latest) :
    ∃ latest', takeLines (F := F) limits lines latest = .ok latest' ∧
      Holds (seen ++ lines.filterMap fun line => (entryOf F limits line).bind assistantText)
        latest' := by
  induction lines generalizing seen latest with
  | nil => exact ⟨latest, rfl, by simpa using hseen⟩
  | cons line lines ih =>
    have hline := takeLine_readable (h line List.mem_cons_self) latest
    have hrest : ∀ other ∈ lines, Readable F limits other := by
      intro other hmem
      exact h other (List.mem_cons_of_mem line hmem)
    obtain ⟨latest', hrun, hholds⟩ :=
      ih hrest (hseen.take ((entryOf F limits line).bind assistantText))
    refine ⟨latest', ?_, ?_⟩
    · rw [takeLines, hline]
      exact hrun
    · rw [List.append_assoc] at hholds
      cases hfound : (entryOf F limits line).bind assistantText with
      | none => simpa [hfound] using hholds
      | some m => simpa [hfound] using hholds

/-- One odd line ends the reading, whatever the others hold. -/
theorem takeLines_odd {lines : List (List Char)} (h : ∃ line ∈ lines, ¬ Readable F limits line)
    (latest : Latest) : ∃ e, takeLines (F := F) limits lines latest = .error e := by
  induction lines generalizing latest with
  | nil => simp at h
  | cons line lines ih =>
    by_cases hline : Readable F limits line
    · have hrest : ∃ other ∈ lines, ¬ Readable F limits other := by
        obtain ⟨odd, hmem, hodd⟩ := h
        obtain rfl | hmem := List.mem_cons.mp hmem
        · exact absurd hline hodd
        · exact ⟨odd, hmem, hodd⟩
      rw [takeLines, takeLine_readable hline]
      exact ih hrest _
    · obtain ⟨e, he⟩ := takeLine_odd hline latest
      rw [takeLines, he]
      exact ⟨e, rfl⟩

/-! ## 5. The last message -/

theorem getLastAssistantText_of_text {file : TranscriptFile} {text : List Char}
    (h : file.text = .ok text) : getLastAssistantText F limits file = (do
      let latest ← takeLines (F := F) limits (Lines.readlines text) ⟨none, []⟩
      return latest.text) := by
  cases file with
  | missing => cases h
  | failing => cases h
  | bytes content =>
    simp only [getLastAssistantText, h]
    rfl

theorem getLastAssistantText_of_error {file : TranscriptFile} {e : PyException}
    (h : file.text = .error e) (hfile : file ≠ .missing) :
    getLastAssistantText F limits file = .error e := by
  cases file with
  | missing => exact absurd rfl hfile
  | failing =>
    cases h
    rfl
  | bytes content =>
    simp only [getLastAssistantText, h]
    rfl

theorem readsLast_of_readable {file : TranscriptFile}
    (h : ∀ text, file.text = .ok text → ∀ line ∈ Lines.readlines text, Readable F limits line) :
    ReadsLast F limits file := by
  intro text htext
  have hstart : Holds [] ⟨none, []⟩ := ⟨rfl, rfl⟩
  obtain ⟨latest, hrun, hholds⟩ := takeLines_readable (h text htext) hstart
  obtain ⟨last, hlast, hlatest⟩ := hholds.isLastMax
  refine ⟨last, hlast, ?_⟩
  rw [getLastAssistantText_of_text htext, hrun, ← hlatest]
  rfl

/-- The reader returns the last message exactly of the files whose lines
are all readable. -/
theorem readsLast_iff {file : TranscriptFile} : ReadsLast F limits file ↔
    ∀ text, file.text = .ok text → ∀ line ∈ Lines.readlines text, Readable F limits line := by
  constructor
  · intro h text htext
    by_contra hodd
    have hodd : ∃ line ∈ Lines.readlines text, ¬ Readable F limits line := by
      simpa using hodd
    obtain ⟨last, -, hread⟩ := h text htext
    obtain ⟨e, he⟩ := takeLines_odd hodd ⟨none, []⟩
    rw [getLastAssistantText_of_text htext, he] at hread
    cases hread
  · exact readsLast_of_readable

/-! ## 6. The decision -/

section

variable {diagnostic pyRepr : PyStr → PyStr} {elapsedMinutes : PyStr → Except String ℚ}
  {ver : VerificationConfig} {stop : Stop} {promise : PyStr}

theorem Blocking.run (h : Blocking ver promise) :
    runVerificationCheck F limits diagnostic pyRepr elapsedMinutes ver stop =
      match (checkCompletionPromise F limits diagnostic (some promise) stop.file).status with
      | .passed => ⟨.allow, some ⟨"passed", none, false, false, false⟩⟩
      | .misconfigured =>
          reportFailOpen (checkCompletionPromise F limits diagnostic (some promise) stop.file)
      | .infrastructureError =>
          reportFailOpen (checkCompletionPromise F limits diagnostic (some promise) stop.file)
      | .incomplete => reportIncomplete diagnostic elapsedMinutes ver stop
          (checkCompletionPromise F limits diagnostic (some promise) stop.file).detail := by
  have hlegacy : legacyConfigOutcome diagnostic pyRepr ver = none := by
    simp [legacyConfigOutcome, h.type, h.onIncomplete]
  have hallow : (ver.bypass || decide (ver.onIncomplete = py "allow")) = false := by
    rw [h.bypass, h.onIncomplete]
    decide
  have htype : ver.type ≠ py "test_suite" := by
    rw [h.type]
    decide
  simp only [runVerificationCheck, hlegacy, hallow, if_neg htype, h.hasPromise]
  rfl

/-- What the check says of a file that was read. -/
theorem Blocking.check (h : Blocking ver promise) {file : TranscriptFile} {text : List Char}
    (htext : file.text = .ok text) {last : Option PyStr}
    (hlast : getLastAssistantText F limits file = .ok last) :
    checkCompletionPromise F limits diagnostic (some promise) file =
      if last.any (hasPromiseLine promise) then ⟨.passed, none⟩
      else ⟨.incomplete, some (diagnostic (py "Promise not found: " ++ promise))⟩ := by
  have hfile : file ≠ .missing := by
    rintro rfl
    cases htext
  simp only [checkCompletionPromise, h.notBlank, h.oneLine, hfile, if_false, hlast]

/-- An incomplete check allows the Stop at a limit or where it cannot be
recorded. -/
theorem Blocking.reportIncomplete_allow (h : Blocking ver promise) (detail : Option PyStr) :
    (reportIncomplete diagnostic elapsedMinutes ver stop detail).decision = .allow ↔
      exceedsIterations ver stop ∨ exceedsMinutes elapsedMinutes ver stop = .ok true ∨
        ¬ StateWorks elapsedMinutes ver stop := by
  have hwarn : ver.onIncomplete ≠ py "warn" := by
    rw [h.onIncomplete]
    decide
  by_cases hiterations : exceedsIterations ver stop
  · simp [reportIncomplete, hwarn, hiterations]
  · cases hminutes : exceedsMinutes elapsedMinutes ver stop with
    | error e => simp [reportIncomplete, hwarn, hiterations, hminutes, reportFailOpen, StateWorks]
    | ok late =>
      cases late <;> cases hpersists : stop.persists <;>
        simp [reportIncomplete, hwarn, hiterations, hminutes, StateWorks, hpersists]

/-- **The check**: the last assistant message is read and decides exactly
when every line of a file that can be read is blank, not JSON or an
object, and a Stop that nothing justifies can be recorded. -/
theorem verification_iff :
    DecidesByLastMessage F limits diagnostic pyRepr elapsedMinutes ver stop ↔
      (∀ text, stop.file.text = .ok text → ∀ line ∈ Lines.readlines text, Readable F limits line) ∧
        ∀ promise, Blocking ver promise →
          StateWorks elapsedMinutes ver stop ∨
            Justified F limits elapsedMinutes ver stop promise := by
  rw [DecidesByLastMessage, readsLast_iff]
  refine and_congr_right ?_
  intro hreadable
  refine forall_congr' ?_
  intro promise
  refine forall_congr' ?_
  intro hblocking
  rw [hblocking.run]
  cases hfile : stop.file.text with
  | error e =>
    have hjustified : Justified F limits elapsedMinutes ver stop promise :=
      .inr (.inr (.inr ⟨e, hfile⟩))
    simp [hjustified]
  | ok text =>
    obtain ⟨last, hlast, hread⟩ := readsLast_of_readable hreadable text hfile
    rw [hblocking.check hfile hread]
    by_cases hfound : (last.map Prod.snd).any (hasPromiseLine promise) = true
    · -- the promise is in the last message
      have hjustified : Justified F limits elapsedMinutes ver stop promise := by
        cases last with
        | none => simp at hfound
        | some m => exact .inl ⟨text, m, hfile, hlast, by simpa using hfound⟩
      simp [hjustified]
    · simp only [hfound, if_false, Bool.false_eq_true]
      rw [hblocking.reportIncomplete_allow]
      constructor
      · intro h
        by_cases hworks : StateWorks elapsedMinutes ver stop
        · exact .inl hworks
        · exact .inr (h (.inr (.inr hworks)))
      · intro h hallow
        obtain hlimit | hlate | hfails := hallow
        · exact .inr (.inl hlimit)
        · exact .inr (.inr (.inl hlate))
        · exact h.resolve_left hfails

end

/-- A promise that blocks at most fifty Stops. -/
def donePromise : VerificationConfig where
  type := py "completion_promise"
  promise := some (py "DONE")
  maxIterations := 50
  maxMinutes := none
  bypass := false
  onIncomplete := py "block"
  reInjectPrompt := none

/-- An assistant message without the promise, and a line that holds a
number. -/
def oddTranscript : TranscriptFile :=
  .bytes (("\x7b\"type\": \"assistant\", \"message\": \x7b\"content\": " ++
    "[\x7b\"text\": \"not yet\"\x7d]\x7d\x7d\n5\n").toList.map fun c => c.toNat.toUInt8)

/-- The first Stop of a session. -/
def oddStop : Stop := ⟨oddTranscript, none, true, ⟨.passed, none⟩⟩

/-- One number in the transcript switches the verification off: the Stop
is allowed although the message has no promise. -/
theorem odd_line_allows_stop :
    getLastAssistantText FloatText ⟨1000, 4300⟩ oddTranscript = .error .attributeError ∧
      (runVerificationCheck FloatText ⟨1000, 4300⟩ id id (fun _ => .ok 0) donePromise
        oddStop).decision = .allow ∧
      ¬ DecidesByLastMessage FloatText ⟨1000, 4300⟩ id id (fun _ => .ok 0) donePromise oddStop := by
  have hread : getLastAssistantText FloatText ⟨1000, 4300⟩ oddTranscript
      = .error .attributeError := by decide +kernel
  have hallow : (runVerificationCheck FloatText ⟨1000, 4300⟩ id id (fun _ => .ok 0) donePromise
      oddStop).decision = .allow := by decide +kernel
  have htext : ∃ text, oddTranscript.text = .ok text := by
    have hok : oddTranscript.text.toBool = true := by decide +kernel
    cases h : oddTranscript.text with
    | ok text => exact ⟨text, rfl⟩
    | error e => rw [h] at hok; cases hok
  refine ⟨hread, hallow, ?_⟩
  intro h
  obtain ⟨text, htext⟩ := htext
  obtain ⟨last, -, hlast⟩ := h.1 text htext
  rw [show oddStop.file = oddTranscript from rfl, hread] at hlast
  cases hlast

end MultiForge.Verification
