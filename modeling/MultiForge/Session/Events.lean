/-
MultiForge.Session.Events — the envelope of session events and the strict
reader of their journals.

An event is written as one line of compact JSON with sorted keys and read
back by `validateSessionEvent`, which looks at every field of the envelope
and leaves the payload to the validators of a domain. `Valid` says what it
accepts, and `validate_record` that the written form of a valid event is
read as that event, with the keys of its payload in order.

A journal is the text of its file. The reader splits it into lines in text
mode and refuses the whole file when one line is truncated, blank, no JSON
object, no valid event or a duplicate.
-/
import Mathlib.Data.List.Sort
import MultiForge.Json.Sorted
import MultiForge.Lib.Lines

namespace MultiForge.Session

open Json

/-! ## 1. Vocabulary -/

def SESSION_EVENT_SCHEMA_VERSION : Int := 1

def SESSION_EVENT_ORIGINS : List String :=
  ["external_cli", "session_derivation", "launcher", "claude_authority_hook",
    "codex_policy_hook", "codex_review_hook"]

def SESSION_EVENT_OPERATIONS : List String :=
  ["start", "resume", "fork", "incognito", "set", "clear", "tool_request", "runtime_event"]

def SESSION_EVENT_OUTCOMES : List String := ["success", "denied", "refused", "cancelled", "error"]

def AGENT_RUNTIME_IDS : List String := ["claude_code", "codex"]

def ENVELOPE_FIELDS : List String :=
  ["schema_version", "event_id", "timestamp", "session", "runtime", "event_type", "run_id",
    "origin_surface", "operation", "outcome", "reason_code", "payload"]

/-- `[0-9a-f]` -/
def isLowerHex (c : Char) : Bool := ('0' ≤ c && c ≤ '9') || ('a' ≤ c && c ≤ 'f')

def isLower (c : Char) : Bool := 'a' ≤ c && c ≤ 'z'

def isDecimal (c : Char) : Bool := '0' ≤ c && c ≤ '9'

/-- A prefix and a fixed number of lowercase hex digits. -/
def prefixedHex (pre : String) (n : Nat) (s : String) : Bool :=
  pre.toList.isPrefixOf s.toList && (s.toList.drop pre.length).length == n
    && (s.toList.drop pre.length).all isLowerHex

/-- `^sevt_[0-9a-f]{32}$` -/
def isValidSessionEventId (s : String) : Bool := prefixedHex "sevt_" 32 s

/-- `^run_[0-9a-f]{12}$` -/
def isValidRunId (s : String) : Bool := prefixedHex "run_" 12 s

/-- `^[a-z][a-z0-9_]*$` -/
def isToken (s : String) : Bool :=
  match s.toList with
  | [] => false
  | c :: cs => isLower c && cs.all fun d => isLower d || isDecimal d || d == '_'

/-- `[0-9]+` and the rest. -/
def isFraction (cs : List Char) : Bool := !cs.isEmpty && cs.all isDecimal

/-- `^[0-9]{4}-[0-9]{2}-[0-9]{2}T[0-9]{2}:[0-9]{2}:[0-9]{2}(?:\.[0-9]+)?(?:Z|\+00:00)$` -/
def isRfc3339Utc (s : String) : Bool :=
  match s.toList with
  | y₁ :: y₂ :: y₃ :: y₄ :: '-' :: m₁ :: m₂ :: '-' :: d₁ :: d₂ :: 'T' :: h₁ :: h₂ :: ':' ::
      n₁ :: n₂ :: ':' :: s₁ :: s₂ :: rest =>
      [y₁, y₂, y₃, y₄, m₁, m₂, d₁, d₂, h₁, h₂, n₁, n₂, s₁, s₂].all isDecimal
        && match rest with
          | '.' :: cs =>
              (cs.getLast? == some 'Z' && isFraction cs.dropLast)
                || (cs.drop (cs.length - 6) == "+00:00".toList && isFraction (cs.take (cs.length - 6)))
          | cs => cs == ['Z'] || cs == "+00:00".toList
  | _ => false

/-- `^[a-z0-9]([a-z0-9-]*[a-z0-9])?$` of a name without its last line feed. -/
def namePattern (cs : List Char) : Bool :=
  let plain (c : Char) : Bool := isLower c || isDecimal c
  match cs with
  | [] => false
  | c :: rest => plain c && rest.all (fun d => plain d || d == '-') && (rest.getLast?.all plain)

/-- The reason why `validate_name` raises. The `$` of its pattern also
matches before a last line feed. -/
def validateName (name : String) : Except String Unit :=
  let cs := name.toList
  if cs.length < 2 then throw "name must be at least 2 characters"
  else if 64 < cs.length then throw "name must be at most 64 characters"
  else if !(namePattern cs || (cs.getLast? == some '\n' && namePattern cs.dropLast)) then
    throw "name must be lowercase alphanumeric with hyphens, starting and ending with alphanumeric"
  else if cs.tails.any (['-', '-'].isPrefixOf ·) then throw "name cannot contain consecutive hyphens"
  else pure ()

/-! ## 2. Events -/

/-- `SessionEventValidationError` -/
structure EventError where
  reason : String
  record : Option Nat
  field : Option String
  deriving DecidableEq, Repr

/-- `SessionEvent` -/
structure SessionEvent (F : Type) where
  schemaVersion : Int
  eventId : String
  timestamp : String
  session : String
  runtime : String
  eventType : String
  runId : Option String
  originSurface : String
  operation : Option String
  outcome : String
  reasonCode : Option String
  payload : List (String × Json F)

variable {F : Type}

def optStr : Option String → Json F
  | none => .null
  | some s => .str s

/-- `asdict(event)` -/
def SessionEvent.asdict (e : SessionEvent F) : Json F :=
  .obj
    [("schema_version", .int e.schemaVersion),
      ("event_id", .str e.eventId),
      ("timestamp", .str e.timestamp),
      ("session", .str e.session),
      ("runtime", .str e.runtime),
      ("event_type", .str e.eventType),
      ("run_id", optStr e.runId),
      ("origin_surface", .str e.originSurface),
      ("operation", optStr e.operation),
      ("outcome", .str e.outcome),
      ("reason_code", optStr e.reasonCode),
      ("payload", .obj e.payload)]

/-- The event with the keys of its payload in order, as a journal has it. -/
def SessionEvent.canonical (e : SessionEvent F) : SessionEvent F :=
  { e with payload := sortItems e.payload }

@[simp] theorem SessionEvent.canonical_eventId (e : SessionEvent F) :
    e.canonical.eventId = e.eventId := rfl

@[simp] theorem SessionEvent.canonical_canonical (e : SessionEvent F) :
    e.canonical.canonical = e.canonical := by
  simp [SessionEvent.canonical]

/-- What a validator raises: its own error, or a `TypeError` or
`ValueError`. -/
inductive DomainError where
  | event (error : EventError)
  | value (text : String)

/-- The validators of a domain. They look at a payload as a dict, so the
order of its keys does not matter to them. -/
structure Validators (F : Type) where
  payload : String → List (String × Json F) → Except DomainError Unit
  event : SessionEvent F → Except DomainError Unit
  payload_sorted : ∀ t items, payload t items = .ok () → payload t (sortItems items) = .ok ()
  event_canonical : ∀ e, event e = .ok () → event e.canonical = .ok ()

/-- What the code asks of the standard library. -/
structure Stdlib (F : Type) where
  /-- `parse_iso` does not raise -/
  parseIso : String → Bool
  /-- `repr` -/
  repr : Json F → String
  /-- the message of the `JSONDecodeError` of a text -/
  jsonError : List Char → String

variable [PyFloatText F]

mutual

/-- `_validate_strict_json_value`: every float is finite. -/
def strictJson : Json F → Bool
  | .float x => match PyFloatText.repr x with
      | .decimal _ => true
      | _ => false
  | .list vs => strictList vs
  | .obj items => strictItems items
  | _ => true

def strictList : List (Json F) → Bool
  | [] => true
  | v :: vs => strictJson v && strictList vs

def strictItems : List (String × Json F) → Bool
  | [] => true
  | (_, v) :: rest => strictJson v && strictItems rest

end

/-! ## 3. `validate_session_event` -/

section Validate

variable (lib : Stdlib F) (vals : Validators F) (n : Option Nat)

def sortedJoin (xs : List String) : String :=
  ", ".intercalate (xs.insertionSort (· ≤ ·))

def fail (reason : String) (field : Option String) : Except EventError Unit :=
  throw ⟨reason, n, field⟩

/-- `_require_string` -/
def requireString (items : List (String × Json F)) (field : String) : Except EventError String :=
  match lookup field items with
  | some (.str s) => if s = "" then throw ⟨"must be a non-empty string", n, field⟩ else pure s
  | _ => throw ⟨"must be a non-empty string", n, field⟩

/-- A field that is null or a string with a property. -/
def requireOptional (items : List (String × Json F)) (field : String) (ok : String → Bool)
    (reason : String) : Except EventError (Option String) :=
  match lookup field items with
  | some .null => pure none
  | some (.str s) => if ok s then pure (some s) else throw ⟨reason, n, field⟩
  | _ => throw ⟨reason, n, field⟩

/-- `raise` unless a condition holds. -/
def require (ok : Bool) (reason : String) (field : Option String) : Except EventError Unit :=
  if ok then pure () else throw ⟨reason, n, field⟩

/-- How `validate_session_event` passes on what a validator raises. -/
def passOn (field : Option String) : Except DomainError Unit → Except EventError Unit
  | .ok () => pure ()
  | .error (.event e) =>
      if n.isNone || e.record.isSome then throw e
      else throw ⟨e.reason, n, e.field.or field⟩
  | .error (.value text) => throw ⟨text, n, field⟩

/-- `validate_session_event` -/
def validateSessionEvent (expected : Option String) (record : Json F) :
    Except EventError (SessionEvent F) :=
  match record with
  | .obj items => do
      let unknown := (items.map Prod.fst).filter (· ∉ ENVELOPE_FIELDS)
      let missing := ENVELOPE_FIELDS.filter (· ∉ items.map Prod.fst)
      require n unknown.isEmpty s!"unknown field(s): {sortedJoin unknown}" none
      require n missing.isEmpty s!"missing field(s): {sortedJoin missing}" none
      let version := (lookup "schema_version" items).getD .null
      require n (match version with
          | .int v => v == SESSION_EVENT_SCHEMA_VERSION
          | _ => false)
        s!"unsupported schema version {lib.repr version}; expected 1" "schema_version"
      let eventId ← requireString n items "event_id"
      require n (isValidSessionEventId eventId) "must match sevt_<32 lowercase hex>" "event_id"
      let timestamp ← requireString n items "timestamp"
      require n (lib.parseIso timestamp) "must be an RFC 3339 timestamp" "timestamp"
      require n (isRfc3339Utc timestamp) "must be an RFC 3339 UTC timestamp" "timestamp"
      let session ← requireString n items "session"
      passOn n "session" ((validateName session).mapError .value)
      require n (expected.all (· == session))
        s!"does not match journal session {lib.repr (optStr expected)}" "session"
      let runtime ← requireString n items "runtime"
      require n (runtime ∈ AGENT_RUNTIME_IDS)
        ("must be one of: " ++ ", ".intercalate AGENT_RUNTIME_IDS) "runtime"
      let eventType ← requireString n items "event_type"
      require n (isToken eventType) "must be a lowercase machine token" "event_type"
      let runId ← requireOptional n items "run_id" isValidRunId
        "must be null or a valid Forge run id"
      let origin ← requireString n items "origin_surface"
      require n (origin ∈ SESSION_EVENT_ORIGINS)
        s!"must be one of: {sortedJoin SESSION_EVENT_ORIGINS}" "origin_surface"
      let operation ← requireOptional n items "operation" (· ∈ SESSION_EVENT_OPERATIONS)
        s!"must be null or one of: {sortedJoin SESSION_EVENT_OPERATIONS}"
      let outcome ← requireString n items "outcome"
      require n (outcome ∈ SESSION_EVENT_OUTCOMES)
        s!"must be one of: {sortedJoin SESSION_EVENT_OUTCOMES}" "outcome"
      let reasonCode ← requireOptional n items "reason_code" isToken
        "must be null or a lowercase machine token"
      match lookup "payload" items with
      | some (.obj payload) => do
          require n (strictItems payload)
            "must contain only strict JSON values: payload contains a non-finite number" "payload"
          passOn n "payload" (vals.payload eventType payload)
          let validated : SessionEvent F :=
            { schemaVersion := SESSION_EVENT_SCHEMA_VERSION
              eventId := eventId
              timestamp := timestamp
              session := session
              runtime := runtime
              eventType := eventType
              runId := runId
              originSurface := origin
              operation := operation
              outcome := outcome
              reasonCode := reasonCode
              payload := payload }
          passOn n none (vals.event validated)
          pure validated
      | _ => throw ⟨"must be an object", n, "payload"⟩
  | _ => throw ⟨"expected a JSON object", n, none⟩

end Validate

/-! ## 4. What it accepts -/

section Accepts

variable {lib : Stdlib F} {vals : Validators F} {n : Option Nat} {expected : Option String}

/-- What `validate_session_event` accepts. -/
structure SessionEvent.Valid (lib : Stdlib F) (vals : Validators F) (e : SessionEvent F) : Prop where
  schemaVersion : e.schemaVersion = SESSION_EVENT_SCHEMA_VERSION
  eventId : e.eventId ≠ "" ∧ isValidSessionEventId e.eventId = true
  timestamp : e.timestamp ≠ "" ∧ lib.parseIso e.timestamp = true ∧ isRfc3339Utc e.timestamp = true
  session : e.session ≠ "" ∧ validateName e.session = .ok ()
  runtime : e.runtime ≠ "" ∧ e.runtime ∈ AGENT_RUNTIME_IDS
  eventType : e.eventType ≠ "" ∧ isToken e.eventType = true
  runId : ∀ s, e.runId = some s → isValidRunId s = true
  originSurface : e.originSurface ≠ "" ∧ e.originSurface ∈ SESSION_EVENT_ORIGINS
  operation : ∀ s, e.operation = some s → s ∈ SESSION_EVENT_OPERATIONS
  outcome : e.outcome ≠ "" ∧ e.outcome ∈ SESSION_EVENT_OUTCOMES
  reasonCode : ∀ s, e.reasonCode = some s → isToken s = true
  payload : strictItems e.payload = true
  domain : vals.payload e.eventType e.payload = .ok ()
  event : vals.event e = .ok ()

variable {α : Type} {items : List (String × Json F)} {field : String}

theorem require_bind {ok : Bool} {reason : String} {f : Option String}
    {g : Unit → Except EventError α} {a : α} :
    (require n ok reason f >>= g) = .ok a ↔ ok = true ∧ g () = .ok a := by
  cases ok with
  | true => exact ⟨fun h => ⟨rfl, h⟩, And.right⟩
  | false => exact ⟨nofun, fun h => nomatch h.1⟩

omit [PyFloatText F] in
theorem requireString_bind {g : String → Except EventError α} {a : α} :
    (requireString n items field >>= g) = .ok a ↔
      ∃ s, lookup field items = some (.str s) ∧ s ≠ "" ∧ g s = .ok a := by
  unfold requireString
  split
  · rename_i s hs
    rw [hs]
    split
    · rename_i hempty
      exact ⟨nofun, fun ⟨t, ht, hne, _⟩ => by cases ht; exact absurd hempty hne⟩
    · rename_i hne
      exact ⟨fun h => ⟨s, rfl, hne, h⟩, fun ⟨t, ht, _, h⟩ => by cases ht; exact h⟩
  · rename_i hno
    exact ⟨nofun, fun ⟨t, ht, _⟩ => absurd ht (hno t)⟩

omit [PyFloatText F] in
theorem requireOptional_bind {ok : String → Bool} {reason : String}
    {g : Option String → Except EventError α} {a : α} :
    (requireOptional n items field ok reason >>= g) = .ok a ↔
      ∃ o, lookup field items = some (optStr o) ∧ (∀ s, o = some s → ok s = true) ∧ g o = .ok a := by
  unfold requireOptional
  split
  · rename_i hnull
    rw [hnull]
    refine ⟨fun h => ⟨none, rfl, nofun, h⟩, fun ⟨o, ho, _, h⟩ => ?_⟩
    cases o with
    | none => exact h
    | some s => cases ho
  · rename_i s hs
    rw [hs]
    split
    · rename_i hok
      refine ⟨fun h => ⟨some s, rfl, fun t ht => by cases ht; exact hok, h⟩, fun ⟨o, ho, _, h⟩ => ?_⟩
      cases o with
      | none => cases ho
      | some t =>
        cases ho
        exact h
    · rename_i hok
      refine ⟨nofun, fun ⟨o, ho, hall, _⟩ => ?_⟩
      cases o with
      | none => cases ho
      | some t =>
        cases ho
        exact absurd (hall s rfl) hok
  · rename_i hnull hstr
    refine ⟨nofun, fun ⟨o, ho, _⟩ => ?_⟩
    cases o with
    | none => exact absurd ho hnull
    | some t => exact absurd ho (hstr t)

omit [PyFloatText F] in
theorem passOn_bind {f : Option String} {r : Except DomainError Unit}
    {g : Unit → Except EventError α} {a : α} :
    (passOn n f r >>= g) = .ok a ↔ r = .ok () ∧ g () = .ok a := by
  cases r with
  | ok u => exact ⟨fun h => ⟨rfl, h⟩, And.right⟩
  | error e =>
    have herr : ∃ e', passOn n f (.error e) = .error e' := by
      cases e with
      | value text => exact ⟨⟨text, n, f⟩, rfl⟩
      | event e =>
        by_cases hn : (n.isNone || e.record.isSome) = true
        · exact ⟨e, if_pos hn⟩
        · exact ⟨⟨e.reason, n, e.field.or f⟩, if_neg hn⟩
    obtain ⟨e', he⟩ := herr
    rw [he]
    exact ⟨nofun, fun h => nomatch h.1⟩

theorem mapError_ok {ε ε' : Type} {f : ε → ε'} {r : Except ε Unit} :
    r.mapError f = .ok () ↔ r = .ok () := by
  cases r with
  | ok u => exact ⟨fun _ => rfl, fun _ => rfl⟩
  | error e => exact ⟨nofun, nofun⟩

/-- What is accepted is valid and is a journal event of its session. -/
theorem validate_valid {record : Json F} {e : SessionEvent F}
    (h : validateSessionEvent lib vals n expected record = .ok e) :
    e.Valid lib vals ∧ expected.all (· == e.session) = true := by
  unfold validateSessionEvent at h
  split at h
  · simp only [require_bind, requireString_bind, requireOptional_bind, passOn_bind,
      mapError_ok] at h
    obtain ⟨-, -, -, eventId, -, hid, hid', timestamp, -, hts, hiso, hutc, session, -, hs, hname,
      hexp, runtime, -, hr, hr', eventType, -, ht, ht', runId, -, hrun, origin, -, ho, ho',
      operation, -, hop, outcome, -, hout, hout', reasonCode, -, hcode, h⟩ := h
    split at h
    · simp only [require_bind, passOn_bind] at h
      obtain ⟨hstrict, hdom, hev, h⟩ := h
      cases h
      simp only [decide_eq_true_eq] at hr' ho' hop hout'
      exact ⟨⟨rfl, ⟨hid, hid'⟩, ⟨hts, hiso, hutc⟩, ⟨hs, hname⟩, ⟨hr, hr'⟩, ⟨ht, ht'⟩, hrun,
        ⟨ho, ho'⟩, hop, ⟨hout, hout'⟩, hcode, hstrict, hdom, hev⟩, hexp⟩
    · cases h
  · cases h

/-- The fields of the envelope in the order of a journal line. -/
def sortedFields : List String :=
  ["event_id", "event_type", "operation", "origin_surface", "outcome", "payload", "reason_code",
    "run_id", "runtime", "schema_version", "session", "timestamp"]

omit [PyFloatText F] in
/-- The written form of an event, its keys in order. -/
theorem sortKeys_asdict (e : SessionEvent F) : sortKeys e.asdict = .obj
    [("event_id", .str e.eventId),
      ("event_type", .str e.eventType),
      ("operation", optStr e.operation),
      ("origin_surface", .str e.originSurface),
      ("outcome", .str e.outcome),
      ("payload", .obj (sortItems e.payload)),
      ("reason_code", optStr e.reasonCode),
      ("run_id", optStr e.runId),
      ("runtime", .str e.runtime),
      ("schema_version", .int e.schemaVersion),
      ("session", .str e.session),
      ("timestamp", .str e.timestamp)] := by
  have hopt : ∀ o, sortKeys (optStr (F := F) o) = optStr o := by
    intro o
    cases o <;> rfl
  simp only [SessionEvent.asdict, sortKeys, sortItems, hopt]
  rfl

theorem strictItems_insertKey {k : String} {v : Json F} (hv : strictJson v = true) :
    ∀ {items : List (String × Json F)}, strictItems items = true →
      strictItems (insertKey k v items) = true
  | [], _ => Bool.and_eq_true_iff.mpr ⟨hv, rfl⟩
  | (j, w) :: rest, h => by
      obtain ⟨hw, hrest⟩ := Bool.and_eq_true_iff.mp h
      rw [insertKey]
      split
      · exact Bool.and_eq_true_iff.mpr ⟨hv, h⟩
      · exact Bool.and_eq_true_iff.mpr ⟨hw, strictItems_insertKey hv hrest⟩

mutual

theorem strictJson_sortKeys : ∀ v : Json F, strictJson v = true → strictJson (sortKeys v) = true
  | .null, h | .bool _, h | .int _, h | .float _, h | .str _, h => h
  | .list vs, h => strictList_sortList vs h
  | .obj items, h => strictItems_sortItems items h

theorem strictList_sortList : ∀ vs : List (Json F), strictList vs = true →
    strictList (sortList vs) = true
  | [], _ => rfl
  | v :: vs, h => by
      obtain ⟨hv, hvs⟩ := Bool.and_eq_true_iff.mp h
      exact Bool.and_eq_true_iff.mpr ⟨strictJson_sortKeys v hv, strictList_sortList vs hvs⟩

theorem strictItems_sortItems : ∀ items : List (String × Json F), strictItems items = true →
    strictItems (sortItems items) = true
  | [], _ => rfl
  | (k, v) :: rest, h => by
      obtain ⟨hv, hrest⟩ := Bool.and_eq_true_iff.mp h
      exact strictItems_insertKey (strictJson_sortKeys v hv) (strictItems_sortItems rest hrest)

end

/-- **The written form of a valid event is read as that event.** -/
theorem validate_record {e : SessionEvent F} (he : e.Valid lib vals)
    (hexp : expected.all (· == e.session) = true) :
    validateSessionEvent lib vals n expected (sortKeys e.asdict) = .ok e.canonical := by
  have hunknown : (sortedFields.filter (· ∉ ENVELOPE_FIELDS)).isEmpty = true := by decide
  have hmissing : (ENVELOPE_FIELDS.filter (· ∉ sortedFields)).isEmpty = true := by decide
  rw [sortKeys_asdict]
  simp only [validateSessionEvent, require_bind, requireString_bind, requireOptional_bind,
    passOn_bind, mapError_ok]
  refine ⟨hunknown, hmissing, ?_, e.eventId, rfl, he.eventId.1, he.eventId.2, e.timestamp, rfl,
    he.timestamp.1, he.timestamp.2.1, he.timestamp.2.2, e.session, rfl, he.session.1,
    he.session.2, hexp, e.runtime, rfl, he.runtime.1, decide_eq_true he.runtime.2, e.eventType,
    rfl, he.eventType.1, he.eventType.2, e.runId, rfl, he.runId, e.originSurface, rfl,
    he.originSurface.1, decide_eq_true he.originSurface.2, e.operation, rfl,
    fun s hs => decide_eq_true (he.operation s hs), e.outcome, rfl, he.outcome.1,
    decide_eq_true he.outcome.2, e.reasonCode, rfl, he.reasonCode, ?_⟩
  · show (e.schemaVersion == SESSION_EVENT_SCHEMA_VERSION) = true
    exact beq_iff_eq.mpr he.schemaVersion
  · show (require n (strictItems (sortItems e.payload)) _ _ >>= _) = _
    simp only [require_bind, passOn_bind]
    have hcanonical := vals.event_canonical e he.event
    have hversion : e.schemaVersion = SESSION_EVENT_SCHEMA_VERSION := he.schemaVersion
    refine ⟨strictItems_sortItems _ he.payload, vals.payload_sorted _ _ he.domain, ?_, ?_⟩
    · rw [← hversion]
      exact hcanonical
    · rw [← hversion]
      rfl

end Accepts

/-! ## 5. Journals -/

/-- The line of an event, with its line feed. -/
@[irreducible] def encode (e : SessionEvent F) : List Char :=
  dumpChars .compact (sortKeys e.asdict) ++ ['\n']

/-- What reading a journal raises. -/
inductive JournalError where
  /-- `SessionEventReadError` -/
  | read (reason : String)
  | invalid (error : EventError)

/-- The size of a text in UTF-8. -/
def byteSize (text : List Char) : Nat := (text.map Char.utf8Size).sum

section Read

variable (lib : Stdlib F) (vals : Validators F) (session : String)

/-- One line of a journal. -/
def readLine (n : Nat) (line : List Char) : Except EventError (SessionEvent F) :=
  if Lines.isBlank line then throw ⟨"blank JSONL record", n, none⟩
  else match loads (String.ofList line) with
    | none => throw ⟨s!"invalid JSON: {lib.jsonError line}", n, none⟩
    | some raw => validateSessionEvent lib vals n session raw

/-- The lines of a journal from one on, and the event ids before them. -/
def readLines (n : Nat) (eventIds : List String) :
    List (List Char) → Except EventError (List (SessionEvent F))
  | [] => .ok []
  | line :: lines =>
      match readLine lib vals session n line with
      | .error e => .error e
      | .ok event =>
          if event.eventId ∈ eventIds then
            .error ⟨s!"duplicate event id {lib.repr (.str event.eventId)}", n, "event_id"⟩
          else match readLines (n + 1) (event.eventId :: eventIds) lines with
            | .error e => .error e
            | .ok events => .ok (event :: events)

/-- The lines of a journal, the last of which has to be complete. -/
def readAll (lines : List (List Char)) : Except JournalError (List (SessionEvent F)) :=
  if lines.getLast?.any (·.getLast? != some '\n') then
    .error (.invalid ⟨"truncated JSONL record (missing newline)", lines.length, none⟩)
  else match readLines lib vals session 1 [] lines with
    | .error e => .error (.invalid e)
    | .ok events => .ok events

/-- `read_session_events` of the text of a journal. -/
def readText (maxBytes : Option Nat) (text : List Char) :
    Except JournalError (List (SessionEvent F)) :=
  if maxBytes.any (· < byteSize text) then
    .error (.read "session-event journal exceeds the bounded reader limit")
  else readAll lib vals session (Lines.readlines text)

/-- `read_session_events`: a journal that does not exist has no events. -/
def readSessionEvents (maxBytes : Option Nat) :
    Option (List Char) → Except JournalError (List (SessionEvent F))
  | none => .ok []
  | some text => readText lib vals session maxBytes text

end Read

end MultiForge.Session
