/-
MultiForge.Workqueue.Marker — one marker of the pending-work queue.

A file of the queue is known by what `read_json` makes of it (`Content`).
`verdict` is what the processor decides about an object it has read under
the marker's lock, and `processLockedMarker` what it does about it;
`processSingleMarker` is the admission of session work before the lock.

What is outside the queue is in `Env` (the handler table, how Python prints
a value) and, for one inspection, in `Circumstances` (the lock, the session
lease, what the handler does, which file operations fail).
-/
import Mathlib.Algebra.Group.Nat.Defs
import MultiForge.Json.Value
import MultiForge.Lib.Lines
import MultiForge.Lib.Utf8

namespace MultiForge.Workqueue

/-! ## 1. Constants -/

/-- `MARKER_SCHEMA_VERSION` -/
def markerSchemaVersion : Int := 1

/-- `MAX_ATTEMPTS` -/
def maxAttempts : Nat := 5

/-- `MAX_ERROR_LENGTH` -/
def maxErrorLength : Nat := 500

/-! ## 2. Attempt counts -/

/-- What the queue does with a `float` attempt count. -/
class PyCount (F : Type) extends PyFloat F where
  /-- `x + 1` -/
  addOne : F → F
  /-- `x >= n` -/
  atLeast : F → Int → Bool

/-- JSON without floats. -/
instance : PyCount Empty where
  toInt? := nofun
  pos := nofun
  eq := nofun
  addOne := nofun
  atLeast := nofun

variable {F : Type} [PyCount F]

/-- `v + 1`, or `none` where Python raises `TypeError`. -/
def addOne? : Json F → Option (Json F)
  | .bool b => some (.int (if b then 2 else 1))
  | .int n => some (.int (n + 1))
  | .float x => some (.float (PyCount.addOne x))
  | _ => none

/-- `v >= MAX_ATTEMPTS`, or `none` where Python raises `TypeError`. -/
def exhausted? : Json F → Option Bool
  | .bool _ => some false
  | .int n => some (maxAttempts ≤ n)
  | .float x => some (PyCount.atLeast x maxAttempts)
  | _ => none

/-! ## 3. Files -/

/-- What `read_json` finds: an object, a `StateCorruptedError`, a
`StateUnreadableError`, or an exception that it does not catch. -/
inductive Content (F : Type) where
  | object (items : List (String × Json F))
  | corrupted (reason : String)
  | unreadable (reason : String)
  | escaping (reason : String)

/-- What `json.load` does with a text; `other` is an exception that is no
`JSONDecodeError`. -/
inductive Loaded (F : Type) where
  | value (v : Json F)
  | decodeError (reason : String)
  | other (reason : String)

/-- `read_json` of a file with these bytes: text mode decodes them first,
and a `UnicodeDecodeError` is no `JSONDecodeError`. -/
def Content.ofBytes (loads : List Char → Loaded F) (bytes : List UInt8) : Content F :=
  match Utf8.decode bytes with
  | none => .escaping "invalid UTF-8"
  | some text => match loads (Lines.translate text) with
    | .value (.obj items) => .object items
    | .value _ => .corrupted "expected JSON object"
    | .decodeError reason => .corrupted ("invalid JSON: " ++ reason)
    | .other reason => .escaping reason

/-! ## 4. The verdict -/

structure Env (F : Type) where
  /-- `kind in handlers` -/
  handlers : String → Bool
  /-- `str(v)` -/
  str : Json F → String
  /-- `repr(s)` -/
  repr : String → String
  /-- `str(Path(root).resolve())`; `none` is a `ValueError` -/
  resolve : String → Option String
  /-- `sys.get_int_max_str_digits()`, 0 for no limit -/
  intMaxStrDigits : Nat
  limit : intMaxStrDigits = 0 ∨ 640 ≤ intMaxStrDigits

/-- `(str(Path(root).resolve()), session_name, token)` -/
structure Owner where
  root : String
  sessionName : String
  instanceId : String
  deriving DecidableEq, Repr

/-- `payload.get("forge_root") or payload.get("worktree_path")` -/
def payloadRoot (payload : List (String × Json F)) : Json F :=
  (Json.get payload "forge_root").orElse (Json.get payload "worktree_path")

/-- What the read before the lock says of the marker's session. -/
inductive Ownership where
  | unowned
  | unidentified
  | owned (root sessionName token : String)
  deriving DecidableEq, Repr

def ownership (items : List (String × Json F)) : Ownership :=
  match Json.get items "payload" with
  | .obj payload =>
      match Json.get payload "session_name", payloadRoot payload with
      | .str sessionName, .str root =>
          match Json.get payload "instance_id" with
          | .str token => .owned root sessionName token
          | _ => .unidentified
      | _, _ => .unowned
  | _ => .unowned

def isStr (s : String) : Json F → Bool
  | .str t => t = s
  | _ => false

/-- `current_owner != expected_owner`; `none` is an exception. -/
def ownerChanged (env : Env F) (expected : Option Owner) (items : List (String × Json F)) :
    Option Bool :=
  match expected with
  | none => some false
  | some owner => match (Json.get items "payload").orElse (.obj []) with
    | .obj payload =>
        let currentRoot : Option (Option String) := match payloadRoot payload with
          | .str root => (env.resolve root).map some
          | _ => some none
        currentRoot.map fun root =>
          !(root = some owner.root && isStr owner.sessionName (Json.get payload "session_name")
            && isStr owner.instanceId (Json.get payload "instance_id"))
    | _ => none

/-- `SAFE_MARKER_ID.match`: `$` also matches before a line feed at the end. -/
def isSafeMarkerId (markerId : String) : Bool :=
  let chars := markerId.toList
  let body := if chars.getLast? = some '\n' then chars.dropLast else chars
  !body.isEmpty && body.all fun c => c.isAlphanum || c = '.' || c = '_' || c = '-'

/-- `_validate_marker` -/
def validateMarker (env : Env F) (items : List (String × Json F)) : Option String :=
  let schemaVersion := Json.get items "schema_version"
  if schemaVersion.toInt? ≠ some markerSchemaVersion then
    some ("unsupported schema_version: " ++ env.str schemaVersion)
  else match Json.get items "kind", Json.get items "marker_id" with
    | .str kind, markerId =>
        if kind = "" then some "missing or invalid kind"
        else match markerId with
          | .str markerId =>
              if markerId = "" then some "missing or invalid marker_id"
              else if isSafeMarkerId markerId then none
              else some ("unsafe marker_id: " ++ env.repr markerId)
          | _ => some "missing or invalid marker_id"
    | _, _ => some "missing or invalid kind"

/-- What is decided about an object read under the lock. -/
inductive Verdict where
  | raises
  | changed
  | newerSchema (version : Int)
  | oldShape
  | invalid (error : String)
  | exhausted
  | unhandled
  | handle
  deriving DecidableEq, Repr

/-- `data.get("attempt_count", 0)` -/
def attemptCount (items : List (String × Json F)) : Json F :=
  Json.getD items "attempt_count" (.int 0)

/-- The schema version of a newer Forge, if that is what wrote the marker. -/
def newerVersion? (items : List (String × Json F)) : Option Int :=
  match Json.get items "schema_version" with
  | .int n => if markerSchemaVersion < n then some n else none
  | _ => none

/-- `"marker_id" not in data and ("session_id" in data or "work" in data)` -/
def isOldShape (items : List (String × Json F)) : Bool :=
  !Json.hasKey items "marker_id" && (Json.hasKey items "session_id" || Json.hasKey items "work")

/-- The handler table has the marker's kind. -/
def isHandled (env : Env F) (items : List (String × Json F)) : Bool :=
  match Json.get items "kind" with
  | .str kind => env.handlers kind
  | _ => false

/-- The decision after the owner has been compared. -/
def judge (env : Env F) (items : List (String × Json F)) : Verdict :=
  match newerVersion? items with
  | some version => .newerSchema version
  | none =>
      if isOldShape items then .oldShape
      else match validateMarker env items with
        | some error => .invalid error
        | none => match exhausted? (attemptCount items) with
          | none => .raises
          | some true => .exhausted
          | some false => if isHandled env items then .handle else .unhandled

def verdict (env : Env F) (expected : Option Owner) (items : List (String × Json F)) : Verdict :=
  match ownerChanged env expected items with
  | none => .raises
  | some true => .changed
  | some false => judge env items

/-- The int can be written: its text is not too long. -/
def isWritable (env : Env F) : Json F → Bool
  | .int n => env.intMaxStrDigits = 0 || n.natAbs < 10 ^ env.intMaxStrDigits
  | _ => true

/-- The object `_try_write_error` writes, with its attempt count. -/
def withError (env : Env F) (now error : String) (items : List (String × Json F)) :
    Option (List (String × Json F) × Json F) :=
  match addOne? (attemptCount items) with
  | none => none
  | some count =>
      if isWritable env count then
        some (Json.insert "last_error" (.str (String.ofList (error.toList.take maxErrorLength)))
          (Json.insert "last_attempt_at" (.str now)
            (Json.insert "attempt_count" count items)), count)
      else none

/-- The keys that `_try_write_error` sets. -/
def errorKeys : List String := ["attempt_count", "last_attempt_at", "last_error"]

theorem withError_cases {env : Env F} {now error : String} {items items' : List (String × Json F)}
    {count : Json F} (h : withError env now error items = some (items', count)) :
    addOne? (attemptCount items) = some count ∧ isWritable env count = true ∧
      attemptCount items' = count ∧
      ∀ key ∉ errorKeys, Json.lookup key items' = Json.lookup key items := by
  unfold withError at h
  cases hcount : addOne? (attemptCount items) with
  | none =>
    rw [hcount] at h
    cases h
  | some w =>
    rw [hcount] at h
    simp only at h
    split at h
    · rename_i hwritable
      cases h
      refine ⟨rfl, hwritable, ?_, fun key hkey => ?_⟩
      · simp [attemptCount, Json.getD, Json.lookup_insert]
      · simp only [errorKeys, List.mem_cons, List.not_mem_nil, or_false, not_or] at hkey
        simp [Json.lookup_insert, Ne.symm hkey.1, Ne.symm hkey.2.1, Ne.symm hkey.2.2]
    · cases h

/-- An environment in which nothing is resolved or printed. -/
def Env.plain (kinds : List String) : Env Empty where
  handlers kind := kind ∈ kinds
  str _ := ""
  repr s := s
  resolve root := some root
  intMaxStrDigits := 4300
  limit := .inr (by decide)

/-! ## 5. One inspection -/

/-- Whether the session lease admits the work. A refusal is an exception
that `_process_single_marker` catches, `escapes` is any other. -/
inductive Lease where
  | admitted
  | refused (reason : String)
  | escapes (reason : String)
  deriving DecidableEq, Repr

structure Circumstances where
  lockTimeout : Bool := false
  lease : Lease := .admitted
  /-- what the handler raises, if it does -/
  handlerError : Option String := none
  unlinkFails : Bool := false
  moveFails : Bool := false
  writeFails : Bool := false
  now : String := ""

/-- No file operation and no lock fails, and no lease raises an exception
that is not caught. -/
structure Circumstances.Smooth (c : Circumstances) : Prop where
  lock : c.lockTimeout = false
  lease : ∀ reason, c.lease ≠ .escapes reason
  unlink : c.unlinkFails = false
  move : c.moveFails = false
  write : c.writeFails = false

/-- What `_process_single_marker` returns. -/
inductive Outcome where
  | processed
  | deferred (diagnostic : Option String)
  | skipped
  | failed
  | error (text : String)
  deriving DecidableEq, Repr

/-- The marker is still there and was neither handled nor reported as an
error. -/
def Outcome.isResident : Outcome → Bool
  | .deferred _ => true
  | .skipped => true
  | _ => false

/-- The outcome with what is left of the file. -/
structure Inspected (F : Type) where
  outcome : Outcome
  /-- the pending file afterwards -/
  pending : Option (Content F)
  /-- the file moved to `failed/` -/
  failed : Option (Content F) := none
  /-- whether the handler was called -/
  handled : Bool := false
  /-- `_warned_newer_schema` afterwards -/
  warned : Bool

/-- `_move_corrupted_to_failed`, `_move_to_failed` and
`_move_invalid_to_failed`: a failed move is logged only. -/
def moveToFailed (c : Circumstances) (warned handled : Bool) (content : Content F) : Inspected F :=
  if c.moveFails then ⟨.failed, some content, none, handled, warned⟩
  else ⟨.failed, none, some content, handled, warned⟩

/-- `_try_write_error`, and the move that follows once the attempts are
used up; otherwise the marker stays and `reported` is its outcome. -/
def writeError (env : Env F) (c : Circumstances) (warned handled : Bool) (error reported : String)
    (items : List (String × Json F)) : Inspected F :=
  match if c.writeFails then none else withError env c.now error items with
  | none => ⟨.error reported, some (.object items), none, handled, warned⟩
  | some (items', count) =>
      if exhausted? count = some true then moveToFailed c warned handled (.object items')
      else ⟨.error reported, some (.object items'), none, handled, warned⟩

/-- The marker file is deleted, or the failure to do so is reported. -/
def unlinkMarker (name : String) (c : Circumstances) (warned handled : Bool)
    (content : Content F) : Inspected F :=
  if c.unlinkFails then
    ⟨.error ("Error processing " ++ name ++ ": unlink"), some content, none, handled, warned⟩
  else ⟨.processed, none, none, handled, warned⟩

/-- `_defer_newer_schema`: one warning in a process. -/
def deferNewerSchema (name : String) (version : Int) (warned : Bool) (content : Content F) :
    Inspected F where
  outcome := .deferred (if warned then none else some ("Pending-work marker " ++ name
    ++ " was written by newer Forge (schema_version=" ++ toString version ++ "; supported="
    ++ toString markerSchemaVersion
    ++ "); leaving it unchanged. Upgrade Forge to process it."))
  pending := some content
  warned := true

/-- `_process_locked_marker` -/
def processLockedMarker (env : Env F) (c : Circumstances) (warned : Bool)
    (expectedOwner : Option Owner) (name : String) (content : Content F) : Inspected F :=
  if c.lockTimeout then ⟨.skipped, some content, none, false, warned⟩
  else match content with
    | .unreadable reason =>
        ⟨.deferred (some ("Pending-work marker " ++ name
          ++ " could not be read; leaving it unchanged for retry: " ++ reason)),
          some content, none, false, warned⟩
    | .corrupted _ => moveToFailed c warned false content
    | .escaping reason =>
        ⟨.error ("Error processing " ++ name ++ ": " ++ reason), some content, none, false, warned⟩
    | .object items => match verdict env expectedOwner items with
      | .raises =>
          ⟨.error ("Error processing " ++ name ++ ": TypeError"), some content, none, false, warned⟩
      | .changed =>
          ⟨.deferred (some ("Pending-work marker " ++ name ++ " changed before admission")),
            some content, none, false, warned⟩
      | .newerSchema version => deferNewerSchema name version warned content
      | .oldShape => unlinkMarker name c warned false content
      | .invalid error =>
          writeError env c warned false error ("Invalid marker " ++ name ++ ": " ++ error) items
      | .exhausted => moveToFailed c warned false content
      | .unhandled => ⟨.skipped, some content, none, false, warned⟩
      | .handle => match c.handlerError with
        | some e =>
            writeError env c warned true ("handler error: " ++ e)
              ("Handler error for " ++ name ++ ": " ++ e) items
        | none => unlinkMarker name c warned true content

/-- `_process_single_marker`; an error is an exception that leaves it. -/
def processSingleMarker (env : Env F) (c : Circumstances) (warned : Bool) (name : String)
    (content : Content F) : Except String (Inspected F) :=
  match content with
  | .escaping reason => .error reason
  | .object items => match ownership items with
    | .unowned => .ok (processLockedMarker env c warned none name content)
    | .unidentified =>
        .ok ⟨.deferred (some ("Pending-work marker " ++ name
          ++ " predates session ownership; leave it for cleanup or generate fresh work from "
          ++ "the current session.")), some content, none, false, warned⟩
    | .owned root sessionName token => match c.lease with
      | .escapes reason => .error reason
      | .refused reason =>
          .ok ⟨.deferred (some ("Pending-work marker " ++ name ++ " was not admitted: " ++ reason)),
            some content, none, false, warned⟩
      | .admitted => match env.resolve root with
        | none =>
            .ok ⟨.deferred (some ("Pending-work marker " ++ name
              ++ " was not admitted: embedded null byte")), some content, none, false, warned⟩
        | some resolved =>
            .ok (processLockedMarker env c warned (some ⟨resolved, sessionName, token⟩) name content)
  | _ => .ok (processLockedMarker env c warned none name content)

end MultiForge.Workqueue
