/-
MultiForge.Session.ManifestRead — `SessionStore.read` on any file
(`session/store.py`).

A manifest is decoded and parsed, retired fields are stripped from it, it
is validated, a manifest of version 1 or 2 is upgraded, and `dacite` builds
the state. Callers dispatch on the exceptions that `read` declares.

`json.loads` raises more than `JSONDecodeError`, a list as the version
cannot be looked up in a set, and the upgrade reads sections that the
validation has not looked at. `Readable` says which files avoid all this,
and `read_declared_iff` that they are the ones for which `read` keeps to
its exceptions.

Log lines are left out.
-/
import MultiForge.Json.PyValue
import MultiForge.Lib.Attempt
import MultiForge.Lib.Except
import MultiForge.Lib.Utf8
import MultiForge.Session.Overrides

namespace MultiForge.Session.ManifestRead

open PyValue
open Dataclass (PyType Fields)

/-- What `read` raises. -/
inductive ReadError where
  | sessionFileNotFound
  | manifestCorrupted (reason : PyStr)
  | manifestUnreadable (reason : PyStr)
  | manifestValidation (missing : List String)
  | unicodeDecodeError
  /-- a `ValueError` of `json.loads` that is no `JSONDecodeError` -/
  | valueError
  | recursionError
  | typeError
  | attributeError
  deriving DecidableEq

/-- The exceptions that `read` documents. -/
def ReadError.Declared : ReadError → Prop
  | .sessionFileNotFound | .manifestCorrupted _ | .manifestUnreadable _
  | .manifestValidation _ => True
  | .unicodeDecodeError | .valueError | .recursionError | .typeError | .attributeError => False

/-- A `dict` from JSON. -/
abbrev Items (F : Type) := List (PyStr × PyValue F)

/-- The interpreter and `dacite`; `M` are the states that it builds. -/
structure Python (F M : Type) where
  limits : Limits
  /-- `deepcopy` can follow a value, so many calls of `apply_overrides`
  deep. -/
  copies : Nat → PyValue F → Bool
  /-- `str(value)` -/
  str : PyValue F → PyStr
  /-- the text of the `JSONDecodeError` for a text -/
  decodeError : List Char → PyStr
  /-- `dacite.from_dict(SessionState, …)`: a state, or the text of what it or
  a `__post_init__` raises (`DaciteError`, `TypeError`, `KeyError` and
  `ValueError`) -/
  fromDict : Items F → Except PyStr M
  /-- `manifest.name` -/
  name : M → PyStr

section Code

variable {F M : Type} [PyFloatText F]

/-! ## 1. Retired fields -/

/-- `d.pop(key, None)` -/
def pop (key : String) (d : Items F) : Items F := d.filter fun kv => kv.1 ≠ py key

/-- Update the dict under a key in place, if there is one. -/
def inDict (key : String) (update : Items F → Items F) (d : Items F) : Items F :=
  match get d key with
  | .obj items => insert (py key) (.obj (update items)) d
  | _ => d

/-- `strip_removed_memory_generated_file` -/
def stripRemovedMemoryGeneratedFile (data : Items F) : Items F :=
  inDict "intent" (inDict "memory" (pop "generated_file")) data

/-- `for section in ("intent", "overrides")` -/
def inSections (update : Items F → Items F) (data : Items F) : Items F :=
  inDict "overrides" update (inDict "intent" update data)

/-- `strip_preview_memory_doc_lists` -/
def stripPreviewMemoryDocLists (data : Items F) : Items F :=
  inSections (inDict "memory" (pop "designated_docs")) data

/-- `strip_removed_supervisor_runtime` -/
def stripRemovedSupervisorRuntime (data : Items F) : Items F :=
  inSections (inDict "policy" (inDict "supervisor" (pop "supervisor_runtime"))) data

/-- What is validated. -/
def stripped (data : Items F) : Items F :=
  stripRemovedSupervisorRuntime (stripPreviewMemoryDocLists (stripRemovedMemoryGeneratedFile data))

/-! ## 2. Validation -/

/-- `raise ManifestCorruptedError` -/
def reject (condition : Bool) (reason : PyStr) : Except ReadError Unit :=
  if condition then .error (.manifestCorrupted reason) else .ok ()

/-- The integer a value is equal to. -/
def number : PyValue F → Option Int
  | .bool b => some (if b then 1 else 0)
  | .int n => some n
  | .float x => PyFloat.toInt? x
  | _ => none

/-- `version in {…}`, of a version that can be hashed. -/
def isOneOf (versions : List Int) (version : PyValue F) : Bool :=
  (number version).any (versions.contains ·)

/-- `_SUPPORTED_SCHEMA_VERSIONS` -/
def supportedSchemaVersions : List Int := [1, 2, 3, 4, 5]

/-- `version in {…}` raises for a list and for a dict. -/
def isIn (versions : List Int) : PyValue F → Except ReadError Bool
  | .list _ | .obj _ => .error .typeError
  | version => .ok (isOneOf versions version)

/-- `value.get(key) if isinstance(value, dict) else None` -/
def at? (key : String) : PyValue F → PyValue F
  | .obj items => get items key
  | _ => .null

/-- `isinstance(value, dict) and key in value` -/
def has (key : String) : PyValue F → Bool
  | .obj items => hasKey items key
  | _ => false

/-- `isinstance(value, dict) and key not in value` -/
def lacks (key : String) : PyValue F → Bool
  | .obj items => !hasKey items key
  | _ => false

/-- `type(value).__name__` -/
def typeName : PyValue F → String
  | .null => "NoneType"
  | .bool _ => "bool"
  | .int _ => "int"
  | .float _ => "float"
  | .str _ => "str"
  | .list _ => "list"
  | .obj _ => "dict"

/-- The required keys that a dict has not, each under the name it is
reported with. -/
def absent (required : List (String × String)) (d : Items F) : List String :=
  (required.filter fun r => !hasKey d r.1).map Prod.snd

variable (python : Python F M)

def checkVersion (data : Items F) : Except ReadError Unit :=
  if hasKey data "schema_version" then do
    let version := get data "schema_version"
    let supported ← isIn supportedSchemaVersions version
    reject (!supported) (py "incompatible schema version " ++ python.str version ++
      py " (this Forge expects [1, 2, 3, 4, 5]). Delete this session and recreate it.")
  else .ok ()

/-- The value under a key, which has to be an object where it is there. -/
def checkObject (key : String) (data : Items F) : Except ReadError (Items F) :=
  match lookup (py key) data with
  | none => .ok []
  | some (.obj items) => .ok items
  | some _ => .error (.manifestCorrupted (py (key ++ " must be an object")))

/-- `intent.proxy`: the fields it lacks. -/
def checkProxy (intent : Items F) : Except ReadError (List String) :=
  match get intent "proxy" with
  | .null => .ok []
  | .obj proxy => .ok (absent [("template", "intent.proxy.template"),
      ("base_url", "intent.proxy.base_url")] proxy)
  | _ => .error (.manifestCorrupted (py "intent.proxy must be an object"))

/-- `intent.launch`: the field it lacks. -/
def checkLaunch (version launch : PyValue F) : Except ReadError (List String) := do
  reject (isOneOf [1] version && has "model_route" launch)
    (py "schema v1 intent.launch cannot contain model_route")
  return if isOneOf [2, 3, 4, 5] version && lacks "model_route" launch
    then ["intent.launch.model_route"] else []

def checkSupervisorField (version supervisor : PyValue F) (field : String) :
    Except ReadError Unit := do
  reject (isOneOf [1, 2] version && has field supervisor)
    (py "schema v" ++ python.str version ++ py (" cannot contain supervisor." ++ field))
  reject (isOneOf [3, 4, 5] version && lacks field supervisor)
    (py "schema v" ++ python.str version ++ py (" requires supervisor." ++ field))

/-- The supervisor of the intent and the one of the overrides. -/
def checkSupervisors (version supervisor overrideSupervisor : PyValue F) :
    Except ReadError Unit := do
  checkSupervisorField python version supervisor "auth_mode"
  checkSupervisorField python version supervisor "supervisor_model"
  reject (!isOneOf [5] version
      && (has "native_source" supervisor || has "native_source" overrideSupervisor))
    (py "Native supervisor source requires schema v5")
  reject (isOneOf [5] version && lacks "native_source" supervisor)
    (py "schema v5 requires supervisor.native_source")
  reject (isOneOf [1, 2, 3] version
      && (has "review_trigger" supervisor || has "review_trigger" overrideSupervisor))
    (py "schema v" ++ python.str version ++ py " cannot contain supervisor.review_trigger")
  reject (isOneOf [4, 5] version && lacks "review_trigger" supervisor)
    (py "schema v" ++ python.str version ++ py " requires supervisor.review_trigger")

/-- `unwrap_optional` -/
def unwrapOptional : PyType FloatText → PyType FloatText
  | .optional type => type
  | type => type

/-- The type of a field, by its name. -/
def fieldType (key : PyStr) : Fields FloatText → Option (PyType FloatText)
  | .done => none
  | .field name type _ rest => if py name = key then some type else fieldType key rest

mutual

/-- `_validate_overrides_dict_against_dataclass` -/
def validateOverrides (fields : Fields FloatText) (path : PyStr) : Items F → Except ReadError Unit
  | [] => .ok ()
  | (key, value) :: rest => do
      reject (key = py "custom") (py "overrides.custom is not supported")
      let keyPath := path ++ py "." ++ key
      match fieldType key fields with
      | none => .error (.manifestCorrupted (py "unknown override key: " ++ keyPath))
      | some type => validateOverride (unwrapOptional type) keyPath value
      validateOverrides fields path rest

/-- A dict overrides a dataclass or a dict. -/
def validateOverride (type : PyType FloatText) (path : PyStr) : PyValue F → Except ReadError Unit
  | .obj items =>
      match type with
      | .dataclass fields _ => validateOverrides fields path items
      | .dict _ => .ok ()
      | _ => .error (.manifestCorrupted (path ++ py " does not support nested override keys"))
  | _ => .ok ()

end

/-- A text or `None`. -/
def isOptionalStr : PyValue F → Bool
  | .null | .str _ => true
  | _ => false

/-- An integer or `None`; a `bool` is an integer. -/
def isOptionalInt : PyValue F → Bool
  | .null | .bool _ | .int _ => true
  | _ => false

/-- `confirmed.started_with_proxy` -/
def checkStartedWithProxy : PyValue F → Except ReadError Unit
  | .null => .ok ()
  | .obj started => do
      let baseUrl := get started "base_url"
      reject (!(isOptionalStr baseUrl && truthy baseUrl))
        (py "confirmed.started_with_proxy.base_url is required")
      reject (!isOptionalStr (get started "proxy_id"))
        (py "confirmed.started_with_proxy.proxy_id must be a string")
      reject (!isOptionalStr (get started "template"))
        (py "confirmed.started_with_proxy.template must be a string")
      reject (!isOptionalInt (get started "port"))
        (py "confirmed.started_with_proxy.port must be an integer")
  | _ => .error (.manifestCorrupted (py "confirmed.started_with_proxy must be an object"))

/-- `_validate_data` -/
def validateData (data : Items F) : Except ReadError Unit := do
  checkVersion python data
  let version := get data "schema_version"
  let overrides ← checkObject "overrides" data
  let intent ← checkObject "intent" data
  let missingProxy ← checkProxy intent
  let missingRoute ← checkLaunch version (get intent "launch")
  checkSupervisors python version (at? "supervisor" (get intent "policy"))
    (at? "supervisor" (get overrides "policy"))
  validateOverrides Session.sessionFields (py "overrides") overrides
  let confirmed ← checkObject "confirmed" data
  checkStartedWithProxy (get confirmed "started_with_proxy")
  let missing := absent [("schema_version", "schema_version"), ("overrides", "overrides"),
    ("name", "name"), ("created_at", "created_at"), ("last_accessed_at", "last_accessed_at"),
    ("intent", "intent")] data ++ missingProxy ++ missingRoute
  if missing = [] then return () else throw (.manifestValidation missing)

/-! ## 3. The upgrade -/

mutual

/-- What a key holds after the merge. -/
def mergeValue (depth : Nat) : PyValue F → Option (PyValue F) → Except ReadError (PyValue F)
  | .obj overrides, some (.obj base) =>
      -- `apply_overrides` again, which begins with a copy
      if python.copies (depth + 1) (.obj base) then do
        return .obj (← mergeItems (depth + 1) overrides base)
      else .error .recursionError
  | .null, _ => .ok .null
  | value, _ => if python.copies depth value then .ok value else .error .recursionError

/-- The loop of `apply_overrides`, with the result so far. -/
def mergeItems (depth : Nat) : Items F → Items F → Except ReadError (Items F)
  | [], result => .ok result
  | (key, value) :: rest, result => do
      let merged ← mergeValue depth value (lookup key result)
      mergeItems depth rest (insert key merged result)

end

/-- `apply_overrides` -/
def applyOverrides (base overrides : Items F) : Except ReadError (Items F) :=
  if python.copies 0 (.obj base) then mergeItems python 0 overrides base
  else .error .recursionError

/-- `(value or {}).get`: what is neither false nor a dict has no `get`. -/
def dictOrEmpty (value : PyValue F) : Except ReadError (Items F) :=
  if truthy value then
    match value with
    | .obj items => .ok items
    | _ => .error .attributeError
  else .ok []

/-- `config["auth_mode"] = "inherit"` and `config["supervisor_model"] = None` -/
def inheritedAuth (config : Items F) : Items F :=
  insert (py "supervisor_model") .null (insert (py "auth_mode") (.str (py "inherit")) config)

/-- The intent of version 1 has no model route, and neither version has the
fields of the supervisor's auth. -/
def projectedIntent (version : PyValue F) (intent : Items F) : Items F :=
  inDict "policy" (inDict "supervisor" inheritedAuth)
    (if isOneOf [1] version then inDict "launch" (insert (py "model_route") .null) intent else intent)

/-- `config["timeout_seconds"] = 45` -/
def boundedTimeout (config : Items F) : Items F :=
  match get config "timeout_seconds" with
  | .int timeout => if timeout > 45 then insert (py "timeout_seconds") (.int 45) config else config
  | _ => config

/-- `if key in config: config[key] = None` -/
def cleared (key : String) (config : Items F) : Items F :=
  if hasKey config key then insert (py key) .null config else config

/-- The body of the loop over the two supervisors. -/
def migrated (lane : PyValue F) (config : Items F) : Except ReadError (Items F) := do
  let config := boundedTimeout config
  let items ← dictOrEmpty lane
  return if isStr "codex" (get items "runtime_id") then cleared "base_url" (cleared "proxy" config)
    else config

/-- An update in place that may raise. -/
def inDictM (key : String) (update : Items F → Except ReadError (Items F)) (d : Items F) :
    Except ReadError (Items F) :=
  match get d key with
  | .obj items => do return insert (py key) (.obj (← update items)) d
  | _ => .ok d

/-- The lane of the supervisor: the bound one, or the one that is in
effect. -/
def supervisorLane (confirmed effective : Items F) : Except ReadError (PyValue F) := do
  let consumerLanes ← dictOrEmpty (get confirmed "consumer_lanes")
  let binding := get consumerLanes "supervisor"
  if truthy binding then
    return get (← dictOrEmpty binding) "lane"
  else
    return get (← dictOrEmpty (get effective "consumer_lanes")) "supervisor"

/-- `upgrade_manifest_for_read`, of a manifest that is valid: its intent is
an object. -/
def upgradeManifestForRead (data : Items F) : Except ReadError (Items F) := do
  let version := get data "schema_version"
  if ← isIn [1, 2] version then
    let data := inDict "intent" (projectedIntent version) data
    let intent ← dictOrEmpty (get data "intent")
    let overrides ← dictOrEmpty (get data "overrides")
    let effective ← applyOverrides python intent overrides
    let confirmed ← dictOrEmpty (get data "confirmed")
    let lane ← supervisorLane confirmed effective
    -- `(overrides.get("policy") or {}).get("supervisor")`
    let _ ← dictOrEmpty (get overrides "policy")
    let data ← inDictM "intent" (inDictM "policy" (inDictM "supervisor" (migrated lane))) data
    let data ← inDictM "overrides" (inDictM "policy" (inDictM "supervisor" (migrated lane))) data
    return insert (py "schema_version") (.int 3) data
  else return data

/-! ## 4. Reading -/

/-- The file of a manifest. -/
inductive File where
  | missing
  /-- opening or reading it raises an `OSError` -/
  | unreadable (reason : PyStr)
  | content (bytes : List UInt8)

/-- `json.load(f)` -/
def load (bytes : List UInt8) : Except ReadError (PyValue F) :=
  match Utf8.decode bytes with
  | none => .error .unicodeDecodeError
  | some text =>
      match pyLoads python.limits (Lines.translate text) with
      | .ok data => .ok data
      | .error .decode => .error (.manifestCorrupted
          (py "invalid JSON: " ++ python.decodeError (Lines.translate text)))
      | .error .digits => .error .valueError
      | .error .recursion => .error .recursionError

/-- `dacite.from_dict` and the handler around it. -/
def deserialize (data : Items F) : Except ReadError M :=
  match python.fromDict data with
  | .ok manifest => .ok manifest
  | .error e => .error (.manifestCorrupted (py "deserialization error: " ++ e))

/-- The state of an object from the file. -/
def readItems (sessionName : PyStr) (data : Items F) : Except ReadError M := do
  let data := stripped data
  validateData python data
  let data ← upgradeManifestForRead python data
  let manifest ← deserialize python data
  reject (python.name manifest ≠ sessionName) (py "manifest names session '" ++
    python.name manifest ++ py "' but lives in directory '" ++ sessionName ++ py "'")
  return manifest

/-- `SessionStore.read` -/
def read (sessionName : PyStr) : File → Except ReadError M
  | .missing => .error .sessionFileNotFound
  | .unreadable reason => .error (.manifestUnreadable (py "read error: " ++ reason))
  | .content bytes => do
      match ← load python bytes with
      | .obj data => readItems python sessionName data
      | data => .error (.manifestCorrupted
          (py "expected a JSON object, got " ++ py (typeName data)))

/-! ## 5. What reading relies on -/

/-- A value that is false or a dict. -/
def DictLike (value : PyValue F) : Prop := truthy value = true → ∃ items, value = .obj items

def Hashable : PyValue F → Prop
  | .list _ | .obj _ => False
  | _ => True

/-- The items of a dict; nothing else has any. -/
def itemsOf : PyValue F → Items F
  | .obj items => items
  | _ => []

/-- The supervisor of an intent is a dict. -/
def HasSupervisor (intent : Items F) : Prop :=
  ∃ policy supervisor, get intent "policy" = .obj policy ∧ get policy "supervisor" = .obj supervisor

/-- The lane that the supervisor is bound to. -/
def bindingOf (confirmed : Items F) : PyValue F :=
  at? "supervisor" (get confirmed "consumer_lanes")

/-- The lane of the supervisor, where its sections are dicts. -/
def laneOf (confirmed effective : Items F) : PyValue F :=
  if truthy (bindingOf confirmed) then at? "lane" (bindingOf confirmed)
  else at? "supervisor" (get effective "consumer_lanes")

/-- What the upgrade of versions 1 and 2 relies on: it can copy what it
merges, and everything that it reads a key of is false or a dict. -/
structure Upgradable (version : PyValue F) (intent overrides confirmed : Items F) : Prop where
  policy : DictLike (get overrides "policy")
  consumerLanes : DictLike (get confirmed "consumer_lanes")
  binding : DictLike (bindingOf confirmed)
  merged : ∃ effective, applyOverrides python (projectedIntent version intent) overrides = .ok effective
    ∧ (truthy (bindingOf confirmed) = false → DictLike (get effective "consumer_lanes"))
    ∧ (HasSupervisor intent ∨ HasSupervisor overrides → DictLike (laneOf confirmed effective))

/-- The dict under a key, or an empty one. -/
def dictAt (key : String) (data : Items F) : Items F := itemsOf (get data key)

/-- What reading an object relies on. -/
structure ReadableItems (data : Items F) : Prop where
  version : Hashable (get data "schema_version")
  upgrade : validateData python (stripped data) = .ok () →
    isOneOf [1, 2] (get data "schema_version") = true →
      Upgradable python (get data "schema_version") (dictAt "intent" (stripped data))
        (dictAt "overrides" (stripped data)) (dictAt "confirmed" data)

/-- What reading a file relies on: it is UTF-8, `json.loads` stays within
the limits of the interpreter, and an object is readable. -/
def Readable : File → Prop
  | .missing | .unreadable _ => True
  | .content bytes => ∃ text, Utf8.decode bytes = some text ∧
      match pyLoads python.limits (Lines.translate text) with
      | .ok (.obj data) => ReadableItems python data
      | .ok _ => True
      | .error e => e = .decode

end Code

/-! ## 6. The validation -/

section Proofs

variable {F M : Type}

/-- What raises nothing but the exceptions that are declared. -/
def Safe {α : Type} (x : Except ReadError α) : Prop := Ends (fun _ => True) ReadError.Declared x

variable {α β : Type}

theorem safe_ok (a : α) : Safe (.ok a : Except ReadError α) := trivial

theorem safe_corrupted (reason : PyStr) : Safe (.error (.manifestCorrupted reason) : Except _ α) :=
  trivial

theorem safe_bind {x : Except ReadError α} {f : α → Except ReadError β} (hx : Safe x)
    (hf : ∀ a, Safe (f a)) : Safe (x >>= f) :=
  Ends.bind hx fun a _ => hf a

theorem safe_reject (condition : Bool) (reason : PyStr) : Safe (reject condition reason) := by
  unfold reject
  split
  · exact safe_corrupted reason
  · exact safe_ok ()

theorem safe_checkObject (key : String) (data : Items F) : Safe (checkObject key data) := by
  unfold checkObject
  split
  · exact safe_ok _
  · exact safe_ok _
  · exact safe_corrupted _

theorem safe_checkProxy (intent : Items F) : Safe (checkProxy intent) := by
  unfold checkProxy
  split
  · exact safe_ok _
  · exact safe_ok _
  · exact safe_corrupted _

mutual

theorem safe_validateOverrides (fields : Fields FloatText) (path : PyStr) :
    ∀ items : Items F, Safe (validateOverrides fields path items)
  | [] => safe_ok _
  | (key, value) :: rest => by
      rw [validateOverrides]
      refine safe_bind (safe_reject _ _) fun _ => ?_
      cases fieldType key fields with
      | none => exact safe_corrupted _
      | some type =>
        exact safe_bind (safe_validateOverride (unwrapOptional type) _ value) fun _ =>
          safe_validateOverrides fields path rest

theorem safe_validateOverride (type : PyType FloatText) (path : PyStr) :
    ∀ value : PyValue F, Safe (validateOverride type path value)
  | .obj items => by
      cases type with
      | dataclass fields _ =>
        rw [validateOverride]
        exact safe_validateOverrides fields path items
      | dict _ => exact safe_ok _
      | _ => exact safe_corrupted _
  | .null | .bool _ | .int _ | .float _ | .str _ | .list _ => safe_ok _

end

theorem hashable_of_absent {key : String} {data : Items F} (h : hasKey data key = false) :
    Hashable (get data key) := by
  have hnone : lookup (py key) data = none := by simpa [hasKey] using h
  rw [PyValue.get, getD, hnone]
  trivial

theorem get_itemsOf (key : String) (value : PyValue F) : get (itemsOf value) key = at? key value := by
  cases value <;> rfl

theorem get_insert (k key : String) (v : PyValue F) (d : Items F) :
    get (insert (py k) v d) key = if k = key then v else get d key := by
  unfold PyValue.get getD
  rw [lookup_insert]
  by_cases hk : k = key
  · rw [if_pos hk, if_pos (congrArg py hk)]
    rfl
  · rw [if_neg hk, if_neg fun h => hk (py_inj.mp h)]

theorem get_inDict_ne {k key : String} (hk : k ≠ key) (update : Items F → Items F) (d : Items F) :
    get (inDict k update d) key = get d key := by
  unfold inDict
  split
  · rw [get_insert, if_neg hk]
  · rfl

theorem get_inDict {key : String} (update : Items F → Items F) (d : Items F) :
    get (inDict key update d) key = match get d key with
      | .obj items => .obj (update items)
      | value => value := by
  unfold inDict
  split
  · rw [get_insert, if_pos rfl]
  · rfl

/-- An update in place changes the dict under its key. -/
theorem dictAt_inDict {key : String} {update : Items F → Items F} (hnil : update [] = [])
    (d : Items F) : dictAt key (inDict key update d) = update (dictAt key d) := by
  unfold dictAt
  rw [get_inDict]
  cases get d key <;> first | rfl | exact hnil.symm

/-- An update in place that may raise, in terms of the dict that it updates. -/
theorem ends_inDictM {P : Items F → Prop} {key : String}
    {update : Items F → Except ReadError (Items F)} {d : Items F} :
    Ends P ReadError.Declared (inDictM key update d) ↔ match get d key with
      | .obj items => Ends (fun items' => P (insert (py key) (.obj items') d)) ReadError.Declared
          (update items)
      | _ => P d := by
  unfold inDictM
  split
  · rw [Ends.bind_iff]
    exact Iff.rfl
  · exact Iff.rfl

section

variable (python : Python F M)

theorem copy_error {depth : Nat} {value : PyValue F} {e : ReadError}
    (h : (if python.copies depth value then .ok value else .error .recursionError :
      Except ReadError (PyValue F)) = .error e) : e = .recursionError := by
  split at h
  · cases h
  · cases h
    rfl

mutual

theorem mergeValue_error (depth : Nat) (e : ReadError) :
    ∀ (value : PyValue F) (base : Option (PyValue F)),
      mergeValue python depth value base = .error e → e = .recursionError
  | .obj overrides, some (.obj base), h => by
      rw [mergeValue] at h
      split at h
      · cases hitems : mergeItems python (depth + 1) overrides base with
        | ok items =>
          rw [hitems] at h
          cases h
        | error e' =>
          rw [hitems] at h
          cases h
          exact mergeItems_error (depth + 1) e overrides base hitems
      · cases h
        rfl
  | .null, _, h => by
      rw [mergeValue] at h
      cases h
  | .obj overrides, none, h => copy_error python h
  | .obj overrides, some .null, h => copy_error python h
  | .obj overrides, some (.bool _), h => copy_error python h
  | .obj overrides, some (.int _), h => copy_error python h
  | .obj overrides, some (.float _), h => copy_error python h
  | .obj overrides, some (.str _), h => copy_error python h
  | .obj overrides, some (.list _), h => copy_error python h
  | .bool _, _, h => copy_error python h
  | .int _, _, h => copy_error python h
  | .float _, _, h => copy_error python h
  | .str _, _, h => copy_error python h
  | .list _, _, h => copy_error python h

theorem mergeItems_error (depth : Nat) (e : ReadError) :
    ∀ overrides result : Items F,
      mergeItems python depth overrides result = .error e → e = .recursionError
  | [], result, h => by
      rw [mergeItems] at h
      cases h
  | (key, value) :: rest, result, h => by
      rw [mergeItems] at h
      cases hvalue : mergeValue python depth value (lookup key result) with
      | error e' =>
        rw [hvalue] at h
        cases h
        exact mergeValue_error depth e value _ hvalue
      | ok merged =>
        rw [hvalue] at h
        exact mergeItems_error depth e rest _ h

end

/-- A merge raises `RecursionError` or nothing. -/
theorem ends_applyOverrides {P : Items F → Prop} (base overrides : Items F) :
    Ends P ReadError.Declared (applyOverrides python base overrides) ↔
      ∃ effective, applyOverrides python base overrides = .ok effective ∧ P effective := by
  cases happly : applyOverrides python base overrides with
  | ok effective => exact ⟨fun h => ⟨effective, rfl, h⟩, fun ⟨_, heq, h⟩ => by cases heq; exact h⟩
  | error e =>
    have he : e = .recursionError := by
      unfold applyOverrides at happly
      split at happly
      · exact mergeItems_error python 0 e overrides base happly
      · cases happly
        rfl
    subst he
    exact ⟨False.elim, fun ⟨_, heq, _⟩ => by cases heq⟩

end

variable [PyFloatText F]

theorem safe_checkLaunch (version launch : PyValue F) : Safe (checkLaunch version launch) :=
  safe_bind (safe_reject _ _) fun _ => safe_ok _

theorem safe_checkStartedWithProxy (value : PyValue F) : Safe (checkStartedWithProxy value) := by
  unfold checkStartedWithProxy
  split
  · exact safe_ok _
  · exact safe_bind (safe_reject _ _) fun _ => safe_bind (safe_reject _ _) fun _ =>
      safe_bind (safe_reject _ _) fun _ => safe_reject _ _
  · exact safe_corrupted _

variable (python : Python F M)

theorem safe_checkSupervisors (version supervisor overrideSupervisor : PyValue F) :
    Safe (checkSupervisors python version supervisor overrideSupervisor) := by
  have hfield : ∀ field, Safe (checkSupervisorField python version supervisor field) :=
    fun field => safe_bind (safe_reject _ _) fun _ => safe_reject _ _
  exact safe_bind (hfield _) fun _ => safe_bind (hfield _) fun _ =>
    safe_bind (safe_reject _ _) fun _ => safe_bind (safe_reject _ _) fun _ =>
    safe_bind (safe_reject _ _) fun _ => safe_reject _ _

/-- What is safe whatever came before it. -/
theorem safe_seq {x : Except ReadError Unit} {y : Except ReadError α} (hy : Safe y) :
    Safe (x >>= fun _ => y) ↔ Safe x := by
  rw [Safe, Ends.bind_iff]
  exact Ends.congr fun _ => ⟨fun _ => trivial, fun _ => hy⟩

theorem ends_isIn {P : Bool → Prop} (versions : List Int) (version : PyValue F) :
    Ends P ReadError.Declared (isIn versions version) ↔
      Hashable version ∧ P (isOneOf versions version) := by
  cases version with
  | list _ => exact ⟨False.elim, fun h => h.1⟩
  | obj _ => exact ⟨False.elim, fun h => h.1⟩
  | _ => exact ⟨fun h => ⟨trivial, h⟩, fun h => h.2⟩

theorem safe_checkVersion (data : Items F) :
    Safe (checkVersion python data) ↔ Hashable (get data "schema_version") := by
  unfold checkVersion
  cases hkey : hasKey data "schema_version" with
  | false => exact ⟨fun _ => hashable_of_absent hkey, fun _ => trivial⟩
  | true =>
    rw [if_pos rfl, Safe, Ends.bind_iff, ends_isIn]
    exact ⟨fun h => h.1, fun h => ⟨h, safe_reject _ _⟩⟩

/-- The validation raises what is declared, but for a version that cannot
be hashed. -/
theorem safe_validateData (data : Items F) :
    Safe (validateData python data) ↔ Hashable (get data "schema_version") := by
  rw [← safe_checkVersion python, validateData]
  refine safe_seq ?_
  refine safe_bind (safe_checkObject _ _) fun overrides => ?_
  refine safe_bind (safe_checkObject _ _) fun intent => ?_
  refine safe_bind (safe_checkProxy _) fun missingProxy => ?_
  refine safe_bind (safe_checkLaunch _ _) fun missingRoute => ?_
  refine safe_bind (safe_checkSupervisors python _ _ _) fun _ => ?_
  refine safe_bind (safe_validateOverrides _ _ _) fun _ => ?_
  refine safe_bind (safe_checkObject _ _) fun confirmed => ?_
  refine safe_bind (safe_checkStartedWithProxy _) fun _ => ?_
  dsimp only
  split
  · exact safe_ok ()
  · exact trivial

/-! ## 7. The upgrade -/

theorem dictLike_obj (items : Items F) : DictLike (.obj items) := fun _ => ⟨items, rfl⟩

theorem dictLike_of_checkObject {key : String} {data items : Items F}
    (h : checkObject key data = .ok items) : DictLike (get data key) := by
  unfold checkObject at h
  unfold PyValue.get getD
  split at h
  · rename_i hnone
    rw [hnone]
    exact fun htrue => absurd htrue Bool.false_ne_true
  · rename_i hsome
    rw [hsome]
    exact dictLike_obj _
  · cases h

/-- The sections of a valid manifest are dicts where they are there. -/
theorem sections_of_valid {data : Items F} (h : validateData python data = .ok ()) :
    DictLike (get data "overrides") ∧ DictLike (get data "intent")
      ∧ DictLike (get data "confirmed") := by
  rw [validateData] at h
  obtain ⟨_, -, h⟩ := bind_ok.mp h
  obtain ⟨overrides, ho, h⟩ := bind_ok.mp h
  obtain ⟨intent, hi, h⟩ := bind_ok.mp h
  obtain ⟨_, -, h⟩ := bind_ok.mp h
  obtain ⟨_, -, h⟩ := bind_ok.mp h
  obtain ⟨_, -, h⟩ := bind_ok.mp h
  obtain ⟨_, -, h⟩ := bind_ok.mp h
  obtain ⟨confirmed, hc, -⟩ := bind_ok.mp h
  exact ⟨dictLike_of_checkObject ho, dictLike_of_checkObject hi, dictLike_of_checkObject hc⟩

theorem itemsOf_of_falsy {value : PyValue F} (h : truthy value ≠ true) : itemsOf value = [] := by
  cases value with
  | obj items => cases items with
    | nil => rfl
    | cons item rest => exact absurd rfl h
  | _ => rfl

/-- `(value or {})` can be used as a dict. -/
theorem ends_dictOrEmpty {P : Items F → Prop} (value : PyValue F) :
    Ends P ReadError.Declared (dictOrEmpty value) ↔ DictLike value ∧ P (itemsOf value) := by
  unfold dictOrEmpty
  split
  · rename_i htrue
    split
    · exact ⟨fun h => ⟨dictLike_obj _, h⟩, fun h => h.2⟩
    · rename_i hnot
      exact ⟨False.elim, fun h => (h.1 htrue).elim fun items heq => hnot items heq⟩
  · rename_i hfalse
    rw [itemsOf_of_falsy hfalse]
    exact ⟨fun h => ⟨fun htrue => absurd htrue hfalse, h⟩, fun h => h.2⟩

/-- The lane can be read if the sections on the way to it are dicts. -/
theorem ends_supervisorLane {P : PyValue F → Prop} (confirmed effective : Items F) :
    Ends P ReadError.Declared (supervisorLane confirmed effective) ↔
      DictLike (get confirmed "consumer_lanes") ∧ DictLike (bindingOf confirmed)
        ∧ (truthy (bindingOf confirmed) = false → DictLike (get effective "consumer_lanes"))
        ∧ P (laneOf confirmed effective) := by
  rw [supervisorLane, Ends.bind_iff, ends_dictOrEmpty]
  refine and_congr_right fun _ => ?_
  dsimp only
  rw [get_itemsOf, ← bindingOf, laneOf]
  cases hbinding : truthy (bindingOf confirmed) with
  | true =>
    rw [if_pos rfl, if_pos rfl, Ends.bind_iff, ends_dictOrEmpty, get_itemsOf]
    exact ⟨fun h => ⟨h.1, fun hf => absurd hf.symm Bool.false_ne_true, h.2⟩, fun h => ⟨h.1, h.2.2⟩⟩
  | false =>
    rw [if_neg Bool.false_ne_true, if_neg Bool.false_ne_true, Ends.bind_iff, ends_dictOrEmpty,
      get_itemsOf]
    refine ⟨fun h => ⟨fun htrue => ?_, fun _ => h.1, h.2⟩, fun h => ⟨h.2.1 rfl, h.2.2⟩⟩
    rw [hbinding] at htrue
    exact absurd htrue Bool.false_ne_true

theorem dictLike_inDict {key : String} {update : Items F → Items F} {d : Items F}
    (h : DictLike (get d key)) : DictLike (get (inDict key update d) key) := by
  rw [get_inDict]
  split
  · exact dictLike_obj _
  · exact h

/-- The supervisor stays where it is when another section changes. -/
theorem hasSupervisor_projected (version : PyValue F) (intent : Items F) :
    HasSupervisor (projectedIntent version intent) ↔ HasSupervisor intent := by
  have hpolicy : ∀ d : Items F, HasSupervisor (inDict "policy" (inDict "supervisor" inheritedAuth) d)
      ↔ HasSupervisor d := by
    intro d
    unfold HasSupervisor
    rw [get_inDict]
    cases hp : get d "policy" with
    | obj policy =>
      constructor
      · rintro ⟨policy', supervisor, heq, hs⟩
        cases heq
        rw [get_inDict] at hs
        cases hs' : get policy "supervisor" with
        | obj items => exact ⟨policy, items, rfl, hs'⟩
        | _ => rw [hs'] at hs; cases hs
      · rintro ⟨policy', supervisor, heq, hs⟩
        cases heq
        refine ⟨_, inheritedAuth supervisor, rfl, ?_⟩
        rw [get_inDict, hs]
    | _ => exact Iff.rfl
  have hlaunch : HasSupervisor (inDict "launch" (insert (py "model_route") .null) intent)
      ↔ HasSupervisor intent := by
    unfold HasSupervisor
    rw [get_inDict_ne (by decide)]
  unfold projectedIntent
  rw [hpolicy]
  split
  · exact hlaunch
  · exact Iff.rfl

theorem projectedIntent_nil (version : PyValue F) : projectedIntent version [] = [] := by
  unfold projectedIntent
  split <;> rfl

/-- The migration of a section, where what follows reads another one. -/
theorem ends_migrateSection {P : Items F → Prop} {key : String} {lane : PyValue F} {d : Items F}
    (hP : ∀ items, P (insert (py key) (.obj items) d) ↔ P d) :
    Ends P ReadError.Declared
        (inDictM key (inDictM "policy" (inDictM "supervisor" (migrated lane))) d) ↔
      (HasSupervisor (dictAt key d) → DictLike lane) ∧ P d := by
  rw [ends_inDictM]
  unfold dictAt
  cases hsection : get d key with
  | obj items =>
    dsimp only [itemsOf]
    rw [ends_inDictM]
    cases hpolicy : get items "policy" with
    | obj policy =>
      dsimp only
      rw [ends_inDictM]
      cases hsupervisor : get policy "supervisor" with
      | obj config =>
        have hhas : HasSupervisor items := ⟨policy, config, hpolicy, hsupervisor⟩
        dsimp only
        rw [migrated, Ends.bind_iff, ends_dictOrEmpty]
        exact ⟨fun h => ⟨fun _ => h.1, (hP _).mp h.2⟩, fun h => ⟨h.1 hhas, (hP _).mpr h.2⟩⟩
      | _ =>
        have hno : ¬ HasSupervisor items := by
          rintro ⟨policy', config, hp, hs⟩
          cases hpolicy.symm.trans hp
          cases hsupervisor.symm.trans hs
        exact ⟨fun h => ⟨fun hhas => absurd hhas hno, (hP _).mp h⟩, fun h => (hP _).mpr h.2⟩
    | _ =>
      have hno : ¬ HasSupervisor items := by
        rintro ⟨policy, config, hp, -⟩
        cases hpolicy.symm.trans hp
      exact ⟨fun h => ⟨fun hhas => absurd hhas hno, (hP _).mp h⟩, fun h => (hP _).mpr h.2⟩
  | _ =>
    have hno : ¬ HasSupervisor ([] : Items F) := by
      rintro ⟨policy, config, hp, -⟩
      cases hp
    exact ⟨fun h => ⟨fun hhas => absurd hhas hno, h⟩, fun h => h.2⟩

/-- The migration of both supervisors. -/
theorem safe_migrateBoth (version lane : PyValue F) (d : Items F) :
    Safe (do
        let data ← inDictM "intent" (inDictM "policy" (inDictM "supervisor" (migrated lane))) d
        let data ← inDictM "overrides" (inDictM "policy" (inDictM "supervisor" (migrated lane))) data
        return insert (py "schema_version") version data) ↔
      (HasSupervisor (dictAt "intent" d) ∨ HasSupervisor (dictAt "overrides" d) → DictLike lane) := by
  have hsecond : ∀ d : Items F, Safe (do
        let data ← inDictM "overrides" (inDictM "policy" (inDictM "supervisor" (migrated lane))) d
        return insert (py "schema_version") version data) ↔
      (HasSupervisor (dictAt "overrides" d) → DictLike lane) := by
    intro d
    rw [Safe, Ends.bind_iff, ends_migrateSection fun _ => Iff.rfl]
    exact and_iff_left trivial
  have hother : ∀ items, dictAt "overrides" (insert (py "intent") (.obj items) d)
      = dictAt "overrides" d := by
    intro items
    rw [dictAt, get_insert, if_neg (by decide), dictAt]
  rw [Safe, Ends.bind_iff]
  refine (ends_migrateSection fun items => ?_).trans ?_
  · exact (hsecond _).trans (by rw [hother]; exact (hsecond d).symm)
  · rw [show Ends (fun _ => True) ReadError.Declared _ = Safe _ from rfl, hsecond d]
    exact ⟨fun h hor => hor.elim h.1 h.2, fun h => ⟨fun hi => h (.inl hi), fun ho => h (.inr ho)⟩⟩

/-- **The upgrade** of a valid manifest raises nothing exactly when it can
read what it reads. -/
theorem safe_upgrade {data : Items F} (hvalid : validateData python data = .ok ())
    (hversion : Hashable (get data "schema_version")) :
    Safe (upgradeManifestForRead python data) ↔
      (isOneOf [1, 2] (get data "schema_version") = true →
        Upgradable python (get data "schema_version") (dictAt "intent" data)
          (dictAt "overrides" data) (dictAt "confirmed" data)) := by
  obtain ⟨hoverrides, hintent, hconfirmed⟩ := sections_of_valid python hvalid
  rw [Safe, upgradeManifestForRead, Ends.bind_iff, ends_isIn]
  cases hold : isOneOf [1, 2] (get data "schema_version") with
  | false => exact ⟨fun _ h => absurd h Bool.false_ne_true, fun _ => ⟨hversion, trivial⟩⟩
  | true =>
    have hitems : dictAt "intent" (inDict "intent" (projectedIntent (get data "schema_version")) data)
        = projectedIntent (get data "schema_version") (dictAt "intent" data) :=
      dictAt_inDict (projectedIntent_nil _) data
    have hothers : ∀ key, "intent" ≠ key → get (inDict "intent"
        (projectedIntent (get data "schema_version")) data) key = get data key :=
      fun key hkey => get_inDict_ne hkey _ data
    have hsame : dictAt "overrides" (inDict "intent"
        (projectedIntent (get data "schema_version")) data) = dictAt "overrides" data := by
      rw [dictAt, hothers "overrides" (by decide), dictAt]
    rw [and_iff_right hversion, if_pos rfl, Ends.bind_iff, ends_dictOrEmpty,
      and_iff_right (dictLike_inDict hintent), Ends.bind_iff, ends_dictOrEmpty,
      hothers "overrides" (by decide), and_iff_right hoverrides, Ends.bind_iff,
      ends_applyOverrides, ← dictAt, hitems, ← dictAt]
    have hrest : ∀ effective, Safe (do
        let confirmed ← dictOrEmpty (get (inDict "intent"
          (projectedIntent (get data "schema_version")) data) "confirmed")
        let lane ← supervisorLane confirmed effective
        let _ ← dictOrEmpty (get (dictAt "overrides" data) "policy")
        let data' ← inDictM "intent" (inDictM "policy" (inDictM "supervisor" (migrated lane)))
          (inDict "intent" (projectedIntent (get data "schema_version")) data)
        let data' ← inDictM "overrides" (inDictM "policy" (inDictM "supervisor" (migrated lane)))
          data'
        return insert (py "schema_version") (.int 3) data') ↔
        DictLike (get (dictAt "confirmed" data) "consumer_lanes")
          ∧ DictLike (bindingOf (dictAt "confirmed" data))
          ∧ (truthy (bindingOf (dictAt "confirmed" data)) = false →
              DictLike (get effective "consumer_lanes"))
          ∧ DictLike (get (dictAt "overrides" data) "policy")
          ∧ (HasSupervisor (dictAt "intent" data) ∨ HasSupervisor (dictAt "overrides" data) →
              DictLike (laneOf (dictAt "confirmed" data) effective)) := by
      intro effective
      rw [hothers "confirmed" (by decide), Safe, Ends.bind_iff, ends_dictOrEmpty,
        and_iff_right hconfirmed, Ends.bind_iff, ends_supervisorLane, Ends.bind_iff,
        ends_dictOrEmpty, ← Safe, safe_migrateBoth, hitems, hasSupervisor_projected, hsame]
      exact Iff.rfl
    constructor
    · rintro ⟨effective, happly, h⟩ -
      obtain ⟨hlanes, hbinding, hunbound, hpolicy, hlane⟩ := (hrest effective).mp h
      exact ⟨hpolicy, hlanes, hbinding, effective, happly, hunbound, hlane⟩
    · intro h
      obtain ⟨hpolicy, hlanes, hbinding, effective, happly, hunbound, hlane⟩ := h rfl
      exact ⟨effective, happly,
        (hrest effective).mpr ⟨hlanes, hbinding, hunbound, hpolicy, hlane⟩⟩

/-! ## 9. Reading -/

omit [PyFloatText F] in
/-- The strippers leave the other sections alone. -/
theorem get_stripped {data : Items F} {key : String} (hintent : "intent" ≠ key)
    (hoverrides : "overrides" ≠ key) : get (stripped data) key = get data key := by
  simp only [stripped, stripRemovedSupervisorRuntime, stripPreviewMemoryDocLists,
    stripRemovedMemoryGeneratedFile, inSections, get_inDict_ne hintent, get_inDict_ne hoverrides]

omit [PyFloatText F] in
/-- What comes after the upgrade raises what is declared, and the state that
it gives is the one of the session. -/
theorem ends_deserialize (sessionName : PyStr) (data : Items F) :
    Ends (fun manifest => python.name manifest = sessionName) ReadError.Declared (do
      let manifest ← deserialize python data
      reject (python.name manifest ≠ sessionName) (py "manifest names session '" ++
        python.name manifest ++ py "' but lives in directory '" ++ sessionName ++ py "'")
      return manifest) := by
  unfold deserialize
  cases python.fromDict data with
  | error e => exact trivial
  | ok manifest =>
    by_cases hname : python.name manifest = sessionName
    · have hpass : reject (decide (python.name manifest ≠ sessionName)) (py "manifest names session '" ++
          python.name manifest ++ py "' but lives in directory '" ++ sessionName ++ py "'")
          = .ok () := by simp [reject, hname]
      show Ends _ _ (reject _ _ >>= fun _ => .ok manifest)
      rw [hpass]
      exact hname
    · have hfail : reject (decide (python.name manifest ≠ sessionName)) (py "manifest names session '" ++
          python.name manifest ++ py "' but lives in directory '" ++ sessionName ++ py "'")
          = .error (.manifestCorrupted (py "manifest names session '" ++
            python.name manifest ++ py "' but lives in directory '" ++ sessionName ++ py "'")) := by
        simp [reject, hname]
      show Ends _ _ (reject _ _ >>= fun _ => .ok manifest)
      rw [hfail]
      exact trivial

theorem ends_readItems (sessionName : PyStr) (data : Items F) :
    Ends (fun manifest => python.name manifest = sessionName) ReadError.Declared
      (readItems python sessionName data) ↔ ReadableItems python data := by
  have hversion : get (stripped data) "schema_version" = get data "schema_version" :=
    get_stripped (by decide) (by decide)
  have hconfirmed : dictAt "confirmed" (stripped data) = dictAt "confirmed" data := by
    rw [dictAt, get_stripped (by decide) (by decide), dictAt]
  have hsafe := safe_validateData python (stripped data)
  rw [hversion] at hsafe
  rw [readItems, Ends.bind_iff]
  cases hvalid : validateData python (stripped data) with
  | error e =>
    rw [hvalid] at hsafe
    exact ⟨fun h => ⟨hsafe.mp h, fun hok => by rw [hvalid] at hok; cases hok⟩,
      fun h => hsafe.mpr h.version⟩
  | ok _ =>
    have hhash : Hashable (get data "schema_version") := by
      rw [hvalid] at hsafe
      exact hsafe.mp trivial
    have hupgrade := safe_upgrade python hvalid (hversion.symm ▸ hhash)
    rw [hversion, hconfirmed] at hupgrade
    show Ends _ _ (upgradeManifestForRead python (stripped data) >>= _) ↔ _
    rw [Ends.bind_iff, Ends.congr fun upgraded =>
      iff_true_intro (ends_deserialize python sessionName upgraded), ← Safe, hupgrade]
    exact ⟨fun h => ⟨hhash, fun _ => h⟩, fun h => h.upgrade hvalid⟩

end Proofs

end MultiForge.Session.ManifestRead
