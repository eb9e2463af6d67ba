/-
MultiForge.Policy.TurnEvidence — what a Stop review looks at.

A snapshot of a worktree is kept in the evidence storage as a manifest and
named by its reference. `compare` turns two snapshots and the actions that
were observed between them into the evidence a reviewer is shown; every
gap of it is an omission, and evidence with an omission is not complete.
`rebasePending` carries the observed changes of an earlier prompt over to
the snapshot of a new one.

The storage is what `load` finds in it and what `difflib` makes of two of
its blobs; SHA-256 is a function into texts of 64 hex digits.
-/
import MultiForge.Lib.Dict
import MultiForge.Session.Events

namespace MultiForge.Policy

open Json
open Session (isLowerHex)

/-! ## 1. Identities -/

/-- `_hex` does not raise -/
def isHex (size : Nat) (s : String) : Bool :=
  s.toList.length == size && s.toList.all isLowerHex

/-- A text of lowercase hex digits, as `hexdigest()` and `uuid4().hex` give it. -/
structure Hex (size : Nat) where
  text : String
  hex : isHex size text = true
  deriving DecidableEq

def hexDigit (c : Char) : Nat := if c ≤ '9' then c.toNat - 48 else c.toNat - 87

/-- `UUID(value).int` of the canonical text of a UUID -/
def uuidInt (s : String) : Nat :=
  (s.toList.filter (· ≠ '-')).foldl (fun n c => 16 * n + hexDigit c) 0

/-- `str(UUID(value)) == value`: lowercase hex digits and four hyphens in
their places. -/
def isCanonicalUuid (s : String) : Bool :=
  (s.toList.map (· == '-')) == (List.range 36).map (decide <| · ∈ [8, 13, 18, 23])
    && (s.toList.filter (· ≠ '-')).all isLowerHex

/-- `UUID(value).version == 7`, which is also `None` for another variant -/
def isVersion7 (s : String) : Bool :=
  uuidInt s / 2 ^ 62 % 4 == 2 && uuidInt s / 2 ^ 76 % 16 == 7

/-- `_native_id` does not raise -/
def isNativeId (s : String) : Bool := isCanonicalUuid s && isVersion7 s

/-- The identity of a native turn or thread. -/
structure NativeId where
  text : String
  native : isNativeId text = true
  deriving DecidableEq

/-- `UUID(turn).int` -/
def NativeId.int (t : NativeId) : Nat := uuidInt t.text

theorem NativeId.int_pos (t : NativeId) : 0 < t.int := by
  have hv := t.native
  simp only [isNativeId, isVersion7, Bool.and_eq_true, beq_iff_eq] at hv
  have h := hv.2.2
  show 0 < uuidInt t.text
  omega

/-- `sorted(set(xs))` -/
def sortedSet (xs : List String) : List String := xs.dedup.insertionSort (· ≤ ·)

/-- A string for each value, in a list. -/
def strList {F : Type} (xs : List String) : Json F := .list (xs.map .str)

/-! ## 2. Snapshots -/

/-- The reference `capture` returns. -/
structure SnapshotRef where
  digest : Hex 64
  root : String
  files : Nat
  omissions : List String
  deriving DecidableEq

/-- A file of a manifest; a field that is `none` is not in the dict. -/
structure FileItem where
  mode : Option Nat
  size : Option Nat
  digest : Option String
  unsupported : Option String
  target : Option String
  mtimeNs : Option Nat
  deriving DecidableEq

/-- A snapshot as it is stored. -/
structure Manifest where
  root : String
  gitDir : String
  head : String
  indexDigest : String
  files : Dict String FileItem
  omissions : List String
  deriving DecidableEq

/-- What reading the evidence raises: an error that the callers catch, with
the name of its type, or another one. -/
inductive Failure where
  | expected (type : String)
  | other
  deriving DecidableEq

/-- The evidence storage at one moment. -/
structure Storage where
  /-- `load(storage, reference)` -/
  load : SnapshotRef → Except Failure Manifest
  /-- the diff of two blobs, or `none` over the input limit -/
  diff : String → Option FileItem → Option FileItem → Except Failure (Option String)

/-! ## 3. Actions -/

inductive Phase where
  | request
  | outcome
  | denied
  deriving DecidableEq

def Phase.text : Phase → String
  | .request => "request"
  | .outcome => "outcome"
  | .denied => "denied"

variable {F : Type}

/-- An observed tool event, as the hook builds it. -/
structure Action (F : Type) where
  id : String
  phase : Phase
  turnId : NativeId
  tool : String
  /-- the input and the response, when they are small enough to keep -/
  values : Option (Json F × Json F)
  evidenceSha256 : Option String
  coverageIssue : Option String
  paths : Option (List String)
  deriving DecidableEq

/-- An item that is there when a field is set. -/
def optItem {α : Type} (key : String) (write : α → Json F) : Option α → List (String × Json F)
  | none => []
  | some a => [(key, write a)]

def Action.items (a : Action F) : List (String × Json F) :=
  [("id", .str a.id), ("phase", .str a.phase.text), ("turn_id", .str a.turnId.text),
    ("tool", .str a.tool)]
    ++ optItem "input" (fun v => v) (a.values.map Prod.fst)
    ++ optItem "response" (fun v => v) (a.values.map Prod.snd)
    ++ optItem "evidence_sha256" .str a.evidenceSha256
    ++ optItem "coverage_issue" .str a.coverageIssue
    ++ optItem "paths" strList a.paths

/-- The same event in the same turn, in a phase. -/
def Action.is (a : Action F) (phase : Phase) (turn : NativeId) (id : String) : Bool :=
  a.phase == phase && a.turnId == turn && a.id == id

/-- An observed outcome. -/
def Action.isOutcome (a : Action F) : Bool := a.phase == .outcome

/-! ## 4. `compare` -/

inductive ChangeKind where
  | add
  | delete
  | modify
  deriving DecidableEq

def ChangeKind.text : ChangeKind → String
  | .add => "add"
  | .delete => "delete"
  | .modify => "modify"

structure FileChange where
  path : String
  before : Option FileItem
  after : Option FileItem
  diff : Option String
  kind : Option ChangeKind
  renamedFrom : Option String
  deriving DecidableEq

/-- The evidence of a turn. Over the limit only counts are left of it. -/
inductive Detail (F : Type) where
  | full (before after : SnapshotRef) (changes : List FileChange) (actions : List (Action F))
  | counts (ends : Option (SnapshotRef × SnapshotRef)) (changes actions : Nat)

structure Evidence (F : Type) where
  detail : Detail F
  omissions : List String
  complete : Bool
  provenanceTurns : Option (List NativeId)

/-- `evidence.get("changes", [])` -/
def Evidence.changes (e : Evidence F) : List FileChange :=
  match e.detail with
  | .full _ _ changes _ => changes
  | .counts .. => []

/-- `evidence.get("actions", [])` -/
def Evidence.actions (e : Evidence F) : List (Action F) :=
  match e.detail with
  | .full _ _ _ actions => actions
  | .counts .. => []

def FileItem.toJson (i : FileItem) : Json F :=
  .obj (optItem "mode" (.int ·) i.mode ++ optItem "size" (.int ·) i.size
    ++ optItem "digest" .str i.digest ++ optItem "unsupported" .str i.unsupported
    ++ optItem "target" .str i.target ++ optItem "mtime_ns" (.int ·) i.mtimeNs)

def optJson {α : Type} (write : α → Json F) : Option α → Json F
  | none => .null
  | some a => write a

def FileChange.toJson (c : FileChange) : Json F :=
  .obj ([("path", .str c.path), ("before", optJson FileItem.toJson c.before),
      ("after", optJson FileItem.toJson c.after)]
    ++ optItem "diff" .str c.diff ++ optItem "kind" (.str ·.text) c.kind
    ++ optItem "renamed_from" .str c.renamedFrom)

def Detail.items : Detail F → List (String × Json F)
  | .full before after changes actions =>
      [("representation", .str "raw working bytes; executable Git filters are not run"),
        ("scope", .str ("Repository delta and observed tools only; ignored/external effects " ++
          "and author attribution are unverified.")),
        ("before", .str before.digest.text), ("after", .str after.digest.text),
        ("changes", .list (changes.map FileChange.toJson)),
        ("actions", .list (actions.map fun a => .obj a.items))]
  | .counts ends changes actions =>
      optItem "before" (.str ·.1.digest.text) ends ++ optItem "after" (.str ·.2.digest.text) ends
        ++ [("changes_count", .int changes), ("actions_count", .int actions)]

def Evidence.toJson (e : Evidence F) : Json F :=
  .obj (e.detail.items
    ++ [("omissions", strList e.omissions), ("complete", .bool e.complete)]
    ++ optItem "provenance_turns" (fun turns => .list (turns.map (.str ·.text))) e.provenanceTurns)

/-- The parts of a `PurePosixPath`. -/
def pathParts (s : String) : List String := (s.splitOn "/").filter fun p => p ≠ "" ∧ p ≠ "."

/-- The root of a `PurePosixPath`: exactly two slashes are kept. -/
def pathRoot (s : String) : String :=
  match s.toList with
  | '/' :: '/' :: '/' :: _ => "/"
  | '/' :: '/' :: _ => "//"
  | '/' :: _ => "/"
  | _ => ""

/-- `Path(s).is_absolute()` -/
def isAbsolute (s : String) : Bool := pathRoot s ≠ ""

/-- `path.relative_to(root)`, and `None` where it raises. -/
def relativeTo (root path : String) : Option (List String) :=
  if pathRoot path = pathRoot root ∧ (pathParts root).isPrefixOf (pathParts path) then
    some ((pathParts path).drop (pathParts root).length)
  else none

/-- `PurePosixPath(*parts).as_posix()` -/
def asPosix (parts : List String) : String :=
  if parts.isEmpty then "." else "/".intercalate parts

/-- Does a path of a tool lie in one of two snapshots? -/
def inSnapshots (old new : Manifest) (value : String) : Bool :=
  let parts :=
    if pathRoot value = "" then some (pathParts value) else relativeTo old.root value
  parts.any fun p => (old.files.get? (asPosix p)).isSome || (new.files.get? (asPosix p)).isSome

/-- What the actions of a turn leave out. -/
def actionOmissions (old new : Manifest) (a : Action F) : List String :=
  (((a.paths.getD []).filter fun value => !inSnapshots old new value).map
      fun _ => "tool_path_outside_snapshot")
    ++ a.coverageIssue.toList

/-- The change of one path and the omissions it causes. -/
def compareFile (st : Storage) (old new : Manifest) (path : String) :
    Except Failure (List FileChange × List String) :=
  let left := old.files.get? path
  let right := new.files.get? path
  if left = right then .ok ([], [])
  else
    let change : FileChange := ⟨path, left, right, none, none, none⟩
    if (left.bind (·.unsupported)).isSome || (right.bind (·.unsupported)).isSome then
      .ok ([change], ["unsupported_change:" ++ path])
    else
      match st.diff path left right with
      | .error e => .error e
      | .ok none => .ok ([change], ["diff_input_limit:" ++ path])
      | .ok (some diff) =>
          let kind : ChangeKind :=
            if left.isNone then .add else if right.isNone then .delete else .modify
          .ok ([⟨path, left, right, some diff, some kind, none⟩], [])

/-- `renamed_from` of a change -/
def markRename (changes : List FileChange) (c : FileChange) : FileChange :=
  if c.kind = some .add then
    match changes.reverse.find? fun d =>
        d.kind == some .delete && d.before.bind (·.digest) == c.after.bind (·.digest) with
    | some d => { c with renamedFrom := some d.path }
    | none => c
  else c

def sameRepository (a b : Manifest) : Bool :=
  a.root == b.root && a.gitDir == b.gitDir && a.head == b.head && a.indexDigest == b.indexDigest

def MAX_EVIDENCE_BYTES : Nat := 24000

variable [PyFloatText F]

/-- `len(json.dumps(evidence, sort_keys=True).encode())` -/
def Evidence.size (e : Evidence F) : Nat := (dumpChars .default (sortKeys e.toJson)).length

/-- `compare` -/
def compare (st : Storage) (before after : SnapshotRef) (actions : List (Action F)) :
    Except Failure (Evidence F) := do
  let old ← st.load before
  let new ← st.load after
  let paths := sortedSet (old.files.entries.map Prod.fst ++ new.files.entries.map Prod.fst)
  let found ← paths.mapM (compareFile st old new)
  let changes := (found.map Prod.fst).flatten
  let changes := changes.map (markRename changes)
  -- a denied action has no mutation to cover
  let actions := actions.filter fun a => !actions.any (·.is .denied a.turnId a.id)
  let paired := actions.all fun a =>
    actions.any (·.is .request a.turnId a.id) == actions.any (·.is .outcome a.turnId a.id)
  let omissions := sortedSet (old.omissions ++ new.omissions
    ++ (if sameRepository old new then [] else ["repository_identity_or_index_changed"])
    ++ (found.map Prod.snd).flatten
    ++ (if paired then [] else ["missing_tool_event"])
    ++ (if !changes.isEmpty && actions.isEmpty then ["changes_without_observed_actions"] else [])
    ++ actions.flatMap (actionOmissions old new))
  let evidence : Evidence F :=
    ⟨.full before after changes actions, omissions, omissions.isEmpty, none⟩
  if MAX_EVIDENCE_BYTES < evidence.size then
    return ⟨.counts (some (before, after)) changes.length actions.length,
      ["review_prompt_byte_limit"], false, none⟩
  return evidence

/-! ## 5. `rebase_pending` -/

def Manifest.toJson (m : Manifest) : Json F :=
  .obj [("schema", .int 1), ("root", .str m.root), ("git_dir", .str m.gitDir),
    ("head", .str m.head), ("index_digest", .str m.indexDigest),
    ("files", .obj (m.files.entries.map fun kv => (kv.1, kv.2.toJson))),
    ("omissions", strList m.omissions)]

variable (sha256 : List Char → Hex 64)

/-- `digest(value)` -/
def digest (v : Json F) : Hex 64 := sha256 (dumpChars .compact (sortKeys v))

/-- A path that changed between two snapshots, on top of a third one. -/
def rebaseFile (before finish start : Manifest) (result : Dict String FileItem × List String)
    (path : String) : Dict String FileItem × List String :=
  if before.files.get? path = finish.files.get? path then result
  else if start.files.get? path ≠ finish.files.get? path then (result.1, result.2 ++ [path])
  else
    match before.files.get? path with
    | none => (result.1.erase path, result.2)
    | some item => (result.1.set path item, result.2)

/-- What `rebase_pending` returns. -/
structure Rebased where
  reference : SnapshotRef
  unattributed : List String
  conflicts : List String

/-- `rebase_pending` -/
def rebasePending (st : Storage) (baseline observed current : SnapshotRef) :
    Except Failure Rebased := do
  let before ← st.load baseline
  let finish ← st.load observed
  let start ← st.load current
  let omissions := sortedSet (start.omissions ++ before.omissions ++ finish.omissions
    ++ (if sameRepository before finish then [] else ["repository_identity_or_index_changed"]))
  let unattributed :=
    (sortedSet (finish.files.entries.map Prod.fst ++ start.files.entries.map Prod.fst)).filter
      fun path => finish.files.get? path ≠ start.files.get? path
  let paths := sortedSet (before.files.entries.map Prod.fst ++ finish.files.entries.map Prod.fst)
  let (files, conflicts) := paths.foldl (rebaseFile before finish start) (start.files, [])
  let manifest : Manifest := { start with files := files, omissions := omissions }
  let reference : SnapshotRef :=
    { current with
      digest := sha256 (dumpChars .compact (sortKeys (manifest.toJson (F := F))))
      files := files.entries.length
      omissions := omissions }
  return ⟨reference, unattributed, conflicts⟩

end MultiForge.Policy
