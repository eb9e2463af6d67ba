/-
MultiForge.Session.Index — `forge.session.index`: the transactions of the
session index.

Transactions are critical sections of the index lock. Every read and write
of the disk is an action that can raise where `faulty` allows it, before
or after its effect.
-/
import MultiForge.Session.World

namespace MultiForge.Session

open Locked

/-- A transaction. -/
abbrev Txn (α : Type) : Type 1 := Locked.Txn World SessionError α

/-- An operation, with the sections it runs. -/
abbrev Job (α : Type) : Type 1 := Locked.Job World SessionError α

section

variable (host : Host) (faulty : World → Prop)

/-! ## 1. Reading and writing -/

/-- `IndexStore.read` -/
def readIndex : Txn IndexData := .read faulty .fault World.index

/-- `IndexStore.write` -/
def writeIndex (index : IndexData) : Txn Unit :=
  .write faulty .fault fun s => { s with index := index }

/-- `get_manifest_path(root, name).is_file()` -/
def manifestExists (loc : Loc) : Txn Bool := .read faulty .fault fun s => (s.manifest loc).isSome

/-- `_cleanup_pending` -/
def cleanupPending (loc : Loc) : Txn Bool := .read faulty .fault fun s => (s.inventory loc).isSome

/-- `SessionStore.review_identity` -/
def reviewIdentity (loc : Loc) : Txn (Option InstanceId) :=
  .read faulty .fault fun s => s.owner loc

/-- `resolve_key_strict` -/
def resolveKeyStrict (index : IndexData) (name : String) (root : Option String) :
    Except SessionError (Option ScopedKey) :=
  match root with
  | some root =>
      let key := host.scopedKey ⟨root, name⟩
      .ok (if (index.get? key).isSome then some key else none)
  | none =>
      match index.entries.filter fun e => e.1.name = name with
      | [] => .ok none
      | [e] => .ok (some e.1)
      | _ => .error .ambiguous

/-- The key of a session and its row, or not found. -/
def findRow (index : IndexData) (name : String) (root : Option String) :
    Except SessionError (ScopedKey × Row) :=
  match resolveKeyStrict host index name root with
  | .error e => .error e
  | .ok none => .error .notFound
  | .ok (some key) =>
      match index.get? key with
      | some row => .ok (key, row)
      | none => .error .notFound

/-! ## 2. Creating -/

/-- What a creation publishes. -/
structure CreateRequest where
  name : String
  root : String
  text : String
  claudeSessionId : Option String := none
  codexThreadId : Option String := none
  requireUuidUnbound : Bool := false
  now : String := ""

def CreateRequest.loc (req : CreateRequest) : Loc := ⟨req.root, req.name⟩

/-- No row holds a conversation of the request: `_require_conversation_unbound`
does not raise. -/
def conversationUnbound (index : IndexData) (req : CreateRequest) : Bool :=
  index.entries.all fun e =>
    !(holds req.claudeSessionId e.2.claudeSessionId || holds req.codexThreadId e.2.codexThreadId)
where
  holds (wanted held : Option String) : Bool :=
    match wanted with
    | none => false
    | some w => w ≠ "" && held = some w

/-- `_build_entry` -/
def buildEntry (req : CreateRequest) (birth : Nat) : Row where
  root := req.root
  claudeSessionId := req.claudeSessionId
  codexThreadId := req.codexThreadId
  lastAccessedAt := req.now
  birth := birth

/-- The index without a row whose manifest is missing. -/
def reclaim (index : IndexData) (key : ScopedKey) : Txn IndexData :=
  match index.get? key with
  | none => pure index
  | some existing => do
      if ← manifestExists faulty (existing.loc key) then throw .sessionExists
      else pure (index.erase key)

/-- `SessionStore.create_exclusive` -/
def createExclusive (loc : Loc) (text : String) (birth : Nat) : Txn Unit := do
  Txn.write faulty .fault fun s => { s with sessionDir := Function.update s.sessionDir loc true }
  if ← manifestExists faulty loc then throw .sessionExists
  else do
    Txn.attempt faulty .fault fun s (_ : Unit) s' => ∃ token, token ∉ s.issued ∧ s' = { s with
      owner := Function.update s.owner loc (some token)
      issued := token :: s.issued }
    Txn.write faulty .fault fun s => { s with
      manifest := Function.update s.manifest loc (some ⟨text, some birth⟩) }

/-- `_compensate_locked` -/
def compensateLocked (index : IndexData) (key : ScopedKey) : Txn Unit :=
  tryCatch (writeIndex faulty (index.erase key)) fun _ => pure ()

/-- The callback of a creation and the row's instance id. -/
def publish (index : IndexData) (key : ScopedKey) (loc : Loc) (entry : Row) (text : String) :
    Txn Row := do
  createExclusive faulty loc text entry.birth
  let owner ← reviewIdentity faulty loc
  writeIndex faulty (index.set key { entry with instanceId := owner })
  pure { entry with instanceId := owner }

/-- The exception handler of a creation: it drops the row unless this
transaction wrote the manifest. -/
def unwind (index : IndexData) (key : ScopedKey) (loc : Loc) (existedBefore : Bool)
    (e : SessionError) : Txn Row :=
  if existedBefore then do
    compensateLocked faulty index key
    throw e
  else do
    if ← manifestExists faulty loc then throw e
    else do
      compensateLocked faulty index key
      throw e

/-- `create_session_txn`, with the callback `create_exclusive`. -/
def createSessionTxn (req : CreateRequest) : Txn Row := do
  let index ← readIndex faulty
  if ← cleanupPending faulty req.loc then throw .unfinishedCleanup
  else do
    let index ← reclaim faulty index (host.scopedKey req.loc)
    if req.requireUuidUnbound && !conversationUnbound index req then throw .uuidAlreadyBound
    else do
      let birth ← Txn.read faulty .fault World.releases
      let existedBefore ← manifestExists faulty req.loc
      publishRow index (buildEntry req birth) existedBefore
where
  publishRow (index : IndexData) (entry : Row) (existedBefore : Bool) : Txn Row := do
    writeIndex faulty (index.set (host.scopedKey req.loc) entry)
    tryCatch
      (publish faulty (index.set (host.scopedKey req.loc) entry) (host.scopedKey req.loc) req.loc
        entry req.text)
      (unwind faulty (index.set (host.scopedKey req.loc) entry) (host.scopedKey req.loc) req.loc
        existedBefore)

/-! ## 3. Deleting -/

/-- `SessionStore.delete_locked` -/
def deleteLocked (loc : Loc) : Txn Unit := do
  if ← Txn.read faulty .fault fun s => s.sessionDir loc then
    Txn.write faulty .fault fun s => { s with manifest := Function.update s.manifest loc none }
    Txn.write faulty .fault fun s => { s with owner := Function.update s.owner loc none }
    Txn.write faulty .fault fun s => { s with sessionDir := Function.update s.sessionDir loc false }

/-- The owner file, where there is one or a manifest, names the instance. -/
def ownerMatches (loc : Loc) (expected : InstanceId) : Txn Bool := do
  let manifest ← manifestExists faulty loc
  let owner ← reviewIdentity faulty loc
  pure (!(manifest || owner.isSome) || owner = some expected)

/-- `delete_session_txn` -/
def deleteSessionTxn (name : String) (root : Option String) (expected : InstanceId)
    (deleteManifest : Loc → Txn Unit) : Txn Bool := do
  let index ← readIndex faulty
  match ← MonadExcept.ofExcept (resolveKeyStrict host index name root) with
  | none => pure false
  | some key => removeInstance index key
where
  removeInstance (index : IndexData) (key : ScopedKey) : Txn Bool :=
    match index.get? key with
    | none => pure false
    | some row =>
        if row.instanceId ≠ some expected then pure false
        else do
          if ← ownerMatches faulty (row.loc key) expected then
            deleteManifest (row.loc key)
            writeIndex faulty (index.erase key)
            pure true
          else pure false

/-! ## 4. Reading and updating rows -/

/-- `resolve_key_best_effort` -/
def resolveKeyBestEffort (index : IndexData) (name : String) (root : Option String) :
    Option ScopedKey :=
  match root with
  | some root =>
      let key := host.scopedKey ⟨root, name⟩
      if (index.get? key).isSome then some key else none
  | none => (index.entries.find? fun e => e.1.name = name).map Prod.fst

/-- The key of a session and its row, if there is one. -/
def findRowBestEffort (index : IndexData) (name : String) (root : Option String) :
    Option (ScopedKey × Row) :=
  (resolveKeyBestEffort host index name root).bind fun key =>
    (index.get? key).map fun row => (key, row)

/-- The session of a row is the instance, and is not being deleted. -/
def instanceLive (loc : Loc) (expected : InstanceId) : Txn Bool := do
  if ← cleanupPending faulty loc then pure false
  else if ← manifestExists faulty loc then
    let owner ← reviewIdentity faulty loc
    pure (owner = some expected)
  else pure false

/-- The sessions that a transaction depends on are live. -/
def requiredLive (index : IndexData) : List (String × String × InstanceId) → Txn Bool
  | [] => pure true
  | (root, name, token) :: rest =>
      match (resolveKeyStrict host index name (some root)).toOption.join with
      | none => pure false
      | some key =>
          match index.get? key with
          | none => pure false
          | some row =>
              if row.instanceId ≠ some token then pure false
              else do
                if ← instanceLive faulty (row.loc key) token then requiredLive index rest
                else pure false

/-- `run_session_instance_txn` -/
def runSessionInstanceTxn (name root : String) (expected : InstanceId)
    (required : List (String × String × InstanceId)) (callback : Loc → Txn Unit) : Txn Bool := do
  let index ← readIndex faulty
  match findRow host index name (some root) with
  | .error _ => pure false
  | .ok found =>
      if found.2.instanceId ≠ some expected then pure false
      else if ← instanceLive faulty (found.2.loc found.1) expected then
        if ← requiredLive host faulty index required then
          callback (found.2.loc found.1)
          pure true
        else pure false
      else pure false

/-- `update_uuid`, which does not raise. -/
def updateUuid (name claudeSessionId : String) (root : Option String) : Txn Unit :=
  tryCatch sync fun _ => pure ()
where
  sync : Txn Unit := do
    let index ← readIndex faulty
    match findRowBestEffort host index name root with
    | none => pure ()
    | some found =>
        writeIndex faulty
          (index.set found.1 { found.2 with claudeSessionId := some claudeSessionId })

/-- `update_codex_thread`, which does not raise. -/
def updateCodexThread (name threadId : String) (root : Option String) (expected : InstanceId) :
    Txn Bool :=
  tryCatch sync fun _ => pure false
where
  sync : Txn Bool := do
    let index ← readIndex faulty
    match findRowBestEffort host index name root with
    | none => pure false
    | some found =>
        if found.2.instanceId ≠ some expected then pure false
        else if ← instanceLive faulty (found.2.loc found.1) expected then
          writeIndex faulty (index.set found.1 { found.2 with codexThreadId := some threadId })
          pure true
        else pure false

/-- `update_session` -/
def updateSession (name : String) (now : String) (root : Option String) : Txn Row := do
  let index ← readIndex faulty
  let found ← MonadExcept.ofExcept (findRow host index name root)
  let row := { found.2 with lastAccessedAt := now }
  writeIndex faulty (index.set found.1 row)
  pure row

/-- The prune of `list_sessions`: stale rows that still have no manifest. -/
def pruneEach : List ScopedKey → IndexData → Txn (IndexData × Bool)
  | [], latest => pure (latest, false)
  | key :: rest, latest =>
      match latest.get? key with
      | none => pruneEach rest latest
      | some row => do
          let present ← manifestExists faulty (row.loc key)
          let pending ← cleanupPending faulty (row.loc key)
          if present || pending then pruneEach rest latest
          else do
            let r ← pruneEach rest (latest.erase key)
            pure (r.1, true)

def pruneStale (stale : List ScopedKey) : Txn IndexData := do
  let latest ← readIndex faulty
  let r ← pruneEach faulty stale latest
  if r.2 then do
    writeIndex faulty r.1
    pure r.1
  else pure r.1

/-- The last phase of `get_session`. -/
def getLatest (name : String) (root : Option String) : Txn Row := do
  let latest ← readIndex faulty
  let found ← MonadExcept.ofExcept (findRow host latest name root)
  if ← cleanupPending faulty (found.2.loc found.1) then pure found.2
  else
    if ← manifestExists faulty (found.2.loc found.1) then pure found.2
    else
      writeIndex faulty (latest.erase found.1)
      throw .notFound

end

/-! ## 5. Operations -/

/-- The rows whose manifest is missing, probed without the lock. -/
def staleKeys : List (ScopedKey × Row) → Job (List ScopedKey)
  | [] => pure []
  | e :: rest => do
      let present ← Locked.Job.read fun s : World => (s.manifest (e.2.loc e.1)).isSome
      let pending ← Locked.Job.read fun s : World => (s.inventory (e.2.loc e.1)).isSome
      let stale ← staleKeys rest
      pure (if present || pending then stale else e.1 :: stale)

section

variable (host : Host) (faulty : World → Prop)

/-- What a deletion of one session may change besides `delete_locked`. With
the worktree it can remove the session directory in it; the manifest goes
before the directory does. -/
structure Aside (loc : Loc) (s s' : World) : Prop where
  index : s'.index = s.index
  releases : s'.releases = s.releases
  issued : s'.issued = s.issued
  manifest : ∀ l, s'.manifest l = s.manifest l ∨ l = loc ∧ s'.manifest l = none
  owner : ∀ l, s'.owner l = s.owner l ∨ l = loc ∧ s'.owner l = none
  sessionDir : ∀ l, s'.sessionDir l = s.sessionDir l ∨ l = loc ∧ s'.manifest l = none
  inventory : ∀ l, l ≠ loc → s'.inventory l = s.inventory l

/-- `list_sessions`, without the order and the filters of its result. -/
def listSessions : Job IndexData := do
  let index ← Locked.Job.locked (readIndex faulty)
  let stale ← staleKeys index.entries
  if stale.isEmpty then pure index
  else Locked.Job.locked (pruneStale faulty stale)

/-- `validate_name` -/
def checkName (name : String) : Job Unit := if host.validName name then pure () else throw .invalidName

/-- `get_session` -/
def getSession (name : String) (root : Option String) : Job Row := do
  checkName host name
  let found ← Locked.Job.locked (do
    let index ← readIndex faulty
    MonadExcept.ofExcept (findRow host index name root))
  let present ← Locked.Job.read fun s : World => (s.manifest (found.2.loc found.1)).isSome
  let pending ← Locked.Job.read fun s : World => (s.inventory (found.2.loc found.1)).isSome
  if present || pending then pure found.2
  else Locked.Job.locked (getLatest host faulty name root)

/-- What a deletion does before `delete_locked`. It keeps to its own session
and leaves the index alone. -/
structure Cleanup where
  body : Loc → Txn Unit
  aside : ∀ loc, (body loc).run.Within (Aside loc)

/-- What the output of a worker may change: the text of its own manifest, and
files of no concern to the index. -/
structure Edits (loc : Loc) (s s' : World) : Prop where
  index : s'.index = s.index
  releases : s'.releases = s.releases
  issued : s'.issued = s.issued
  manifest : ∀ l, l ≠ loc → s'.manifest l = s.manifest l
  own : (s'.manifest loc).map Manifest.birth = (s.manifest loc).map Manifest.birth
  owner : s'.owner = s.owner
  sessionDir : s'.sessionDir = s.sessionDir
  inventory : s'.inventory = s.inventory

/-- A callback of `run_session_instance_txn`. -/
structure Output where
  body : Loc → Txn Unit
  edits : ∀ loc, (body loc).run.Within (Edits loc)

/-- The operations of the index. -/
inductive Operation where
  | create (req : CreateRequest)
  | delete (name : String) (root : Option String) (expected : InstanceId) (cleanup : Cleanup)
  | list
  | get (name : String) (root : Option String)
  | update (name now : String) (root : Option String)
  | setUuid (name claudeSessionId : String) (root : Option String)
  | setCodexThread (name threadId : String) (root : Option String) (expected : InstanceId)
  | write (name root : String) (expected : InstanceId)
      (required : List (String × String × InstanceId)) (output : Output)

def Operation.job : Operation → Job Unit
  | .create req => do
      checkName host req.name
      discard (Locked.Job.locked (createSessionTxn host faulty req))
  | .delete name root expected cleanup => do
      checkName host name
      discard (Locked.Job.locked (deleteSessionTxn host faulty name root expected fun loc => do
        cleanup.body loc
        deleteLocked faulty loc))
  | .list => discard (listSessions faulty)
  | .get name root => discard (getSession host faulty name root)
  | .update name now root => do
      checkName host name
      discard (Locked.Job.locked (updateSession host faulty name now root))
  | .setUuid name claudeSessionId root =>
      discard (Locked.Job.locked (updateUuid host faulty name claudeSessionId root))
  | .setCodexThread name threadId root expected =>
      discard (Locked.Job.locked (updateCodexThread host faulty name threadId root expected))
  | .write name root expected required output => do
      checkName host name
      discard (Locked.Job.locked
        (runSessionInstanceTxn host faulty name root expected required output.body))

/-- The processes of the index. -/
def indexSystem : System Operation World (Except SessionError Unit) where
  code op := op.job host faulty
  faulty := faulty
  release s := { s with releases := s.releases + 1 }

end

end MultiForge.Session
