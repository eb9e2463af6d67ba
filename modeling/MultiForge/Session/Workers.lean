/-
MultiForge.Session.Workers — `forge.session.workers` and
`forge.session.deletion`: workers with leases, and the deletion of a session
with its retry inventory.

A lease is published in a transaction of the index and taken away outside
of one. A deletion plans without the lock, removes the session in a
transaction and takes its inventory away after it. What the content of a
session is, and what can stand in the way of its removal besides workers,
is a `Cleaner`.
-/
import MultiForge.Session.Index

namespace MultiForge.Session

open Locked

/-- Which of its content a session loses with it. -/
structure DeletionOptions where
  purge : Bool := false
  deleteWorktree : Bool := true
  deleteBranch : Bool := false
  force : Bool := false
  deriving DecidableEq, Repr

def DeletionPlan.options (plan : DeletionPlan) : DeletionOptions :=
  ⟨plan.purge, plan.deleteWorktree, plan.deleteBranch, plan.force⟩

/-- What the removal of content may change. With a worktree the session
directory in it can go. -/
structure Removes (loc : Loc) (s s' : World) : Prop where
  index : s'.index = s.index
  issued : s'.issued = s.issued
  leases : s'.leases = s.leases
  inventory : s'.inventory = s.inventory
  manifest : ∀ l, s'.manifest l = s.manifest l ∨ l = loc ∧ s'.manifest l = none
  owner : ∀ l, s'.owner l = s.owner l ∨ l = loc ∧ s'.owner l = none
  sessionDir : ∀ l, s'.sessionDir l = s.sessionDir l ∨
    l = loc ∧ s'.manifest l = none ∧ s'.owner l = none

/-- The content of sessions: `cleanup_content`, `purge_native`,
`cleanup_dependencies` and `worktree`. -/
structure Cleaner where
  /-- what a preview selects -/
  select : World → Loc → DeletionOptions → DeletionPlan
  /-- `_admission_refusals`, apart from the workers -/
  refuses : World → DeletionPlan → Bool
  /-- content that is not what was selected -/
  changed : World → DeletionPlan → Bool
  /-- `_verify_completed`, apart from the session directory -/
  left : World → DeletionPlan → Bool
  body : DeletionPlan → Txn Unit
  confined : ∀ plan, (body plan).run.Within (Removes plan.loc)

section

variable (host : Host) (faulty : World → Prop)

/-! ## 1. Workers -/

/-- `find_active_session_workers` finds one, or a lease that it cannot tell. -/
def hasWorkers (s : World) (token : InstanceId) : Bool :=
  s.leases.any fun lease => lease.instanceId = token

/-- The callback of `_create_worker_lease`. -/
def publishLease (lease : Lease) : Txn Unit :=
  .write faulty .fault fun s => { s with leases := lease :: s.leases }

/-- `_create_worker_lease` -/
def createWorkerLease (root name : String) (expected : InstanceId) (file : Nat) : Job Lease := do
  checkName host name
  if ← Locked.Job.locked (runSessionInstanceTxn host faulty name root expected [] fun _ =>
      publishLease faulty ⟨expected, file⟩) then pure ⟨expected, file⟩
  else throw .notFound

/-- `path.unlink(missing_ok=True)` of a lease. -/
def unlinkLease (lease : Lease) : Job Unit :=
  .write .fault fun s => { s with leases := s.leases.filter fun held => held ≠ lease }

/-- `session_worker_lease`, around work that does not matter here. -/
def sessionWorkerLease (root name : String) (expected : InstanceId) (file : Nat) : Job Unit := do
  let lease ← createWorkerLease host faulty root name expected file
  unlinkLease lease

/-- `sidecar_session_lease`: the lease stays where the exit of the container
is not confirmed. -/
def sidecarSessionLease (root name : String) (expected : InstanceId) (file : Nat)
    (exitConfirmed : Bool) : Job Unit := do
  let lease ← createWorkerLease host faulty root name expected file
  if exitConfirmed then unlinkLease lease else pure ()

/-! ## 2. The instance of a session -/

/-- `SessionStore.migrate_instance_identity` -/
def migrateInstanceIdentity (loc : Loc) (expectedText : Option String)
    (expected : Option InstanceId) (requireOwnerless : Bool) : Txn InstanceId := do
  match ← Txn.read faulty .fault fun s => s.manifest loc with
  | none => throw .notFound
  | some manifest =>
      if expectedText.isSome && expectedText ≠ some manifest.text then
        throw (.valueError "Session manifest changed since preview")
      else
        let token ← reviewIdentity faulty loc
        if requireOwnerless && token.isSome then
          throw (.valueError "Session instance changed since preview; expected an ownerless session")
        else if expected.isSome && token ≠ expected then
          throw (.valueError ("Session '" ++ loc.name ++
            "' has inconsistent instance ownership; restore its owner file"))
        else bindOwner token
where
  bindOwner : Option InstanceId → Txn InstanceId
    | some token => pure token
    | none => Txn.attempt faulty .fault fun s token s' => token ∉ s.issued ∧ s' = { s with
        owner := Function.update s.owner loc (some token)
        issued := token :: s.issued }

/-- `migrate_session_identity` -/
def migrateSessionIdentity (name : String) (root expectedText : Option String)
    (requireOwnerless : Bool) : Txn InstanceId := do
  let index ← readIndex faulty
  let found ← MonadExcept.ofExcept (findRow host index name root)
  if requireOwnerless && found.2.instanceId.isSome then
    throw (.valueError "Session instance changed since preview; expected an ownerless session")
  else
    let token ← migrateInstanceIdentity faulty (found.2.loc found.1) expectedText found.2.instanceId
      requireOwnerless
    if found.2.instanceId = some token then pure token
    else
      writeIndex faulty (index.set found.1 { found.2 with instanceId := some token })
      pure token

/-! ## 3. Planning a deletion -/

variable (cleaner : Cleaner)

/-- An inventory is taken up again with its own options. -/
def planRetry (loc : Loc) (options : DeletionOptions) (saved : DeletionPlan) : Job DeletionPlan := do
  if saved.instanceId = none || saved.loc ≠ loc then
    throw (.valueError "Cleanup retry inventory belongs to another session")
  else if saved.options ≠ options then
    throw (.valueError "An interrupted deletion owns this session; retry with its original options")
  else
    let leased ← Locked.Job.read fun s => saved.instanceId.any (hasWorkers s)
    let refused ← Locked.Job.read fun s => cleaner.refuses s saved
    if leased || refused then throw (.valueError "Session cleanup is refused")
    else pure { saved with retry := true }

/-- What a preview selects of a session that is there. -/
def planFresh (loc : Loc) (options : DeletionOptions) (row : Row) : Job DeletionPlan := do
  match ← Locked.Job.read fun s : World => s.manifest loc with
  | none => throw (.valueError "Session has no manifest")
  | some manifest =>
      let owner ← Locked.Job.read fun s : World => s.owner loc
      if row.instanceId.isSome && owner ≠ row.instanceId then
        throw (.valueError "Session has inconsistent ownership; restore its original owner file")
      else
        let again ← Locked.Job.read fun s : World => s.manifest loc
        if again.map Manifest.text ≠ some manifest.text then
          throw (.valueError "Session changed during preview; retry")
        else
          let selected ← Locked.Job.read fun s => cleaner.select s loc options
          accept { selected with
            name := loc.name
            root := loc.root
            instanceId := row.instanceId.or owner
            manifestText := manifest.text
            purge := options.purge
            deleteWorktree := options.deleteWorktree
            deleteBranch := options.deleteBranch
            force := options.force
            retry := false }
where
  accept (plan : DeletionPlan) : Job DeletionPlan := do
    let leased ← Locked.Job.read fun s => plan.instanceId.any (hasWorkers s)
    let refused ← Locked.Job.read fun s => cleaner.refuses s plan
    if leased || refused then throw (.valueError "Session cleanup is refused")
    else pure plan

/-- `plan_session_deletion`, which reads without the lock. A plan with
refusals raises, as its application does. -/
def planSessionDeletion (name : String) (root : Option String) (options : DeletionOptions) :
    Job DeletionPlan := do
  checkName host name
  let index ← Locked.Job.read World.index
  match resolveKeyStrict host index name root with
  | .error e => throw e
  | .ok key =>
      let row := key.bind index.get?
      match (row.map Row.root).or root with
      | none => throw .notFound
      | some root =>
          match ← Locked.Job.read fun s : World => s.inventory ⟨root, name⟩ with
          | some saved => planRetry cleaner ⟨root, name⟩ options saved
          | none =>
              match row with
              | none => throw (.valueError "Session has no published record")
              | some row => planFresh cleaner ⟨root, name⟩ options row

/-! ## 4. Applying it -/

/-- `_save_retry`, which does not replace an inventory. -/
def saveRetry (plan : DeletionPlan) : Txn Unit := do
  let saved ← Txn.attempt faulty .fault fun s (saved : Bool) s' =>
    (s.inventory plan.loc = none ∧ saved = true ∧
      s' = { s with inventory := Function.update s.inventory plan.loc (some plan) }) ∨
    (s.inventory plan.loc ≠ none ∧ saved = false ∧ s' = s)
  if saved then pure () else throw .fault

/-- The end of a cleanup: the session directory, if it is still there. -/
def removeDirectory (plan : DeletionPlan) : Txn Unit := do
  if ← Txn.read faulty .fault fun s => s.sessionDir plan.loc then
    match ← Txn.read faulty .fault fun s => s.manifest plan.loc with
    | some manifest =>
        if manifest.text ≠ plan.manifestText then
          throw (.valueError "Session manifest changed during cleanup")
        else deleteLocked faulty plan.loc
    | none => if plan.retry then deleteLocked faulty plan.loc else throw .notFound

/-- `cleanup_while_leased` -/
def cleanupWhileLeased (plan : DeletionPlan) (token : InstanceId) : Txn Unit := do
  let leased ← Txn.read faulty .fault fun s => hasWorkers s token
  let refused ← Txn.read faulty .fault fun s => cleaner.refuses s plan
  if leased || refused then throw (.valueError "Session cleanup is refused")
  else
    let manifest ← Txn.read faulty .fault fun s => s.manifest plan.loc
    let changed ← Txn.read faulty .fault fun s => cleaner.changed s plan
    if manifest.any (fun m => m.text ≠ plan.manifestText) || changed then
      throw (.valueError "Session manifest changed since preview; inspect the session before retrying")
    else
      if plan.retry then pure () else saveRetry faulty plan
      cleaner.body plan
      removeDirectory faulty plan

/-- A deletion that finds no row of its instance was at its end before. -/
def verifyCompleted (plan : DeletionPlan) (token : InstanceId) : Job Unit := do
  let index ← Locked.Job.read World.index
  let present ← Locked.Job.read fun s : World => (s.manifest plan.loc).isSome
  if !plan.retry || (index.get? (host.scopedKey plan.loc)).isSome || present then
    throw (.valueError
      "Session instance changed or disappeared since preview; no replacement was removed")
  else
    let leased ← Locked.Job.read fun s => hasWorkers s token
    let refused ← Locked.Job.read fun s => cleaner.refuses s plan
    if leased || refused then throw (.valueError "Session cleanup is refused")
    else
      let left ← Locked.Job.read fun s => cleaner.left s plan || s.sessionDir plan.loc
      if left then
        throw (.valueError
          "Cleanup lost its index owner before all selected content was removed; restore the index")
      else pure ()

/-- The instance that a plan removes; a new plan binds a session that has
none. -/
def bindInstance (plan : DeletionPlan) : Job InstanceId :=
  if plan.retry then
    match plan.instanceId with
    | some token => pure token
    | none => throw .fault
  else do
    let token ← Locked.Job.locked (migrateSessionIdentity host faulty plan.name (some plan.root)
      (some plan.manifestText) plan.instanceId.isNone)
    if plan.instanceId.isSome && plan.instanceId ≠ some token then
      throw (.valueError "Session instance changed since preview")
    else pure token

/-- `retry_path.unlink(missing_ok=True)` -/
def unlinkInventory (loc : Loc) : Job Unit :=
  .write .fault fun s => { s with inventory := Function.update s.inventory loc none }

/-- `apply_session_deletion`, with the instance that it removed. -/
def applySessionDeletion (plan : DeletionPlan) : Job InstanceId := do
  let token ← bindInstance host faulty plan
  let bound := { plan with instanceId := some token }
  if ← Locked.Job.locked (deleteSessionTxn host faulty plan.name (some plan.root) token fun _ =>
      cleanupWhileLeased faulty cleaner bound token) then pure ()
  else verifyCompleted host cleaner bound token
  unlinkInventory plan.loc
  pure token

end

/-! ## 5. Commands -/

/-- An operation of the index that takes no session away and publishes in
known roots. -/
def Operation.Plain (roots : String → Prop) : Operation → Prop
  | .create req => roots req.root
  | .delete .. => False
  | .write _ _ _ _ output =>
      ∀ loc, (output.body loc).run.Within fun s s' => s'.leases = s.leases
  | _ => True

/-- What processes do with sessions. -/
inductive Command (roots : String → Prop) where
  | index (op : Operation) (plain : op.Plain roots)
  | migrate (name : String) (root : Option String)
  | worker (root name : String) (expected : InstanceId) (file : Nat)
  | sidecar (root name : String) (expected : InstanceId) (file : Nat) (exitConfirmed : Bool)
  | delete (name : String) (root : Option String) (options : DeletionOptions)

variable (host : Host) (faulty : World → Prop) (cleaner : Cleaner) {roots : String → Prop}

/-- A command; a deletion ends with the instance that it removed. -/
def Command.job : Command roots → Job (Option InstanceId)
  | .index op _ => do
      op.job host faulty
      pure none
  | .migrate name root => do
      checkName host name
      discard (Locked.Job.locked (migrateSessionIdentity host faulty name root none false))
      pure none
  | .worker root name expected file => do
      sessionWorkerLease host faulty root name expected file
      pure none
  | .sidecar root name expected file exitConfirmed => do
      sidecarSessionLease host faulty root name expected file exitConfirmed
      pure none
  | .delete name root options => do
      let plan ← planSessionDeletion host cleaner name root options
      let token ← applySessionDeletion host faulty cleaner plan
      pure (some token)

/-- The processes that work on sessions and delete them. -/
def sessionSystem (roots : String → Prop) :
    System (Command roots) World (Except SessionError (Option InstanceId)) where
  code command := command.job host faulty cleaner
  faulty := faulty
  release s := { s with releases := s.releases + 1 }

end MultiForge.Session
