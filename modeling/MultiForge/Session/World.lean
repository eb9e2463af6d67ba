/-
MultiForge.Session.World — what session processes share on disk.

The index of sessions, the session directories with their manifests and
owner files, the retry inventories of unfinished deletions, the leases of
workers and the content that a deletion removes. Roots are resolved paths.
Paths that the code derives from a root and a name (`get_manifest_path`,
`cleanup_state_path`) are `Loc`s.

Two fields are not on disk. `releases` counts how often the index lock has
been released; a row and a manifest carry it as their `birth`, which says
which transaction wrote them. `issued` are the instance ids that `uuid4`
has given out, so that the next one is fresh.
-/
import Mathlib.Logic.Function.Basic
import MultiForge.Lib.Dict
import MultiForge.Lib.Locked

namespace MultiForge.Session

/-- What the code asks of its environment. -/
structure Host where
  /-- `sha256(root)[:12]`, which need not be injective -/
  digest : String → String
  /-- `Path.is_relative_to` -/
  under : String → String → Bool
  /-- `validate_name` -/
  validName : String → Bool

/-- A key of the index: `{name}|{sha256(root)[:12]}`. -/
structure ScopedKey where
  name : String
  digest : String
  deriving DecidableEq, Repr

/-- A session name in a Forge root. -/
structure Loc where
  root : String
  name : String
  deriving DecidableEq, Repr

/-- `make_scoped_key` -/
def Host.scopedKey (host : Host) (loc : Loc) : ScopedKey := ⟨loc.name, host.digest loc.root⟩

/-- A token of `uuid4`. -/
abbrev InstanceId := Nat

/-- `SessionIndexEntry` -/
structure Row where
  root : String
  instanceId : Option InstanceId := none
  claudeSessionId : Option String := none
  codexThreadId : Option String := none
  lastAccessedAt : String := ""
  /-- the transaction that wrote the row -/
  birth : Nat
  deriving DecidableEq, Repr

/-- Where the session of a row is. -/
def Row.loc (row : Row) (key : ScopedKey) : Loc := ⟨row.root, key.name⟩

/-- A manifest file. -/
structure Manifest where
  text : String
  /-- the transaction that wrote the file, if one did -/
  birth : Option Nat
  deriving DecidableEq, Repr

/-- The identity of a file: device, inode, size and digest. -/
abbrev Stamp := Nat

/-- What a deletion can remove besides the session directory. -/
inductive Thing where
  | file (path : String)
  | directory (path : String)
  /-- a key of one of the four search stores -/
  | searchKey (store : Fin 4) (key : String)
  | native (path : String)
  | worktree (path : String)
  deriving DecidableEq, Repr

/-- `SessionDeletionPlan` -/
structure DeletionPlan where
  name : String
  root : String
  instanceId : Option InstanceId
  manifestText : String
  purge : Bool
  deleteWorktree : Bool
  deleteBranch : Bool
  force : Bool
  files : List (String × Stamp) := []
  directories : List (String × Stamp) := []
  absentPaths : List String := []
  searchKeys : List String := []
  natives : List (String × Stamp) := []
  worktree : Option (String × Stamp) := none
  retry : Bool := false
  deriving DecidableEq, Repr

def DeletionPlan.loc (plan : DeletionPlan) : Loc := ⟨plan.root, plan.name⟩

/-- A lease file of a worker. -/
structure Lease where
  instanceId : InstanceId
  file : Nat
  deriving DecidableEq, Repr

structure World where
  index : Dict ScopedKey Row := .empty
  sessionDir : Loc → Bool := fun _ => false
  manifest : Loc → Option Manifest := fun _ => none
  /-- `review-identity` -/
  owner : Loc → Option InstanceId := fun _ => none
  inventory : Loc → Option DeletionPlan := fun _ => none
  leases : List Lease := []
  active : Loc → Bool := fun _ => false
  things : Thing → Option Stamp := fun _ => none
  issued : List InstanceId := []
  releases : Nat := 0

/-- `SessionExistsError` and the like; `fault` is an I/O error or a signal. -/
inductive SessionError where
  | invalidName
  | sessionExists
  | notFound
  | ambiguous
  | unfinishedCleanup
  | uuidAlreadyBound
  | valueError (message : String)
  | fault
  deriving DecidableEq, Repr

abbrev IndexData := Dict ScopedKey Row

end MultiForge.Session
