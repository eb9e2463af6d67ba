/-
MultiForge.Semantic.ShadowDrain — `forge.policy.semantic.shadow` and
`forge.policy.semantic.shadow_runner`: candidates that hooks capture, and
the workers that replay them.

A candidate goes through three names, `<hash>.json`, `<hash>.processing` and
`<hash>.done`. Hooks look at the names and then write; workers rename and
then write. Nothing locks the directory, so every system call is a step of
its own, and any process can be stopped between two of them.
-/
import MultiForge.Lib.Files

namespace MultiForge.Semantic.ShadowDrain

abbrev Bytes := List UInt8

/-! ## 1. The directory -/

/-- `RECORD_SUFFIXES`, and the order in which a record goes through them -/
inductive Suffix where
  | json
  | processing
  | done
  deriving DecidableEq, Repr

def recordSuffixes : List Suffix := [.json, .processing, .done]

/-- A file of the directory. -/
inductive Name where
  | record (hash : String) (suffix : Suffix)
  /-- `<hash>.plan.md` -/
  | plan (hash : String)
  deriving DecidableEq, Repr

abbrev Dir := Files Name UInt8

/-- What a worker makes of a record. -/
structure Reader where
  /-- `json.loads` gives an object. -/
  isObject : Bytes → Bool
  /-- the hash of its `plan_snapshot_file` -/
  planFile : Bytes → Option String
  /-- the record and the plan pass the checks of `_reconstruct`,
      `reconstruct_context` and `reconstruct_lane` -/
  verified : Bytes → Bytes → Bool

/-- What a hook is about to freeze: `candidate_hash`, the bytes of the record
    and of the plan, if it has one. The record is an object only when it is
    complete, and names the plan. -/
structure Capture (reader : Reader) where
  hash : String
  record : Bytes
  plan : Option Bytes
  whole : ∀ n < record.length, reader.isObject (record.take n) = false
  planFile : reader.planFile record = plan.map fun _ => hash

/-! ## 2. Processes -/

/-- What a process is about to do. -/
inductive Phase (reader : Reader) where
  | idle
  /-- `_candidate_exists`, with the suffixes that are left to look at -/
  | probing (capture : Capture reader) (left : List Suffix)
  /-- writing `<hash>.plan.md`, so much of it written -/
  | planning (capture : Capture reader) (text : Bytes) (file : Inode Name) (written : Nat)
  /-- opening `<hash>.json` -/
  | publishing (capture : Capture reader)
  | writing (capture : Capture reader) (file : Inode Name) (written : Nat)
  /-- `run_shadow_for_session`, with the candidates that are left -/
  | draining (left : List String)
  /-- a candidate is renamed to `.processing`; the file it was -/
  | claimed (hash : String) (file : Inode Name) (left : List String)
  | reading (hash : String) (file : Inode Name) (record : Bytes) (left : List String)
  | replaying (hash : String) (file : Inode Name) (record plan : Bytes) (left : List String)
  /-- opening `.processing` to write the outcome -/
  | closing (hash : String) (outcome : Bytes) (left : List String)
  | rewriting (hash : String) (outcome : Bytes) (file : Inode Name) (written : Nat)
      (left : List String)
  /-- renaming to `.done` -/
  | finishing (hash : String) (left : List String)

/-- The hash that a hook is capturing. -/
def Phase.captures {reader : Reader} : Phase reader → Option String
  | .probing capture _ => some capture.hash
  | .planning capture _ _ _ => some capture.hash
  | .publishing capture => some capture.hash
  | .writing capture _ _ => some capture.hash
  | _ => none

/-- The candidate that a worker holds. -/
def Phase.holds {reader : Reader} : Phase reader → Option String
  | .claimed hash _ _ => some hash
  | .reading hash _ _ _ => some hash
  | .replaying hash _ _ _ _ => some hash
  | .closing hash _ _ => some hash
  | .rewriting hash _ _ _ _ => some hash
  | .finishing hash _ => some hash
  | _ => none

/-- The file that a worker holds and has not replayed. -/
def Phase.unreplayed {reader : Reader} : Phase reader → Option (Inode Name)
  | .claimed _ file _ => some file
  | .reading _ file _ _ => some file
  | .replaying _ file _ _ _ => some file
  | _ => none

/-- What happened to a candidate. -/
inductive Event (reader : Reader) where
  /-- a hook opened `<hash>.json` and got this file -/
  | created (capture : Capture reader) (file : Inode Name)
  /-- `run_supervisor_check` -/
  | replayed (hash : String) (file : Inode Name) (record plan : Bytes)

structure Config (reader : Reader) (π : Type) where
  dir : Dir
  phase : π → Phase reader
  /-- the last event first -/
  log : List (Event reader)

variable {reader : Reader} {π : Type} [DecidableEq π]

def Config.initial : Config reader π := ⟨.empty, fun _ => .idle, []⟩

/-- A process goes on to another phase. -/
def Config.go (c : Config reader π) (p : π) (phase : Phase reader) : Config reader π :=
  { c with phase := Function.update c.phase p phase }

def Config.withDir (c : Config reader π) (dir : Dir) : Config reader π := { c with dir := dir }

def Config.record (c : Config reader π) (event : Event reader) : Config reader π :=
  { c with log := event :: c.log }

/-! ## 3. Steps -/

/-- One system call of one process, or the end of it. -/
inductive Step (c : Config reader π) : Config reader π → Prop where
  /-- the process is killed, raises or returns: a candidate exists, the cap
      is reached, the configuration is refused, or all is done -/
  | stop (p : π) : Step c (c.go p .idle)
  /-- `capture_candidate` is called. -/
  | capture (p : π) (capture : Capture reader) : c.phase p = .idle →
      Step c (c.go p (.probing capture recordSuffixes))
  /-- no such file -/
  | probe (p : π) {capture : Capture reader} {suffix : Suffix} {left : List Suffix} :
      c.phase p = .probing capture (suffix :: left) →
      c.dir.entry (.record capture.hash suffix) = none →
      Step c (c.go p (.probing capture left))
  | openPlan (p : π) {capture : Capture reader} {text : Bytes} :
      c.phase p = .probing capture [] → capture.plan = some text →
      Step c ((c.withDir (c.dir.create (.plan capture.hash))).go p
        (.planning capture text (c.dir.opened (.plan capture.hash)) 0))
  | noPlan (p : π) {capture : Capture reader} :
      c.phase p = .probing capture [] → capture.plan = none →
      Step c (c.go p (.publishing capture))
  | writePlan (p : π) (k : Nat) {capture : Capture reader} {text : Bytes} {file : Inode Name}
      {n : Nat} : c.phase p = .planning capture text file n → n + k ≤ text.length →
      Step c ((c.withDir (c.dir.write file 0 n ((text.drop n).take k))).go p
        (.planning capture text file (n + k)))
  | closePlan (p : π) {capture : Capture reader} {text : Bytes} {file : Inode Name} :
      c.phase p = .planning capture text file text.length →
      Step c (c.go p (.publishing capture))
  | publish (p : π) {capture : Capture reader} : c.phase p = .publishing capture →
      Step c (((c.withDir (c.dir.create (.record capture.hash .json))).record
          (.created capture (c.dir.opened (.record capture.hash .json)))).go p
        (.writing capture (c.dir.opened (.record capture.hash .json)) 0))
  | write (p : π) (k : Nat) {capture : Capture reader} {file : Inode Name} {n : Nat} :
      c.phase p = .writing capture file n → n + k ≤ capture.record.length →
      Step c ((c.withDir (c.dir.write file 0 n ((capture.record.drop n).take k))).go p
        (.writing capture file (n + k)))
  /-- `run_shadow_for_session`, with any listing: the directory may change
      while it is read -/
  | drain (p : π) (left : List String) : c.phase p = .idle → Step c (c.go p (.draining left))
  | claim (p : π) {hash : String} {left : List String} {file : Inode Name} {dir : Dir} :
      c.phase p = .draining (hash :: left) → c.dir.entry (.record hash .json) = some file →
      c.dir.rename (.record hash .json) (.record hash .processing) = some dir →
      Step c ((c.withDir dir).go p (.claimed hash file left))
  /-- another worker has the candidate -/
  | lose (p : π) {hash : String} {left : List String} :
      c.phase p = .draining (hash :: left) →
      c.dir.rename (.record hash .json) (.record hash .processing) = none →
      Step c (c.go p (.draining left))
  | read (p : π) {hash : String} {file : Inode Name} {left : List String} {record : Bytes} :
      c.phase p = .claimed hash file left →
      c.dir.read (.record hash .processing) = some record → reader.isObject record = true →
      Step c (c.go p (.reading hash file record left))
  /-- unreadable, with what is written instead -/
  | unreadable (p : π) (outcome : Bytes) {hash : String} {file : Inode Name} {left : List String} :
      c.phase p = .claimed hash file left →
      (∀ record, c.dir.read (.record hash .processing) = some record →
        reader.isObject record = false) →
      Step c (c.go p (.closing hash outcome left))
  | reconstruct (p : π) {hash plan : String} {file : Inode Name} {record text : Bytes}
      {left : List String} : c.phase p = .reading hash file record left →
      reader.planFile record = some plan → c.dir.read (.plan plan) = some text →
      reader.verified record text = true →
      Step c (c.go p (.replaying hash file record text left))
  | unavailable (p : π) (outcome : Bytes) {hash : String} {file : Inode Name} {record : Bytes}
      {left : List String} : c.phase p = .reading hash file record left →
      (∀ plan text, reader.planFile record = some plan → c.dir.read (.plan plan) = some text →
        reader.verified record text = false) →
      Step c (c.go p (.closing hash outcome left))
  /-- `run_supervisor_check`, and the record with its verdict or its error -/
  | replay (p : π) (outcome : Bytes) {hash : String} {file : Inode Name} {record plan : Bytes}
      {left : List String} : c.phase p = .replaying hash file record plan left →
      Step c ((c.record (.replayed hash file record plan)).go p (.closing hash outcome left))
  | reopen (p : π) {hash : String} {outcome : Bytes} {left : List String} :
      c.phase p = .closing hash outcome left →
      Step c ((c.withDir (c.dir.create (.record hash .processing))).go p
        (.rewriting hash outcome (c.dir.opened (.record hash .processing)) 0 left))
  | rewrite (p : π) (k : Nat) {hash : String} {outcome : Bytes} {file : Inode Name} {n : Nat}
      {left : List String} : c.phase p = .rewriting hash outcome file n left →
      n + k ≤ outcome.length →
      Step c ((c.withDir (c.dir.write file 0 n ((outcome.drop n).take k))).go p
        (.rewriting hash outcome file (n + k) left))
  | rewritten (p : π) {hash : String} {outcome : Bytes} {file : Inode Name} {left : List String} :
      c.phase p = .rewriting hash outcome file outcome.length left →
      Step c (c.go p (.finishing hash left))
  | finish (p : π) {hash : String} {left : List String} {dir : Dir} :
      c.phase p = .finishing hash left →
      c.dir.rename (.record hash .processing) (.record hash .done) = some dir →
      Step c ((c.withDir dir).go p (.draining left))
  /-- the candidate raises, and the worker goes on to the next -/
  | skip (p : π) {hash : String} (left : List String) : (c.phase p).holds = some hash →
      Step c (c.go p (.draining left))

/-- What any number of processes get to, in any order of their steps, by way
    of configurations that `P` holds of. -/
inductive Reachable (P : Config reader π → Prop) : Config reader π → Prop where
  | initial : Reachable P .initial
  | step {c c' : Config reader π} : Reachable P c → Step c c' → P c' → Reachable P c'

/-- No two hooks capture the candidate at a time. -/
def Serial (hash : String) (c : Config reader π) : Prop :=
  ∀ p q, (c.phase p).captures = some hash → (c.phase q).captures = some hash → p = q

end MultiForge.Semantic.ShadowDrain
