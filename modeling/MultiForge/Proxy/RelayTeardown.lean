/-
MultiForge.Proxy.RelayTeardown — `relay_upstream` when something raises.

`Proxy.StreamRelay` follows the bytes and the tap; here the relay is run
with everything that can raise: the upstream, the tap, the client at any
`yield`, and the exits of the two context managers. `on_end` is called
once with what happened exactly when both exits end, the client was there
to pull at all and did not leave during the error frame
(`relay_accounted_iff`). Where the exits end, the bytes are those of
`Proxy.StreamRelay` (`relay_agrees`).
-/
import MultiForge.Proxy.StreamRelay

namespace MultiForge.Proxy.RelayTeardown

/-! ## 1. What can happen -/

/-- The exceptions, as far as the relay tells them apart. -/
inductive Exn where
  /-- `httpx.HTTPError` -/
  | httpError
  /-- any other `Exception` -/
  | exception
  /-- `asyncio.CancelledError` -/
  | cancelled
  | generatorExit
  /-- any other `BaseException` -/
  | baseException
  deriving DecidableEq, Repr

/-- `except Exception` catches it. -/
def Exn.isException : Exn → Bool
  | .httpError => true
  | .exception => true
  | _ => false

/-- `except (asyncio.CancelledError, GeneratorExit)` catches it. -/
def Exn.isDisconnect : Exn → Bool
  | .cancelled => true
  | .generatorExit => true
  | _ => false

/-- How the client leaves. -/
inductive Disconnect where
  | cancelled
  | generatorExit
  deriving DecidableEq, Repr

def Disconnect.exn : Disconnect → Exn
  | .cancelled => .cancelled
  | .generatorExit => .generatorExit

/-- One chunk of the upstream: what `feed` raises, and what the client
throws at its `yield`. -/
structure Pass where
  chunk : List UInt8
  feed : Option Exn := none
  resume : Option Disconnect := none
  deriving DecidableEq, Repr

/-- The world around one relay. -/
structure Script where
  /-- the client leaves before it has pulled anything -/
  start : Option Disconnect := none
  passes : List Pass
  /-- what is raised while the relay waits for one more chunk -/
  ending : Option Exn := none
  /-- what the client throws at the `yield` of the error body -/
  errorResume : Option Disconnect := none
  streamExit : Option Exn := none
  clientExit : Option Exn := none
  deriving DecidableEq, Repr

/-! ## 2. The relay -/

/-- The arguments of `on_end`. -/
structure Flags where
  failed : Bool := false
  streamStarted : Bool := false
  clientDisconnected : Bool := false
  chunkCount : Nat := 0
  deriving DecidableEq, Repr

/-- What others see of a relay. -/
inductive Effect where
  | sent (bytes : List UInt8)
  | exitStream
  | exitClient
  | onEnd (flags : Flags)
  deriving DecidableEq, Repr

/-- The loop of `relay_upstream`, with the exception that leaves it. -/
def relayChunks (ending : Option Exn) (flags : Flags) :
    List Pass → List Effect × Flags × Option Exn
  | [] => ([], flags, ending)
  | pass :: passes =>
      let flags := { flags with streamStarted := true, chunkCount := flags.chunkCount + 1 }
      match pass.feed.filter (!·.isException) with
      | some e => ([], flags, some e)
      | none => match pass.resume with
        | some gone => ([.sent pass.chunk], flags, some gone.exn)
        | none =>
            let (effects, rest) := relayChunks ending flags passes
            (.sent pass.chunk :: effects, rest)

variable (errorBody : List UInt8) (script : Script)

/-- The `except` clauses. -/
def handle (flags : Flags) : Option Exn → List Effect × Flags × Option Exn
  | some .httpError =>
      ([.sent errorBody], { flags with failed := true }, script.errorResume.map Disconnect.exn)
  | some e => ([], { flags with clientDisconnected := e.isDisconnect }, some e)
  | none => ([], flags, none)

/-- The `finally` clause; an exception in it replaces the one that was
being raised. -/
def teardown (flags : Flags) (raised : Option Exn) : List Effect × Option Exn :=
  match script.streamExit with
  | some e => ([.exitStream], some e)
  | none => match script.clientExit with
    | some e => ([.exitStream, .exitClient], some e)
    | none => ([.exitStream, .exitClient, .onEnd flags], raised)

/-- `relay_upstream`: its effects, and the exception that leaves it. A
generator that is closed before its first pull runs nothing. -/
def relayUpstream : List Effect × Option Exn :=
  match script.start with
  | some _ => ([], none)
  | none =>
      let (sent, flags, raised) := relayChunks script.ending {} script.passes
      let (body, flags, raised) := handle errorBody script flags raised
      let (closing, raised) := teardown script flags raised
      (sent ++ body ++ closing, raised)

/-- The byte strings that the client was given. -/
def sentChunks (effects : List Effect) : List (List UInt8) :=
  effects.filterMap fun
    | .sent bytes => some bytes
    | _ => none

/-- The calls of `on_end`. -/
def ends (effects : List Effect) : List Flags :=
  effects.filterMap fun
    | .onEnd flags => some flags
    | _ => none

/-- The context managers that were exited. -/
def exits (effects : List Effect) : List Effect :=
  effects.filter fun effect => effect = .exitStream || effect = .exitClient

/-! ## 3. What happened -/

/-- What ends the loop at a chunk. -/
def Pass.interruption (pass : Pass) : Option Exn :=
  (pass.feed.filter (!·.isException)).or (pass.resume.map Disconnect.exn)

namespace Script

/-- The first thing that ended the loop, if anything did. -/
def cause : Option Exn := (script.passes.findSome? Pass.interruption).or script.ending

/-- The chunks that the upstream has delivered. -/
def received : Nat :=
  min script.passes.length (script.passes.findIdx (·.interruption.isSome) + 1)

def upstreamFailed : Bool := script.cause = some .httpError

def disconnected : Bool :=
  script.cause.any Exn.isDisconnect || (script.upstreamFailed && script.errorResume.isSome)

/-- The arguments that describe a run. -/
def happened : Flags where
  failed := script.upstreamFailed
  streamStarted := script.received ≠ 0
  clientDisconnected := script.disconnected
  chunkCount := script.received

end Script

/-- The promise of `relay_upstream`. -/
structure Accounted (effects : List Effect) : Prop where
  once : ends effects = [script.happened]
  exited : exits effects = [.exitStream, .exitClient]
  bytes : ∃ n, sentChunks effects = (script.passes.map Pass.chunk).take n
    ++ if script.upstreamFailed then [errorBody] else []

/-! ## 4. The loop -/

@[simp] theorem sentChunks_append (a b : List Effect) :
    sentChunks (a ++ b) = sentChunks a ++ sentChunks b := List.filterMap_append

@[simp] theorem ends_append (a b : List Effect) : ends (a ++ b) = ends a ++ ends b :=
  List.filterMap_append

@[simp] theorem exits_append (a b : List Effect) : exits (a ++ b) = exits a ++ exits b := by
  simp [exits]

/-- Neither `feed` nor the client raises an HTTP error into the loop. -/
theorem Pass.interruption_ne_httpError (pass : Pass) : pass.interruption ≠ some .httpError := by
  intro h
  rcases Option.or_eq_some_iff.mp h with hfeed | ⟨-, hresume⟩
  · have hbase := (Option.filter_eq_some_iff.mp hfeed).2
    cases hbase
  · obtain ⟨gone, -, hgone⟩ := Option.map_eq_some_iff.mp hresume
    cases gone <;> cases hgone

theorem received_stopped {pass : Pass} {e : Exn} (h : pass.interruption = some e)
    (passes : List Pass) (ending : Option Exn) :
    ({ passes := pass :: passes, ending := ending } : Script).received = 1 := by
  simp [Script.received, List.findIdx_cons, h]

theorem received_passed {pass : Pass} (h : pass.interruption = none) (passes : List Pass)
    (ending : Option Exn) :
    ({ passes := pass :: passes, ending := ending } : Script).received
      = ({ passes := passes, ending := ending } : Script).received + 1 := by
  simp only [Script.received, List.findIdx_cons, h, List.length_cons, Option.isSome_none, cond_false]
  omega

/-- What the loop does: it sends a prefix of the chunks, counts those it
received and raises what ended it. -/
theorem relayChunks_spec (ending : Option Exn) : ∀ (passes : List Pass) (flags : Flags),
    let script : Script := { passes := passes, ending := ending }
    let run := relayChunks ending flags passes
    (∃ n, sentChunks run.1 = (passes.map Pass.chunk).take n) ∧ ends run.1 = [] ∧ exits run.1 = []
      ∧ run.2.1 = { flags with
          streamStarted := flags.streamStarted || decide (script.received ≠ 0)
          chunkCount := flags.chunkCount + script.received }
      ∧ run.2.2 = script.cause
  | [], flags => by
      refine ⟨⟨0, rfl⟩, rfl, rfl, ?_, rfl⟩
      simp [relayChunks, Script.received]
  | pass :: passes, flags => by
      cases hfeed : pass.feed.filter (!·.isException) with
      | some e =>
        have hstop : pass.interruption = some e := by simp [Pass.interruption, hfeed]
        have hreceived := received_stopped hstop passes ending
        refine ⟨⟨0, ?_⟩, ?_, ?_, ?_, ?_⟩
        · simp [relayChunks, hfeed, sentChunks]
        · simp [relayChunks, hfeed, ends]
        · simp [relayChunks, hfeed, exits]
        · simp [relayChunks, hfeed, hreceived]
        · simp [relayChunks, hfeed, Script.cause, hstop]
      | none =>
        cases hresume : pass.resume with
        | some gone =>
          have hstop : pass.interruption = some gone.exn := by
            simp [Pass.interruption, hfeed, hresume]
          have hreceived := received_stopped hstop passes ending
          refine ⟨⟨1, ?_⟩, ?_, ?_, ?_, ?_⟩
          · simp [relayChunks, hfeed, hresume, sentChunks]
          · simp [relayChunks, hfeed, hresume, ends]
          · simp [relayChunks, hfeed, hresume, exits]
          · simp [relayChunks, hfeed, hresume, hreceived]
          · simp [relayChunks, hfeed, hresume, Script.cause, hstop]
        | none =>
          have hpassed : pass.interruption = none := by simp [Pass.interruption, hfeed, hresume]
          have hreceived := received_passed hpassed passes ending
          obtain ⟨⟨n, hsent⟩, hends, hexits, hflags, hraised⟩ := relayChunks_spec ending passes
            { flags with streamStarted := true, chunkCount := flags.chunkCount + 1 }
          simp only [relayChunks, hfeed, hresume]
          refine ⟨⟨n + 1, ?_⟩, hends, hexits, ?_, ?_⟩
          · rw [List.map_cons, List.take_succ_cons, ← hsent]
            rfl
          · rw [hflags, hreceived]
            simp [Nat.add_assoc, Nat.add_comm 1]
          · rw [hraised]
            simp [Script.cause, hpassed]

/-! ## 5. The handlers and the end -/

/-- The `except` clauses send the error body after an HTTP error only. -/
theorem handle_spec (flags : Flags) (hflags : flags.clientDisconnected = false) :
    let run := handle errorBody script flags script.cause
    sentChunks run.1 = (if script.upstreamFailed then [errorBody] else []) ∧ ends run.1 = []
      ∧ exits run.1 = []
      ∧ run.2.1 = { flags with
          failed := flags.failed || script.upstreamFailed
          clientDisconnected := script.cause.any Exn.isDisconnect } := by
  obtain ⟨failed, started, disconnected, count⟩ := flags
  obtain rfl : disconnected = false := hflags
  unfold Script.upstreamFailed
  cases script.cause with
  | none => simp [handle, sentChunks, ends, exits]
  | some e => cases e <;> simp [handle, sentChunks, ends, exits, Exn.isDisconnect]

theorem teardown_spec (flags : Flags) (raised : Option Exn) :
    sentChunks (teardown script flags raised).1 = []
      ∧ exits (teardown script flags raised).1
        = (if script.streamExit = none then [.exitStream, .exitClient] else [.exitStream])
      ∧ ends (teardown script flags raised).1
        = if script.streamExit = none ∧ script.clientExit = none then [flags] else [] := by
  unfold teardown
  cases hstream : script.streamExit with
  | some e => simp [sentChunks, ends, exits]
  | none =>
    cases hclient : script.clientExit with
    | some e => simp [sentChunks, ends, exits]
    | none => simp [sentChunks, ends, exits]

/-- A relay that was started: what it sends and what it reports. -/
theorem relayUpstream_started (h : script.start = none) :
    let effects := (relayUpstream errorBody script).1
    sentChunks effects = sentChunks (relayChunks script.ending {} script.passes).1
        ++ (if script.upstreamFailed then [errorBody] else [])
      ∧ exits effects
        = (if script.streamExit = none then [.exitStream, .exitClient] else [.exitStream])
      ∧ ends effects = if script.streamExit = none ∧ script.clientExit = none then
          [{ script.happened with clientDisconnected := script.cause.any Exn.isDisconnect }]
        else [] := by
  obtain ⟨-, hends, hexits, hflags, hraised⟩ := relayChunks_spec script.ending script.passes {}
  simp only [relayUpstream, h]
  rcases hrun : relayChunks script.ending {} script.passes with ⟨sent, flags, raised⟩
  rw [hrun] at hends hexits hflags hraised
  dsimp only at hends hexits hflags hraised
  obtain rfl : raised = script.cause := hraised
  have hhandled := handle_spec errorBody script flags (by rw [hflags])
  rcases hrun' : handle errorBody script flags script.cause with ⟨body, after, raised⟩
  rw [hrun'] at hhandled
  obtain ⟨hbody, hquiet, hstay, hafter⟩ := hhandled
  dsimp only at hbody hquiet hstay hafter
  obtain ⟨hnone, hexit, hend⟩ := teardown_spec script after raised
  have hreported : after
      = { script.happened with clientDisconnected := script.cause.any Exn.isDisconnect } := by
    rw [hafter, hflags]
    simp [Script.happened, Script.received]
  refine ⟨?_, ?_, ?_⟩
  · simp [hbody, hnone]
  · simp [hexits, hstay, hexit]
  · simp only [ends_append, hends, hquiet, hend, List.nil_append]
    rw [hreported]

/-- The report leaves out only a client that has left during the error
body. -/
theorem reported_eq_iff :
    { script.happened with clientDisconnected := script.cause.any Exn.isDisconnect }
      = script.happened ↔ (script.upstreamFailed = true → script.errorResume = none) := by
  have hdisconnected : script.cause.any Exn.isDisconnect = script.happened.clientDisconnected
      ↔ (script.upstreamFailed = true → script.errorResume = none) := by
    simp only [Script.happened, Script.disconnected]
    cases hfailed : script.upstreamFailed with
    | false => simp
    | true =>
      have hcause : script.cause = some .httpError := by
        simpa [Script.upstreamFailed] using hfailed
      cases script.errorResume with
      | none => simp
      | some gone => simp [hcause, Exn.isDisconnect]
  rw [← hdisconnected]
  constructor
  · intro h
    exact congrArg Flags.clientDisconnected h
  · intro h
    rw [h]

/-- **`on_end` is called once with what happened**, both context managers
are exited and the client gets a prefix of the chunks, exactly when the
exits end and the client neither leaves before its first pull nor during
the error body. -/
theorem relay_accounted_iff (errorBody : List UInt8) (script : Script) :
    Accounted errorBody script (relayUpstream errorBody script).1
      ↔ script.start = none ∧ script.streamExit = none ∧ script.clientExit = none
        ∧ (script.upstreamFailed = true → script.errorResume = none) := by
  cases hstart : script.start with
  | some gone =>
    have hsilent : (relayUpstream errorBody script).1 = [] := by simp [relayUpstream, hstart]
    constructor
    · intro h
      have honce := h.once
      rw [hsilent] at honce
      cases honce
    · rintro ⟨hnone, -⟩
      cases hnone
  | none =>
    obtain ⟨hsent, hexits, hends⟩ := relayUpstream_started errorBody script hstart
    obtain ⟨n, hstart⟩ := (relayChunks_spec script.ending script.passes {}).1
    constructor
    · intro h
      have honce := h.once
      rw [hends] at honce
      split at honce
      · rename_i hquiet
        have hreported := (List.cons.inj honce).1
        exact ⟨rfl, hquiet.1, hquiet.2, (reported_eq_iff script).mp hreported⟩
      · cases honce
    · rintro ⟨-, hstream, hclient, hbody⟩
      rw [if_pos ⟨hstream, hclient⟩, (reported_eq_iff script).mpr hbody] at hends
      rw [if_pos hstream] at hexits
      exact ⟨hends, hexits, ⟨n, by rw [hsent, hstart]⟩⟩

/-- The exit of the stream raises: nobody is told that the relay is over. -/
theorem streamExit_skips_onEnd :
    let script : Script := { passes := [⟨[100], none, none⟩], streamExit := some .httpError }
    relayUpstream [] script = ([.sent [100], .exitStream], some .httpError)
      ∧ ¬ Accounted [] script (relayUpstream [] script).1 := by
  refine ⟨rfl, fun h => ?_⟩
  have honce := h.once
  cases honce

/-! ## 6. The bytes and the tap -/

/-- The script of chunks that end one way, with nothing else raised. -/
def quietScript (ending : StreamRelay.Ending) (chunks : List (List UInt8)) : Script where
  passes := chunks.map fun chunk => { chunk := chunk }
  ending := match ending with
    | .complete => none
    | .upstreamError => some .httpError
    | .disconnected => some .cancelled

theorem relayChunks_quiet (ending : Option Exn) : ∀ (chunks : List (List UInt8)) (flags : Flags),
    sentChunks (relayChunks ending flags (chunks.map fun chunk => { chunk := chunk })).1 = chunks
  | [], _ => rfl
  | chunk :: chunks, flags => by
      have ih := relayChunks_quiet ending chunks
        { flags with streamStarted := true, chunkCount := flags.chunkCount + 1 }
      exact congrArg (chunk :: ·) ih

/-- Nothing but the end of the chunks ends a quiet script. -/
theorem quietScript_cause (ending : StreamRelay.Ending) (chunks : List (List UInt8)) :
    (quietScript ending chunks).cause = (quietScript ending []).cause := by
  have hnone : (chunks.map fun chunk => ({ chunk := chunk } : Pass)).findSome? Pass.interruption
      = none := by
    rw [List.findSome?_eq_none_iff]
    intro pass hmem
    obtain ⟨chunk, -, rfl⟩ := List.mem_map.mp hmem
    rfl
  simp [Script.cause, quietScript, hnone]

/-- **The relay and its tap agree**: the same bytes, and one end with the
same flags. -/
theorem relay_agrees {S V : Type} (loads : List Char → SseFraming.Loaded V)
    (merge : S → V → Option S) (ending : StreamRelay.Ending) (errorBody : List UInt8)
    (tap : StreamRelay.Tap S) (chunks : List (List UInt8)) :
    let tapped := (StreamRelay.relayUpstream loads merge ending errorBody tap chunks).1
    let run := (relayUpstream errorBody (quietScript ending chunks)).1
    StreamRelay.sentBytes tapped = (sentChunks run).flatten
      ∧ (StreamRelay.ends tapped).map Prod.snd
        = (ends run).map fun flags => (flags.failed, flags.clientDisconnected) := by
  have hcause := quietScript_cause ending chunks
  have hchunks := relayChunks_quiet (quietScript ending chunks).ending chunks {}
  obtain ⟨acc, htapped⟩ := StreamRelay.relay_ends loads merge errorBody ending chunks tap
  obtain ⟨hsent, -, hends⟩ := relayUpstream_started errorBody (quietScript ending chunks) rfl
  constructor
  · rw [StreamRelay.relay_sent, hsent, Script.upstreamFailed, hcause, List.flatten_append]
    refine congrArg₂ (· ++ ·) (congrArg List.flatten hchunks).symm ?_
    cases ending <;> simp [Script.cause, quietScript]
  · rw [htapped, hends, if_pos ⟨rfl, rfl⟩]
    simp only [Script.happened, Script.upstreamFailed, hcause]
    cases ending <;> rfl

end MultiForge.Proxy.RelayTeardown
