/-
MultiForge.Proxy.Stream — `convert_openai_to_anthropic_sse`.

The generator's locals are the fields of `StreamState`; what it has
yielded is `out`. A chunk is an arbitrary JSON value. An operation of the
loop body that raises in Python ends the body with `Except.error` and the
state at that point, whose `out` is what the client had been sent; the
handler then yields the `error` event and `message_stop`.

`tool_calls_buffer` is a `dict` in insertion order, keyed by the hash
identity of the chunk's `index` value.
-/
import Mathlib.Data.List.Sort
import MultiForge.Proxy.Events
import MultiForge.Proxy.Sanitize

namespace MultiForge.Proxy

open Json

variable {F : Type} [DecidableEq F] [PyFloatText F]

/-! ## 1. State -/

/-- An entry of `tool_calls_buffer`. -/
structure ToolInfo (F : Type) where
  id : Json F
  /-- `None` while only the id has arrived -/
  name : Json F
  args : String
  /-- `None` until the block is started -/
  blockIdx : Option Int
  bufferArgs : Bool
  deriving DecidableEq, Repr

abbrev ToolCallsBuffer (F : Type) := List (Key F × ToolInfo F)

structure FinalUsage (F : Type) where
  inputTokens : Json F := .int 0
  outputTokens : Json F := .int 0
  cachedTokens : Json F := .int 0
  cacheWriteTokens : Json F := .int 0
  reportedCostMicros : Option (Json F) := none
  deriving DecidableEq, Repr

structure StreamState (F : Type) where
  contentBlockIndex : Int := -1
  currentBlockType : Option BlockType := none
  textStarted : Bool := false
  toolCallsBuffer : ToolCallsBuffer F := []
  finalUsage : FinalUsage F := {}
  finalStopReason : Option String := none
  chunkCount : Nat := 0
  firstChunkSeen : Bool := false
  finalUsageSeen : Bool := false
  providerTraceMeta : Option (List (String × Json F)) := none
  streamErrorType : Option (Json F) := none
  out : List (SseEvent F) := []
  deriving DecidableEq, Repr

/-- The body of the loop, or a part of it: `error` is a raised exception. -/
abbrev Body (F α : Type) := Except (StreamState F) α

/-- What a value that may be missing means inside the body: `none` is an
operation that raises. -/
def orRaise {α : Type} (s : StreamState F) : Option α → Body F α
  | some a => .ok a
  | none => .error s

/-- The items of a value on which `.get` is called; any other value
raises `AttributeError`. -/
def items? : Json F → Option (List (String × Json F))
  | .obj items => some items
  | _ => none

def StreamState.yield (s : StreamState F) (e : SseEvent F) : StreamState F :=
  { s with out := s.out ++ [e] }

def StreamState.yieldAll (s : StreamState F) (es : List (SseEvent F)) : StreamState F :=
  { s with out := s.out ++ es }

namespace ToolCallsBuffer

def lookup (k : Key F) : ToolCallsBuffer F → Option (ToolInfo F)
  | [] => none
  | (k', t) :: rest => if k' = k then some t else lookup k rest

/-- Replace the entry stored under an existing key. -/
def update (k : Key F) (t : ToolInfo F) : ToolCallsBuffer F → ToolCallsBuffer F
  | [] => []
  | (k', t') :: rest => if k' = k then (k', t) :: rest else (k', t') :: update k t rest

end ToolCallsBuffer

/-! ## 2. Closing tool blocks -/

/-- `_build_sanitized_args_delta` -/
def buildSanitizedArgsDelta (t : ToolInfo F) (blockIdx : Int) : Option (SseEvent F) :=
  if t.args = "" then none
  else
    let partialJson := sanitizeToolArgumentsJson t.name t.args
    if partialJson = "" then none
    else some (.contentBlockDelta blockIdx (.inputJsonDelta partialJson))

/-- The started entries, with their block index. -/
def startedTools (buffer : ToolCallsBuffer F) : List (Int × ToolInfo F) :=
  buffer.filterMap fun kt => kt.2.blockIdx.map fun i => (i, kt.2)

/-- The events that close one started block. -/
def closeToolBlock (b : Int × ToolInfo F) : List (SseEvent F) :=
  (if b.2.bufferArgs then (buildSanitizedArgsDelta b.2 b.1).toList else [])
    ++ [.contentBlockStop b.1]

/-- `sorted(started_tools, key=block_idx)` -/
def sortedTools (buffer : ToolCallsBuffer F) : List (Int × ToolInfo F) :=
  (startedTools buffer).insertionSort fun a b => a.1 ≤ b.1

/-- `_build_tool_block_close_events` -/
def buildToolBlockCloseEvents (buffer : ToolCallsBuffer F) : List (SseEvent F) :=
  (sortedTools buffer).flatMap closeToolBlock

/-! ## 3. The parts of the loop body -/

/-- `if v > 0:` followed by an update of the state. -/
def whenPos (s : StreamState F) (v : Json F) (f : StreamState F → StreamState F) :
    Body F (StreamState F) := do
  pure (if ← orRaise s v.gtZero? then f s else s)

def setCachedTokens (v : Json F) (s : StreamState F) : StreamState F :=
  { s with finalUsage := { s.finalUsage with cachedTokens := v } }

def setCacheWriteTokens (v : Json F) (s : StreamState F) : StreamState F :=
  { s with finalUsage := { s.finalUsage with cacheWriteTokens := v } }

def setOutputTokens (v : Json F) (s : StreamState F) : StreamState F :=
  { s with finalUsage := { s.finalUsage with outputTokens := v } }

/-- "Emit input tokens once, when the stream first reports them." -/
def reportInputTokens (promptTokens cachedTokens cacheWriteTokens : Json F) (s : StreamState F) :
    StreamState F :=
  if s.finalUsage.inputTokens.eqZero then
    let u := anthropicCacheUsage promptTokens cachedTokens cacheWriteTokens
    StreamState.yield
      { s with finalUsage := { s.finalUsage with inputTokens := promptTokens } }
      (.messageDelta none (some
        ⟨u.inputTokens, u.cacheCreationInputTokens, u.cacheReadInputTokens, none⟩))
  else s

def setReportedCost (v : Json F) (s : StreamState F) : StreamState F :=
  if v = .null then s
  else { s with finalUsage := { s.finalUsage with reportedCostMicros := some v } }

/-- The usage part of the body. -/
def processUsage (s : StreamState F) (chunkUsage : List (String × Json F)) :
    Body F (StreamState F) := do
  let promptTokens := getD chunkUsage "prompt_tokens" (.int 0)
  let completionTokens := getD chunkUsage "completion_tokens" (.int 0)
  let cachedTokens := (getD chunkUsage "cached_tokens" (.int 0)).orElse (.int 0)
  let cacheWriteTokens := (getD chunkUsage "cache_write_tokens" (.int 0)).orElse (.int 0)
  let s ← whenPos { s with finalUsageSeen := true } cachedTokens (setCachedTokens cachedTokens)
  let s ← whenPos s cacheWriteTokens (setCacheWriteTokens cacheWriteTokens)
  let s ← whenPos s promptTokens (reportInputTokens promptTokens cachedTokens cacheWriteTokens)
  let s ← whenPos s completionTokens (setOutputTokens completionTokens)
  pure (setReportedCost (get chunkUsage "reported_cost_micros") s)

/-- "If currently in a tool_use block, stop it first." -/
def stopToolBlocks (s : StreamState F) : StreamState F :=
  if s.currentBlockType = some .toolUse then
    if s.toolCallsBuffer.isEmpty then { s with currentBlockType := none }
    else
      { s.yieldAll (buildToolBlockCloseEvents s.toolCallsBuffer) with
        toolCallsBuffer := [], currentBlockType := none }
  else s

def startTextBlock (s : StreamState F) : StreamState F :=
  if s.textStarted then s
  else
    StreamState.yield
      { s with
        firstChunkSeen := true
        contentBlockIndex := s.contentBlockIndex + 1
        currentBlockType := some .text
        textStarted := true }
      (.contentBlockStart (s.contentBlockIndex + 1) .text)

/-- A non-empty text delta. -/
def processTextDelta (s : StreamState F) (text : String) : StreamState F :=
  let s := startTextBlock (stopToolBlocks s)
  s.yield (.contentBlockDelta s.contentBlockIndex (.textDelta text))

/-- The text block is closed when a tool call arrives. -/
def stopTextBlock (s : StreamState F) : StreamState F :=
  if s.currentBlockType = some .text ∧ s.textStarted then
    { s.yield (.contentBlockStop s.contentBlockIndex) with
      currentBlockType := none, textStarted := false }
  else s

/-- Take the next block index for a tool call whose id and name are both
known. -/
def nextToolBlock (s : StreamState F) : StreamState F :=
  { s with
    firstChunkSeen := true
    contentBlockIndex := s.contentBlockIndex + 1
    currentBlockType := some .toolUse }

/-- The first part of the body of `for tc_delta in tool_calls_delta`:
start a block, or remember the id, or wait. `none` is the `continue` of a
delta that cannot start a block. -/
def openToolCall (s : StreamState F) (idx : Key F) (tcId funcName : Json F) :
    Body F (Option (StreamState F)) :=
  match ToolCallsBuffer.lookup idx s.toolCallsBuffer with
  | none =>
      if tcId.truthy && funcName.truthy then do
        let s := nextToolBlock s
        let bufferArgs ← orRaise s (shouldBufferStreamingToolArgs funcName)
        pure (some (StreamState.yield
          { s with toolCallsBuffer := s.toolCallsBuffer ++
              [(idx, ⟨tcId, funcName, "", some s.contentBlockIndex, bufferArgs⟩)] }
          (.contentBlockStart s.contentBlockIndex (.toolUse tcId funcName))))
      else if tcId.truthy && !funcName.truthy then
        -- the id can arrive before the name
        pure (some { s with
          toolCallsBuffer := s.toolCallsBuffer ++ [(idx, ⟨tcId, .null, "", none, false⟩)] })
      else pure none
  | some t =>
      if funcName.truthy && t.name = .null then
        if t.id.pyEq tcId then do
          let s := nextToolBlock s
          let bufferArgs ← orRaise s (shouldBufferStreamingToolArgs funcName)
          let t := { t with
            name := funcName, blockIdx := some s.contentBlockIndex, bufferArgs := bufferArgs }
          pure (some (StreamState.yield
            { s with toolCallsBuffer := ToolCallsBuffer.update idx t s.toolCallsBuffer }
            (.contentBlockStart s.contentBlockIndex (.toolUse t.id funcName))))
        else pure (some s)  -- id mismatch, the name is skipped
      else pure (some s)

def setToolArgs (s : StreamState F) (idx : Key F) (t : ToolInfo F) (args : String) :
    StreamState F :=
  { s with toolCallsBuffer := ToolCallsBuffer.update idx { t with args := args } s.toolCallsBuffer }

/-- "Append argument fragments if block has started." -/
def appendToolArgs (s : StreamState F) (idx : Key F) (argsDelta : Json F) :
    Body F (StreamState F) :=
  match ToolCallsBuffer.lookup idx s.toolCallsBuffer with
  | none => pure s
  | some t =>
      match argsDelta.truthy, t.blockIdx with
      | true, some blockIdx =>
          match argsDelta with
          | .str frag =>
              let s := setToolArgs s idx t (t.args ++ frag)
              if t.bufferArgs then pure s
              else pure (s.yield (.contentBlockDelta blockIdx (.inputJsonDelta frag)))
          | _ => .error s  -- `str += non-str`
      | _, _ => pure s

/-- One element of `tool_calls_delta`. -/
def processToolCallDelta (s : StreamState F) (tcDelta : Json F) : Body F (StreamState F) :=
  match tcDelta with
  | .obj tc => do
      let funcDelta ← orRaise s (items? ((getD tc "function" (.obj [])).orElse (.obj [])))
      let funcName := get funcDelta "name"
      let argsDelta := get funcDelta "arguments"
      let idx ← orRaise s (getD tc "index" (.int 0)).key?
      match ← openToolCall s idx (get tc "id") funcName with
      | none => pure s
      | some s => appendToolArgs s idx argsDelta
  | _ => pure s

def processToolCallDeltas (s : StreamState F) : List (Json F) → Body F (StreamState F)
  | [] => pure s
  | d :: ds => do processToolCallDeltas (← processToolCallDelta s d) ds

/-- `stop_reason_map` -/
def stopReasonMap (finishReason : Json F) : String :=
  match finishReason with
  | .str "stop" => "end_turn"
  | .str "length" => "max_tokens"
  | .str "tool_calls" => "tool_use"
  | .str "content_filter" => "content_filtered"
  | _ => "end_turn"

/-- How the body of the loop ends. -/
inductive Flow where
  | next
  /-- `break` after a finish reason -/
  | brk
  /-- `return` after an error chunk -/
  | ret
  deriving DecidableEq, Repr

/-- The content of a delta. -/
def processContent (s : StreamState F) (delta : List (String × Json F)) : StreamState F :=
  match get delta "content" with
  | .str text => if text ≠ "" then processTextDelta s text else s
  | _ => s

/-- The tool calls of a delta. -/
def processToolCalls (s : StreamState F) (delta : List (String × Json F)) :
    Body F (StreamState F) :=
  match get delta "tool_calls" with
  | .list ds => if ds.isEmpty then pure s else processToolCallDeltas (stopTextBlock s) ds
  | _ => pure s

def processFinishReason (s : StreamState F) (finishReason : Json F) :
    Body F (StreamState F × Flow) :=
  if finishReason.truthy then do
    let _ ← orRaise s finishReason.key?
    pure ({ s with finalStopReason := some (stopReasonMap finishReason) }, .brk)
  else pure (s, .next)

/-- The choice part of the body. -/
def processChoice (s : StreamState F) (choice : List (String × Json F)) :
    Body F (StreamState F × Flow) := do
  let delta ← orRaise s (items? ((getD choice "delta" (.obj [])).orElse (.obj [])))
  let s ← processToolCalls (processContent s delta) delta
  processFinishReason s (get choice "finish_reason")

/-- An error chunk: it is reported and ends the stream. -/
def processErrorChunk (s : StreamState F) (errorData : Json F) : Body F (StreamState F × Flow) := do
  let e ← orRaise s (items? errorData)
  pure (StreamState.yield
    { s with streamErrorType := some (getD e "type" (.str "stream_error")) }
    (.error (getD e "type" (.str "api_error"))
      (getD e "message" (.str "Unknown streaming error"))), .ret)

/-- A chunk that carries provider metadata and nothing else. -/
def processProviderMeta (s : StreamState F) (providerMeta : Json F) : StreamState F :=
  match providerMeta with
  | .obj m => { s with providerTraceMeta := some m }
  | _ => s

def processChunkUsage (s : StreamState F) (chunk : List (String × Json F)) :
    Body F (StreamState F) :=
  match get chunk "usage" with
  | .obj u => if u.isEmpty then pure s else processUsage s u
  | _ => pure s

/-- A chunk without choices ends the body after its usage. -/
def processChoices (s : StreamState F) (chunk : List (String × Json F)) :
    Body F (StreamState F × Flow) :=
  match getD chunk "choices" (.list []) with
  | .list (.obj choice :: _) => processChoice s choice
  | _ => pure (s, .next)

def processDictChunk (s : StreamState F) (chunk : List (String × Json F)) :
    Body F (StreamState F × Flow) :=
  if get chunk "_provider_meta" ≠ .null then
    pure (processProviderMeta s (get chunk "_provider_meta"), .next)
  else if hasKey chunk "error" then processErrorChunk s (get chunk "error")
  else do
    let s ← processChunkUsage s chunk
    processChoices s chunk

/-- The body of `async for chunk in response_generator`. -/
def processChunk (s : StreamState F) (chunk : Json F) : Body F (StreamState F × Flow) :=
  match chunk with
  | .obj chunk => processDictChunk { s with chunkCount := s.chunkCount + 1 } chunk
  | _ => pure ({ s with chunkCount := s.chunkCount + 1 }, .next)

/-! ## 4. The loop and the end of the stream -/

/-- The loop; the flag says that it was left by the `return` of an error
chunk. -/
def streamLoop (s : StreamState F) : List (Json F) → Body F (StreamState F × Bool)
  | [] => pure (s, false)
  | chunk :: chunks => do
      match ← processChunk s chunk with
      | (s, .next) => streamLoop s chunks
      | (s, .brk) => pure (s, false)
      | (s, .ret) => pure (s, true)

/-- Close what is still open when the loop is over. -/
def closeBlocks (s : StreamState F) : StreamState F :=
  if s.currentBlockType = some .text ∧ s.textStarted then
    s.yield (.contentBlockStop s.contentBlockIndex)
  else if s.currentBlockType = some .toolUse then
    s.yieldAll (buildToolBlockCloseEvents s.toolCallsBuffer)
  else s

/-- The usage of the final `message_delta`, omitted when it would only
carry zeros. -/
def finalDeltaUsage (s : StreamState F) : Body F (Option (EventUsage F)) := do
  let u := s.finalUsage
  if (← orRaise s u.inputTokens.gtZero?) || (← orRaise s u.outputTokens.gtZero?) then
    let c := anthropicCacheUsage u.inputTokens u.cachedTokens u.cacheWriteTokens
    pure (some ⟨c.inputTokens, c.cacheCreationInputTokens, c.cacheReadInputTokens,
      some u.outputTokens⟩)
  else pure none

/-- "End of Stream" -/
def endOfStream (s : StreamState F) : Body F (StreamState F) := do
  let s := closeBlocks s
  let s := { s with finalStopReason := some (s.finalStopReason.getD "end_turn") }
  let usage ← finalDeltaUsage s
  pure (s.yieldAll [.messageDelta s.finalStopReason usage, .messageStop])

/-- What the generator yields and what it reports to `on_complete`. -/
structure SseResult (F : Type) where
  events : List (SseEvent F)
  finalUsage : FinalUsage F
  streamFailed : Bool
  streamErrorType : Option (Json F)
  providerTraceMeta : Option (List (String × Json F))
  firstChunkSeen : Bool
  finalUsageSeen : Bool

def SseResult.of (messageId model : String) (s : StreamState F) (tail : List (SseEvent F))
    (failed : Bool) (errorType : Option (Json F)) : SseResult F :=
  { events := .messageStart messageId model :: .ping :: s.out ++ tail
    finalUsage := s.finalUsage
    streamFailed := failed
    streamErrorType := errorType
    providerTraceMeta := s.providerTraceMeta
    firstChunkSeen := s.firstChunkSeen
    finalUsageSeen := s.finalUsageSeen }

/-- The handler of an exception raised in the body or at the end. -/
def streamRaised (messageId model : String) (s : StreamState F) : SseResult F :=
  SseResult.of messageId model s
    [.error (.str "internal_server_error") (.str "Stream processing error"), .messageStop]
    true (some (.str "internal_error"))

/-- `convert_openai_to_anthropic_sse`, run to its end. -/
def convertOpenaiToAnthropicSse (messageId model : String) (chunks : List (Json F)) :
    SseResult F :=
  match streamLoop {} chunks with
  | .error s => streamRaised messageId model s
  | .ok (s, true) => SseResult.of messageId model s [] true s.streamErrorType
  | .ok (s, false) =>
      match endOfStream s with
      | .error s => streamRaised messageId model s
      | .ok s => SseResult.of messageId model s [] false none

end MultiForge.Proxy
