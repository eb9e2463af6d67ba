/-
MultiForge.Proxy.Events — the Server-Sent Events of the Anthropic
streaming API and the grammar a client relies on.

The proxy writes each event as `event: <name>\ndata: <json>\n\n`; the
constructors of `SseEvent` are the payloads it writes, with the fields it
puts in them. `WellFormed` is the streaming grammar: `message_start`
first, then content blocks that meet the block contract of
`MultiForge.Lib.BlockStream`, then one `message_delta` with a
`stop_reason`, then `message_stop` and nothing else. `ping` and
`message_delta` events that only update usage may appear in between.
-/
import MultiForge.Json.Value
import MultiForge.Lib.BlockStream

namespace MultiForge.Proxy

open BlockStream (Action Monitor Accepted)

inductive BlockType where
  | text
  | toolUse
  deriving DecidableEq, Repr

/-- The `content_block` of a `content_block_start` event. -/
inductive ContentBlock (F : Type) where
  | text
  | toolUse (id name : Json F)
  deriving DecidableEq, Repr

/-- The `delta` of a `content_block_delta` event. -/
inductive BlockDelta where
  | textDelta (text : String)
  | inputJsonDelta (partialJson : String)
  deriving DecidableEq, Repr

/-- The `usage` of a `message_delta` event; only the final one carries
`output_tokens`. -/
structure EventUsage (F : Type) where
  inputTokens : Json F
  cacheCreationInputTokens : Json F
  cacheReadInputTokens : Json F
  outputTokens : Option (Json F) := none
  deriving DecidableEq, Repr

inductive SseEvent (F : Type) where
  | messageStart (id model : String)
  | ping
  | contentBlockStart (index : Int) (block : ContentBlock F)
  | contentBlockDelta (index : Int) (delta : BlockDelta)
  | contentBlockStop (index : Int)
  /-- `stopReason = none` is the empty `delta` of a usage update. -/
  | messageDelta (stopReason : Option String) (usage : Option (EventUsage F))
  | messageStop
  | error (type message : Json F)
  deriving DecidableEq, Repr

variable {F : Type}

def ContentBlock.type : ContentBlock F → BlockType
  | .text => .text
  | .toolUse _ _ => .toolUse

def BlockDelta.type : BlockDelta → BlockType
  | .textDelta _ => .text
  | .inputJsonDelta _ => .toolUse

/-- What an event does to the content blocks. -/
def SseEvent.blockAction? : SseEvent F → Option (Action BlockType)
  | .contentBlockStart i b => some (.start i b.type)
  | .contentBlockDelta i d => some (.delta i d.type)
  | .contentBlockStop i => some (.stop i)
  | _ => none

/-- The events allowed between `message_start` and the final
`message_delta`. -/
def SseEvent.isBody : SseEvent F → Bool
  | .messageStart _ _ => false
  | .messageDelta (some _) _ => false
  | .messageStop => false
  | .error _ _ => false
  | _ => true

def blockActions (evs : List (SseEvent F)) : List (Action BlockType) :=
  evs.filterMap SseEvent.blockAction?

/-- The Anthropic streaming grammar. -/
structure WellFormed (evs : List (SseEvent F)) : Prop where
  /-- `message_start` first, one final `message_delta` with a stop reason,
  `message_stop` last, and no other such event in between -/
  shape : ∃ id model body reason usage,
    evs = .messageStart id model :: body ++ [.messageDelta (some reason) usage, .messageStop] ∧
    ∀ e ∈ body, e.isBody = true
  /-- the content blocks meet the block contract -/
  blocks : Accepted (blockActions evs)

@[simp] theorem blockActions_nil : blockActions (F := F) [] = [] := rfl

@[simp] theorem blockActions_append (a b : List (SseEvent F)) :
    blockActions (a ++ b) = blockActions a ++ blockActions b := by
  simp [blockActions]

@[simp] theorem blockActions_cons (e : SseEvent F) (l : List (SseEvent F)) :
    blockActions (e :: l) = e.blockAction?.toList ++ blockActions l := by
  cases h : e.blockAction? <;> simp [blockActions, h]

end MultiForge.Proxy
