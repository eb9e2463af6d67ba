/-
MultiForge.Proxy.ToolCallAccumulator — the accumulator of
`forge.core.llm.clients.openai_compat`.

`pending` is a `dict` keyed by the tool-call index. `finalize` is `none`
where building a `ToolCall` from arguments that are not a JSON object
raises.
-/
import Mathlib.Data.List.Sort
import MultiForge.Proxy.ClientAdapter

namespace MultiForge.Proxy

open Json

/-- `_pending`: the delta collected for each index. -/
abbrev PendingCalls := List (Int × ToolCallDelta)

/-- `existing` after a delta of its index. -/
def mergeDelta (existing delta : ToolCallDelta) : ToolCallDelta :=
  { index := existing.index
    id := if nonEmpty delta.id then delta.id else existing.id
    name := if nonEmpty delta.name then delta.name else existing.name
    argumentsJson := existing.argumentsJson ++ delta.argumentsJson }

/-- Merge a delta into the entry of an index, which is created first. -/
def mergeInto (idx : Int) (delta : ToolCallDelta) : PendingCalls → PendingCalls
  | [] => [(idx, mergeDelta { index := some idx } delta)]
  | (i, existing) :: rest =>
      if i = idx then (i, mergeDelta existing delta) :: rest
      else (i, existing) :: mergeInto idx delta rest

/-- `add_delta` -/
def addDelta (pending : PendingCalls) (delta : ToolCallDelta) : PendingCalls :=
  match delta.index with
  | none => pending
  | some idx => mergeInto idx delta pending

/-- The accumulator after a sequence of deltas. -/
def accumulate (deltas : List ToolCallDelta) : PendingCalls := deltas.foldl addDelta []

/-- `sorted(self._pending)` -/
def sortedPending (pending : PendingCalls) : PendingCalls :=
  pending.insertionSort fun a b => a.1 ≤ b.1

variable {F : Type} [PyFloatText F]

/-- `json.loads(arguments_json) if arguments_json else {}`, with the
fallback for text that is not JSON. -/
def parseArguments (argumentsJson : String) : Json F :=
  if argumentsJson = "" then .obj [] else (loads argumentsJson).getD (.obj [])

/-- The loop of `finalize`. -/
def finalizeLoop : PendingCalls → Option (List (ToolCall F))
  | [] => some []
  | (_, delta) :: rest =>
      match delta.id, delta.name with
      | some id, some name =>
          if id ≠ "" ∧ name ≠ "" then
            match (parseArguments delta.argumentsJson : Json F) with
            | .obj arguments => (finalizeLoop rest).map fun r => ⟨id, name, arguments⟩ :: r
            | _ => none
          else finalizeLoop rest
      | _, _ => finalizeLoop rest

/-- `finalize` -/
def finalize (pending : PendingCalls) : Option (List (ToolCall F)) :=
  finalizeLoop (sortedPending pending)

/-! ## The calls before their arguments are parsed -/

/-- A call with the text of its arguments. -/
structure AccumulatedCall where
  id : String
  name : String
  argumentsJson : String
  deriving DecidableEq, Repr

/-- A pending entry that has its id and its name. -/
def completeCall (entry : Int × ToolCallDelta) : Option AccumulatedCall :=
  match entry.2.id, entry.2.name with
  | some id, some name =>
      if id ≠ "" ∧ name ≠ "" then some ⟨id, name, entry.2.argumentsJson⟩ else none
  | _, _ => none

/-- The calls `finalize` builds its result from, in its order. -/
def completeCalls (pending : PendingCalls) : List AccumulatedCall :=
  (sortedPending pending).filterMap completeCall

def AccumulatedCall.toToolCall (call : AccumulatedCall) : Option (ToolCall F) :=
  match (parseArguments call.argumentsJson : Json F) with
  | .obj arguments => some ⟨call.id, call.name, arguments⟩
  | _ => none

theorem finalizeLoop_eq : ∀ pending : PendingCalls,
    finalizeLoop (F := F) pending
      = (pending.filterMap completeCall).mapM AccumulatedCall.toToolCall
  | [] => rfl
  | (i, delta) :: rest => by
      have ih := finalizeLoop_eq rest
      rw [List.filterMap_cons]
      cases hid : delta.id with
      | none => simp [finalizeLoop, completeCall, hid, ih]
      | some id =>
        cases hname : delta.name with
        | none => simp [finalizeLoop, completeCall, hid, hname, ih]
        | some name =>
          simp only [finalizeLoop, completeCall, hid, hname]
          split
          · simp only [List.mapM_cons, AccumulatedCall.toToolCall, ← ih]
            cases (parseArguments delta.argumentsJson : Json F) with
            | obj arguments => cases finalizeLoop (F := F) rest <;> rfl
            | _ => rfl
          · exact ih

/-- **`finalize` parses the arguments of the complete calls**, in the order
of their indices. -/
theorem finalize_eq (pending : PendingCalls) :
    finalize (F := F) pending = (completeCalls pending).mapM AccumulatedCall.toToolCall :=
  finalizeLoop_eq _

end MultiForge.Proxy
