/-
MultiForge.Proxy.ClientMessage — the message a client assembles from the
events.

`content_block_start` adds a block, `content_block_delta` extends the
block with its index, `message_delta` sets the stop reason and overwrites
the usage fields it carries. Block indices are kept beside the blocks;
`numbered` is the shape the converter produces, in which they are the
positions.
-/
import MultiForge.Proxy.Events

namespace MultiForge.Proxy

open Json

/-- A content block as received. -/
inductive ClientBlock (F : Type) where
  | text (text : String)
  | toolUse (id name : Json F) (partialJson : String)
  deriving DecidableEq, Repr

/-- The usage a client shows; `message_start` reports zeros. -/
structure ClientUsage (F : Type) where
  inputTokens : Json F := .int 0
  cacheCreationInputTokens : Json F := .int 0
  cacheReadInputTokens : Json F := .int 0
  outputTokens : Json F := .int 0
  deriving DecidableEq, Repr

structure ClientMessage (F : Type) where
  blocks : List (Int × ClientBlock F) := []
  stopReason : Option String := none
  usage : ClientUsage F := {}
  deriving DecidableEq, Repr

variable {F : Type}

def ClientBlock.ofStart : ContentBlock F → ClientBlock F
  | .text => .text ""
  | .toolUse id name => .toolUse id name ""

def ClientBlock.extend : ClientBlock F → BlockDelta → ClientBlock F
  | .text t, .textDelta u => .text (t ++ u)
  | .toolUse id name j, .inputJsonDelta p => .toolUse id name (j ++ p)
  | b, _ => b

def ClientUsage.update (u : ClientUsage F) (e : EventUsage F) : ClientUsage F where
  inputTokens := e.inputTokens
  cacheCreationInputTokens := e.cacheCreationInputTokens
  cacheReadInputTokens := e.cacheReadInputTokens
  outputTokens := e.outputTokens.getD u.outputTokens

def extendAt (i : Int) (d : BlockDelta) (blocks : List (Int × ClientBlock F)) :
    List (Int × ClientBlock F) :=
  blocks.map fun b => if b.1 = i then (b.1, b.2.extend d) else b

def ClientMessage.step (m : ClientMessage F) : SseEvent F → ClientMessage F
  | .contentBlockStart i b => { m with blocks := m.blocks ++ [(i, .ofStart b)] }
  | .contentBlockDelta i d => { m with blocks := extendAt i d m.blocks }
  | .messageDelta reason usage =>
      { m with
        stopReason := reason.or m.stopReason
        usage := match usage with
          | some u => m.usage.update u
          | none => m.usage }
  | _ => m

/-- The message after a sequence of events. -/
def receive (evs : List (SseEvent F)) : ClientMessage F := evs.foldl ClientMessage.step {}

@[simp] theorem receive_nil : receive (F := F) [] = {} := rfl

theorem receive_append (as bs : List (SseEvent F)) :
    receive (as ++ bs) = bs.foldl ClientMessage.step (receive as) :=
  List.foldl_append

@[simp] theorem receive_snoc (as : List (SseEvent F)) (e : SseEvent F) :
    receive (as ++ [e]) = (receive as).step e := by
  simp [receive_append]

/-- The events before the first content leave the message empty. -/
@[simp] theorem receive_start (id model : String) (evs : List (SseEvent F)) :
    receive (.messageStart id model :: .ping :: evs) = receive evs := rfl

/-! ## Numbered blocks -/

/-- Blocks with their positions, from `n` on. -/
def numbered (n : Nat) : List (ClientBlock F) → List (Int × ClientBlock F)
  | [] => []
  | b :: bs => ((n : Int), b) :: numbered (n + 1) bs

theorem numbered_append (n : Nat) (as bs : List (ClientBlock F)) :
    numbered n (as ++ bs) = numbered n as ++ numbered (n + as.length) bs := by
  induction as generalizing n with
  | nil => rfl
  | cons a as ih =>
    have hlen : n + 1 + as.length = n + (as.length + 1) := by omega
    simp [numbered, ih, hlen]

theorem numbered_map_snd (n : Nat) (bs : List (ClientBlock F)) :
    (numbered n bs).map Prod.snd = bs := by
  induction bs generalizing n with
  | nil => rfl
  | cons b bs ih => simp [numbered, ih]

theorem extendAt_other {i : Int} {n : Nat} (d : BlockDelta) (bs : List (ClientBlock F))
    (h : i < n ∨ n + bs.length ≤ i) : extendAt i d (numbered n bs) = numbered n bs := by
  induction bs generalizing n with
  | nil => rfl
  | cons b bs ih =>
    rw [List.length_cons] at h
    have hne : ¬ (n : Int) = i := by omega
    have := ih (n := n + 1) (by omega)
    simp only [numbered, extendAt, List.map_cons, hne, if_false] at this ⊢
    rw [this]

/-- A delta extends the block at its position and no other. -/
theorem extendAt_numbered (n : Nat) (d : BlockDelta) (pre : List (ClientBlock F))
    (b : ClientBlock F) (post : List (ClientBlock F)) :
    extendAt ((n + pre.length : Nat) : Int) d (numbered n (pre ++ b :: post))
      = numbered n (pre ++ b.extend d :: post) := by
  have hpre := extendAt_other (i := ((n + pre.length : Nat) : Int)) (n := n) d pre
    (Or.inr (by omega))
  have hpost := extendAt_other (i := ((n + pre.length : Nat) : Int)) (n := n + pre.length + 1) d
    post (Or.inl (by omega))
  simp only [extendAt, numbered_append, numbered, List.map_append, List.map_cons] at hpre hpost ⊢
  rw [hpre, hpost, if_pos trivial]

end MultiForge.Proxy
