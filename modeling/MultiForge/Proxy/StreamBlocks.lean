/-
MultiForge.Proxy.StreamBlocks — the blocks a client receives, computed
from the fragments.

The converter is related to the one-pass reader of
`MultiForge.Lib.Fragments`: a text delta is a text, a tool-call delta is
a fragment of the call with its index, and it opens the call when it
carries both the id and the name. `ToolSim` and `TextSim` relate the
converter's state to the reader's while calls are open and while a text
is open; entries that only know their id do not show in the relation,
because nothing the client sees depends on them.
-/
import MultiForge.Lib.Fragments
import MultiForge.Proxy.ClientAdapter
import MultiForge.Proxy.ClientMessage
import MultiForge.Proxy.StreamGrammar

set_option linter.unusedSectionVars false

namespace MultiForge.Proxy

open Json

variable {F : Type} [DecidableEq F] [PyFloatText F]

/-! ## 1. The relation -/

/-- The id and the name of the call with an index. -/
structure CallNames where
  id : Int → String
  name : Int → String

abbrev Call := Int × List String

variable (names : CallNames)

/-- The block of a call when it has been closed. -/
def CallNames.block (c : Call) : ClientBlock F :=
  .toolUse (.str (names.id c.1)) (.str (names.name c.1))
    (sanitizeToolArgumentsJson (F := F) (.str (names.name c.1)) (String.join c.2))

/-- The block of an open call: the arguments of a `Read` are held back. -/
def CallNames.openBlock (c : Call) : ClientBlock F :=
  .toolUse (.str (names.id c.1)) (.str (names.name c.1))
    (if names.name c.1 = "Read" then "" else String.join c.2)

/-- The buffer entry of an open call. -/
def CallNames.toolInfo (n : Nat) (c : Call) : ToolInfo F :=
  ⟨.str (names.id c.1), .str (names.name c.1), String.join c.2, some n,
    decide (names.name c.1 = "Read")⟩

/-- The buffer entries of open calls whose blocks are numbered from `n`. -/
def CallNames.entries (n : Nat) : List Call → ToolCallsBuffer F
  | [] => []
  | c :: cs => (.int c.1, names.toolInfo n c) :: CallNames.entries (n + 1) cs

/-- An entry that waits for its name. -/
def CallNames.pendingInfo (i : Int) : ToolInfo F := ⟨.str (names.id i), .null, "", none, false⟩

def startedEntries (buffer : ToolCallsBuffer F) : ToolCallsBuffer F :=
  buffer.filter fun kt => kt.2.blockIdx.isSome

/-- What the state says about usage: the totals, and what the client has
been shown. -/
abbrev Account (F : Type) := FinalUsage F × ClientUsage F

/-- The part of the relation that does not depend on the open group. -/
structure BufferSim (acct : Account F) (s : StreamState F) (n : Nat) (cs : List Call) : Prop where
  started : (startedEntries s.toolCallsBuffer).Perm (names.entries n cs)
  pending : ∀ kt ∈ s.toolCallsBuffer, kt.2.blockIdx = none →
    ∃ i, kt = (.int i, names.pendingInfo i) ∧ names.id i ≠ ""
  keys : (s.toolCallsBuffer.map Prod.fst).Nodup
  finalUsage : s.finalUsage = acct.1
  shown : (receive s.out).usage = acct.2
  stopReason : s.finalStopReason = none

/-- The relation while the calls `cs` are open (or nothing is). -/
structure ToolSim (acct : Account F) (s : StreamState F) (done : List (ClientBlock F))
    (cs : List Call) : Prop extends BufferSim names acct s done.length cs where
  blocks : (receive s.out).blocks = numbered 0 (done ++ cs.map names.openBlock)
  index : s.contentBlockIndex + 1 = ((done.length + cs.length : Nat) : Int)
  text : s.textStarted = false
  cur : s.currentBlockType = if cs = [] then none else some .toolUse

/-- The relation while a text is open. -/
structure TextSim (acct : Account F) (s : StreamState F) (done : List (ClientBlock F))
    (t : String) : Prop extends BufferSim names acct s done.length [] where
  blocks : (receive s.out).blocks = numbered 0 (done ++ [.text t])
  index : s.contentBlockIndex = (done.length : Int)
  text : s.textStarted = true
  cur : s.currentBlockType = some .text

/-- The block of what the reader delivers. -/
def CallNames.render : Fragments.Block String Int String → ClientBlock F
  | .text ts => .text (String.join ts)
  | .call i ps => names.block (i, ps)

/-- The converter's state matches the reader's. -/
def Sim (acct : Account F) (s : StreamState F) (a : Fragments.State String Int String) : Prop :=
  match a.cur with
  | .text ts => TextSim names acct s (a.done.map names.render) (String.join ts)
  | .calls cs => ToolSim names acct s (a.done.map names.render) cs

variable {names}

theorem Sim.init : Sim names ({}, {}) ({} : StreamState F) {} where
  started := .nil
  pending := by simp
  keys := by simp
  finalUsage := rfl
  shown := rfl
  stopReason := rfl
  blocks := rfl
  index := rfl
  text := rfl
  cur := rfl

/-! ## 2. Strings and the buffer -/

theorem join_snoc (as : List String) (b : String) :
    String.join (as ++ [b]) = String.join as ++ b := by
  simp

theorem lookup_eq_some_iff {k : Key F} {t : ToolInfo F} : ∀ {buffer : ToolCallsBuffer F},
    (buffer.map Prod.fst).Nodup →
    (ToolCallsBuffer.lookup k buffer = some t ↔ (k, t) ∈ buffer)
  | [], _ => by simp [ToolCallsBuffer.lookup]
  | (k', u) :: rest, h => by
      have h' := List.nodup_cons.mp h
      have ih := lookup_eq_some_iff (k := k) (t := t) h'.2
      by_cases hk : k' = k
      · subst hk
        have hnot : (k', t) ∉ rest := fun hmem => h'.1 (List.mem_map.mpr ⟨_, hmem, rfl⟩)
        simp [ToolCallsBuffer.lookup, hnot, eq_comm]
      · have hne : ¬ k = k' := fun e => hk e.symm
        simp [ToolCallsBuffer.lookup, hk, hne, ih]

theorem lookup_eq_none_iff {k : Key F} : ∀ {buffer : ToolCallsBuffer F},
    ToolCallsBuffer.lookup k buffer = none ↔ k ∉ buffer.map Prod.fst
  | [] => by simp [ToolCallsBuffer.lookup]
  | (k', u) :: rest => by
      have ih := @lookup_eq_none_iff k rest
      by_cases hk : k' = k
      · simp [ToolCallsBuffer.lookup, hk]
      · have hne : ¬ k = k' := fun e => hk e.symm
        rw [ToolCallsBuffer.lookup, if_neg hk, ih, List.map_cons, List.mem_cons, not_or,
          and_iff_right hne]

/-- With distinct keys an update replaces one entry. -/
theorem update_eq_map {k : Key F} {t : ToolInfo F} : ∀ {buffer : ToolCallsBuffer F},
    (buffer.map Prod.fst).Nodup →
    ToolCallsBuffer.update k t buffer
      = buffer.map fun kt => if kt.1 = k then (kt.1, t) else kt
  | [], _ => rfl
  | (k', u) :: rest, h => by
      have h' := List.nodup_cons.mp h
      rw [ToolCallsBuffer.update, List.map_cons]
      by_cases hk : k' = k
      · subst hk
        have hrest : (rest.map fun kt => if kt.1 = k' then (kt.1, t) else kt) = rest := by
          conv_rhs => rw [← List.map_id rest]
          refine List.map_congr_left fun kt hkt => ?_
          have hne : ¬ kt.1 = k' := fun e => h'.1 (e ▸ List.mem_map.mpr ⟨kt, hkt, rfl⟩)
          simp [hne]
        simp [hrest]
      · rw [if_neg hk, if_neg hk, update_eq_map h'.2]

theorem update_keys {k : Key F} {t : ToolInfo F} : ∀ {buffer : ToolCallsBuffer F},
    (ToolCallsBuffer.update k t buffer).map Prod.fst = buffer.map Prod.fst
  | [] => rfl
  | (k', u) :: rest => by
      rw [ToolCallsBuffer.update]
      split
      · rfl
      · rw [List.map_cons, List.map_cons, update_keys]

theorem entries_append (n : Nat) (as bs : List Call) :
    names.entries (F := F) n (as ++ bs)
      = names.entries n as ++ names.entries (n + as.length) bs := by
  induction as generalizing n with
  | nil => rfl
  | cons a as ih =>
    have hlen : n + 1 + as.length = n + (as.length + 1) := by omega
    simp [CallNames.entries, ih, hlen]

theorem entries_keys (n : Nat) (cs : List Call) :
    (names.entries (F := F) n cs).map Prod.fst = cs.map fun c => .int c.1 := by
  induction cs generalizing n with
  | nil => rfl
  | cons c cs ih => simp [CallNames.entries, ih]

theorem mem_startedEntries {buffer : ToolCallsBuffer F} {kt : Key F × ToolInfo F} :
    kt ∈ startedEntries buffer ↔ kt ∈ buffer ∧ kt.2.blockIdx.isSome = true := by
  simp [startedEntries]

/-- The open calls are the keys of the started entries. -/
theorem BufferSim.mem_iff {acct : Account F} {s : StreamState F} {n : Nat} {cs : List Call}
    (h : BufferSim names acct s n cs) (i : Int) :
    i ∈ cs.map Prod.fst ↔ Key.int i ∈ (startedEntries s.toolCallsBuffer).map Prod.fst := by
  rw [(h.started.map Prod.fst).mem_iff, entries_keys]
  simp

/-- An open call is found in the buffer at its place. -/
theorem BufferSim.lookup_started {acct : Account F} {s : StreamState F} {n : Nat}
    {pre post : List Call} {i : Int} {ps : List String}
    (h : BufferSim names acct s n (pre ++ (i, ps) :: post)) :
    ToolCallsBuffer.lookup (.int i) s.toolCallsBuffer
      = some (names.toolInfo (n + pre.length) (i, ps)) := by
  rw [lookup_eq_some_iff h.keys]
  refine (mem_startedEntries.mp (h.started.symm.subset ?_)).1
  rw [entries_append]
  exact List.mem_append_right _ List.mem_cons_self

/-- Any other entry found in the buffer waits for its name. -/
theorem BufferSim.lookup_pending {acct : Account F} {s : StreamState F} {n : Nat}
    {cs : List Call} {i : Int} {t : ToolInfo F} (h : BufferSim names acct s n cs)
    (hi : i ∉ cs.map Prod.fst)
    (hl : ToolCallsBuffer.lookup (.int i) s.toolCallsBuffer = some t) :
    t = names.pendingInfo i ∧ names.id i ≠ "" := by
  have hmem := (lookup_eq_some_iff h.keys).mp hl
  have hnone : t.blockIdx = none := by
    cases hb : t.blockIdx with
    | none => rfl
    | some n =>
      refine absurd ((h.mem_iff i).mpr ?_) hi
      exact List.mem_map.mpr ⟨_, mem_startedEntries.mpr ⟨hmem, by simp [hb]⟩, rfl⟩
  obtain ⟨j, hj, hid⟩ := h.pending _ hmem hnone
  simp only [Prod.mk.injEq, Key.int.injEq] at hj
  obtain ⟨rfl, rfl⟩ := hj
  exact ⟨rfl, hid⟩

theorem BufferSim.cs_nodup {acct : Account F} {s : StreamState F} {n : Nat} {cs : List Call}
    (h : BufferSim names acct s n cs) : (cs.map Prod.fst).Nodup := by
  have hsub : ((startedEntries s.toolCallsBuffer).map Prod.fst).Nodup :=
    h.keys.sublist (List.filter_sublist.map _)
  have := (h.started.map Prod.fst).nodup hsub
  rw [entries_keys] at this
  refine List.Nodup.of_map (Key.int (F := F)) ?_
  rw [List.map_map]
  exact this

/-! ## 3. Closing -/

/-- The started tools are the open calls in the order of their blocks. -/
def CallNames.started (n : Nat) : List Call → List (Int × ToolInfo F)
  | [] => []
  | c :: cs => ((n : Int), names.toolInfo n c) :: CallNames.started (n + 1) cs

theorem startedTools_entries (n : Nat) (cs : List Call) :
    startedTools (names.entries (F := F) n cs) = names.started n cs := by
  induction cs generalizing n with
  | nil => rfl
  | cons c cs ih =>
    have := ih (n + 1)
    simp only [startedTools] at this
    simp [startedTools, CallNames.entries, CallNames.started, CallNames.toolInfo, this]

theorem startedTools_startedEntries (buffer : ToolCallsBuffer F) :
    startedTools (startedEntries buffer) = startedTools buffer := by
  induction buffer with
  | nil => rfl
  | cons kt buffer ih =>
    simp only [startedTools, startedEntries] at ih
    cases hb : kt.2.blockIdx with
    | none => simp [startedTools, startedEntries, hb, ih]
    | some n => simp [startedTools, startedEntries, hb, ih]

theorem started_bounds {n : Nat} {cs : List Call} :
    ∀ b ∈ names.started (F := F) n cs, (n : Int) ≤ b.1 := by
  induction cs generalizing n with
  | nil => simp [CallNames.started]
  | cons c cs ih =>
    intro b hb
    rcases List.mem_cons.mp hb with rfl | hb
    · exact Int.le_refl _
    · have := ih b hb
      omega

theorem started_sorted (n : Nat) (cs : List Call) :
    (names.started (F := F) n cs).Pairwise fun a b => a.1 < b.1 := by
  induction cs generalizing n with
  | nil => exact List.Pairwise.nil
  | cons c cs ih =>
    refine List.Pairwise.cons (fun b hb => ?_) (ih (n + 1))
    have : ((n + 1 : Nat) : Int) ≤ b.1 := started_bounds b hb
    simp only
    omega

/-- Distinct indices leave one sorted order. -/
theorem insertionSort_started {l : List (Int × ToolInfo F)} {n : Nat} {cs : List Call}
    (h : l.Perm (names.started n cs)) :
    l.insertionSort (fun a b => a.1 ≤ b.1) = names.started n cs := by
  have htotal : Std.Total fun a b : Int × ToolInfo F => a.1 ≤ b.1 := ⟨fun a b => by omega⟩
  have htrans : IsTrans (Int × ToolInfo F) fun a b => a.1 ≤ b.1 := ⟨fun a b c => by omega⟩
  have hperm : (l.insertionSort fun a b => a.1 ≤ b.1).Perm (names.started n cs) :=
    (List.perm_insertionSort _ l).trans h
  have hle : (names.started (F := F) n cs).Pairwise fun a b => a.1 ≤ b.1 :=
    (started_sorted n cs).imp fun h => Int.le_of_lt h
  refine hperm.eq_of_pairwise ?_ (List.pairwise_insertionSort _ l) hle
  intro a b ha hb hab hba
  have heq : a.1 = b.1 := by omega
  have ha' := hperm.subset ha
  by_contra hne
  have hpw := List.pairwise_iff_getElem.mp (@started_sorted F _ _ names n cs)
  obtain ⟨i, hi, hia⟩ := List.getElem_of_mem ha'
  obtain ⟨j, hj, hjb⟩ := List.getElem_of_mem hb
  rcases Nat.lt_trichotomy i j with hij | hij | hij
  · have := hpw i j hi hj hij
    rw [hia, hjb] at this
    omega
  · subst hij
    exact hne (hia.symm.trans hjb)
  · have := hpw j i hj hi hij
    rw [hia, hjb] at this
    omega

theorem BufferSim.sortedTools {acct : Account F} {s : StreamState F} {n : Nat} {cs : List Call}
    (h : BufferSim names acct s n cs) :
    sortedTools s.toolCallsBuffer = names.started n cs := by
  refine insertionSort_started ?_
  rw [← startedTools_startedEntries, ← startedTools_entries]
  exact h.started.filterMap _

theorem sanitize_other {name : String} (h : name ≠ "Read") (args : String) :
    sanitizeToolArgumentsJson (F := F) (.str name) args = args := by
  simp [sanitizeToolArgumentsJson, sanitizeToolArgumentsJsonWithReport, h]

theorem sanitize_empty (name : Json F) :
    sanitizeToolArgumentsJson name "" = "" := by
  simp [sanitizeToolArgumentsJson, sanitizeToolArgumentsJsonWithReport]

theorem openBlock_of_ne {c : Call} (h : names.name c.1 ≠ "Read") :
    names.openBlock (F := F) c = names.block c := by
  simp [CallNames.openBlock, CallNames.block, h, sanitize_other h]

/-- Closing an open call turns its block into the closed one. -/
theorem closeToolBlock_receive (m : ClientMessage F) (done rest : List (ClientBlock F)) (c : Call)
    (h : m.blocks = numbered 0 (done ++ names.openBlock c :: rest)) :
    ∃ m', (closeToolBlock ((done.length : Int), names.toolInfo done.length c)).foldl
        ClientMessage.step m = m' ∧
      m'.blocks = numbered 0 (done ++ names.block c :: rest) ∧ m'.usage = m.usage := by
  refine ⟨_, rfl, ?_⟩
  by_cases hread : names.name c.1 = "Read"
  · by_cases hargs : String.join c.2 = ""
    · have hsame : names.openBlock (F := F) c = names.block c := by
        simp [CallNames.openBlock, CallNames.block, hread, hargs, sanitize_empty]
      simp [closeToolBlock, CallNames.toolInfo, hread, buildSanitizedArgsDelta, hargs,
        ClientMessage.step, h, hsame]
    · by_cases hempty : sanitizeToolArgumentsJson (F := F) (.str "Read") (String.join c.2) = ""
      · have hsame : names.openBlock (F := F) c = names.block c := by
          simp [CallNames.openBlock, CallNames.block, hread, hempty]
        simp [closeToolBlock, CallNames.toolInfo, hread, buildSanitizedArgsDelta, hargs, hempty,
          ClientMessage.step, h, hsame]
      · have hext := extendAt_numbered 0 (.inputJsonDelta (sanitizeToolArgumentsJson (F := F)
          (.str "Read") (String.join c.2))) done (names.openBlock c) rest
        rw [Nat.zero_add] at hext
        have hblock : (names.openBlock (F := F) c).extend (.inputJsonDelta
            (sanitizeToolArgumentsJson (F := F) (.str "Read") (String.join c.2)))
              = names.block c := by
          simp [CallNames.openBlock, CallNames.block, hread, ClientBlock.extend]
        rw [hblock] at hext
        simp [closeToolBlock, CallNames.toolInfo, hread, buildSanitizedArgsDelta, hargs, hempty,
          ClientMessage.step, h, hext]
  · have hsame : names.openBlock (F := F) c = names.block c := openBlock_of_ne (F := F) hread
    simp [closeToolBlock, CallNames.toolInfo, hread, ClientMessage.step, h, hsame]

theorem closeTools_receive (cs : List Call) (m : ClientMessage F) (done : List (ClientBlock F))
    (h : m.blocks = numbered 0 (done ++ cs.map names.openBlock)) :
    ∃ m', ((names.started done.length cs).flatMap closeToolBlock).foldl ClientMessage.step m = m' ∧
      m'.blocks = numbered 0 (done ++ cs.map names.block) ∧ m'.usage = m.usage := by
  induction cs generalizing m done with
  | nil => exact ⟨m, rfl, h, rfl⟩
  | cons c cs ih =>
    obtain ⟨m₁, h₁, hb₁, hu₁⟩ := closeToolBlock_receive m done (cs.map names.openBlock) c h
    have hb₁' : m₁.blocks = numbered 0 ((done ++ [names.block c]) ++ cs.map names.openBlock) := by
      rw [hb₁]; simp
    obtain ⟨m₂, h₂, hb₂, hu₂⟩ := ih m₁ (done ++ [names.block c]) hb₁'
    refine ⟨m₂, ?_, by rw [hb₂]; simp, hu₂.trans hu₁⟩
    rw [CallNames.started, List.flatMap_cons, List.foldl_append, h₁]
    simpa using h₂

/-! ## 4. A text delta -/

theorem ToolSim.stopToolBlocks {acct : Account F} {s : StreamState F}
    {done : List (ClientBlock F)} {cs : List Call} (h : ToolSim names acct s done cs) :
    ToolSim names acct (stopToolBlocks s) (done ++ cs.map names.block) [] := by
  unfold Proxy.stopToolBlocks
  cases cs with
  | nil =>
    rw [if_neg (by rw [h.cur]; simp)]
    simpa using h
  | cons c cs =>
    have hne : s.toolCallsBuffer.isEmpty = false := by
      have hlen := h.started.length_eq
      cases hb : s.toolCallsBuffer with
      | nil => rw [hb] at hlen; simp [startedEntries, CallNames.entries] at hlen
      | cons kt rest => rfl
    rw [if_pos (by rw [h.cur]; simp), if_neg (by simp [hne])]
    obtain ⟨m, hm, hblocks, husage⟩ := closeTools_receive (c :: cs) (receive s.out) done h.blocks
    rw [← h.toBufferSim.sortedTools] at hm
    have hrec : receive (s.out ++ buildToolBlockCloseEvents s.toolCallsBuffer) = m := by
      rw [receive_append]; exact hm
    exact
      { started := .nil
        pending := by simp
        keys := by simp
        finalUsage := h.finalUsage
        shown := by simp [StreamState.yieldAll, hrec, husage, h.shown]
        stopReason := h.stopReason
        blocks := by simpa [StreamState.yieldAll, hrec] using hblocks
        index := by have := h.index; simpa [StreamState.yieldAll] using this
        text := h.text
        cur := rfl }

theorem ToolSim.startTextBlock {acct : Account F} {s : StreamState F}
    {done : List (ClientBlock F)} (h : ToolSim names acct s done []) :
    TextSim names acct (startTextBlock s) done "" := by
  have hidx : s.contentBlockIndex + 1 = (done.length : Int) := by simpa using h.index
  have hblocks : (receive s.out).blocks = numbered 0 done := by simpa using h.blocks
  unfold Proxy.startTextBlock
  rw [if_neg (by simp [h.text])]
  exact
    { started := h.started
      pending := h.pending
      keys := h.keys
      finalUsage := h.finalUsage
      shown := by simp [StreamState.yield, ClientMessage.step, h.shown]
      stopReason := h.stopReason
      blocks := by
        simp [StreamState.yield, ClientMessage.step, hblocks, numbered_append, hidx, numbered,
          ClientBlock.ofStart]
      index := by simpa [StreamState.yield] using hidx
      text := rfl
      cur := rfl }

/-- A delta sent to the open text block. -/
theorem TextSim.textDelta {acct : Account F} {s : StreamState F} {done : List (ClientBlock F)}
    {t : String} (h : TextSim names acct s done t) (text : String) :
    TextSim names acct (s.yield (.contentBlockDelta s.contentBlockIndex (.textDelta text))) done
      (t ++ text) := by
  have hext := extendAt_numbered 0 (.textDelta text) done (.text t) []
  rw [Nat.zero_add] at hext
  exact
    { started := h.started
      pending := h.pending
      keys := h.keys
      finalUsage := h.finalUsage
      shown := by simp [StreamState.yield, ClientMessage.step, h.shown]
      stopReason := h.stopReason
      blocks := by
        simp [StreamState.yield, ClientMessage.step, h.blocks, h.index, hext, ClientBlock.extend]
      index := h.index
      text := h.text
      cur := h.cur }

theorem TextSim.processTextDelta {acct : Account F} {s : StreamState F}
    {done : List (ClientBlock F)} {t : String} (h : TextSim names acct s done t) (text : String) :
    TextSim names acct (processTextDelta s text) done (t ++ text) := by
  have hsame : Proxy.startTextBlock (Proxy.stopToolBlocks s) = s := by
    rw [Proxy.stopToolBlocks, if_neg (by rw [h.cur]; simp), Proxy.startTextBlock, if_pos h.text]
  rw [Proxy.processTextDelta, hsame]
  exact h.textDelta text

theorem Sim.processTextDelta {acct : Account F} {s : StreamState F}
    {a : Fragments.State String Int String} (h : Sim names acct s a) (text : String) :
    Sim names acct (processTextDelta s text) (Fragments.step a (.text text)) := by
  obtain ⟨done, cur⟩ := a
  cases cur with
  | text ts =>
    have := TextSim.processTextDelta h text
    rw [← join_snoc] at this
    exact this
  | calls cs =>
    have hts := (ToolSim.startTextBlock (ToolSim.stopToolBlocks h)).textDelta text
    have hdone : (done ++ (Fragments.Group.calls cs).blocks).map (names.render (F := F))
        = done.map names.render ++ cs.map names.block := by
      simp [Fragments.Group.blocks, CallNames.render, Function.comp_def]
    simp only [Sim, Fragments.step]
    rw [hdone, show String.join [text] = "" ++ text from rfl]
    exact hts

/-! ## 5. A tool-call delta -/

/-- The text is closed when a tool call arrives. -/
def closeText (a : Fragments.State String Int String) : Fragments.State String Int String :=
  match a.cur with
  | .text ts => { done := a.done ++ [.text ts], cur := .calls [] }
  | .calls _ => a

theorem Sim.stopTextBlock {acct : Account F} {s : StreamState F}
    {a : Fragments.State String Int String} (h : Sim names acct s a) :
    Sim names acct (stopTextBlock s) (closeText a) := by
  obtain ⟨done, cur⟩ := a
  cases cur with
  | text ts =>
    replace h : TextSim names acct s (done.map names.render) (String.join ts) := h
    rw [Proxy.stopTextBlock, if_pos ⟨h.cur, h.text⟩]
    have : ToolSim names acct { s.yield (.contentBlockStop s.contentBlockIndex) with
        currentBlockType := none, textStarted := false }
        (done.map names.render ++ [.text (String.join ts)]) [] :=
      { started := h.started
        pending := h.pending
        keys := h.keys
        finalUsage := h.finalUsage
        shown := by simp [StreamState.yield, ClientMessage.step, h.shown]
        stopReason := h.stopReason
        blocks := by simp [StreamState.yield, ClientMessage.step, h.blocks]
        index := by have := h.index; simpa [StreamState.yield] using this
        text := rfl
        cur := rfl }
    simpa [Sim, closeText, CallNames.render] using this
  | calls cs =>
    replace h : ToolSim names acct s (done.map names.render) cs := h
    rw [Proxy.stopTextBlock, if_neg (by simp [h.text])]
    exact h

/-- Starting the block of a call: the entry is new in the buffer, or it
replaces the one that waited for the name. -/
theorem ToolSim.startCall {acct : Account F} {s : StreamState F} {done : List (ClientBlock F)}
    {cs : List Call} (h : ToolSim names acct s done cs) (i : Int)
    (buffer : ToolCallsBuffer F)
    (hstarted : (startedEntries buffer).Perm (startedEntries s.toolCallsBuffer
      ++ [(.int i, names.toolInfo (done.length + cs.length) (i, []))]))
    (hpending : ∀ kt ∈ buffer, kt.2.blockIdx = none →
      ∃ i, kt = (.int i, names.pendingInfo i) ∧ names.id i ≠ "")
    (hkeys : (buffer.map Prod.fst).Nodup) :
    ToolSim names acct (StreamState.yield
        { nextToolBlock s with toolCallsBuffer := buffer }
        (.contentBlockStart (nextToolBlock s).contentBlockIndex
          (.toolUse (.str (names.id i)) (.str (names.name i)))))
      done (cs ++ [(i, [])]) := by
  have hidx : (nextToolBlock s).contentBlockIndex = ((done.length + cs.length : Nat) : Int) :=
    h.index
  have hempty : names.openBlock (F := F) (i, [])
      = .toolUse (.str (names.id i)) (.str (names.name i)) "" := by
    simp [CallNames.openBlock, String.join]
  exact
    { started := by
        refine hstarted.trans ?_
        rw [entries_append]
        exact h.started.append (.refl _)
      pending := hpending
      keys := hkeys
      finalUsage := h.finalUsage
      shown := by simp [StreamState.yield, nextToolBlock, ClientMessage.step, h.shown]
      stopReason := h.stopReason
      blocks := by
        simp [StreamState.yield, nextToolBlock, ClientMessage.step, h.blocks, numbered_append,
          numbered, ClientBlock.ofStart, hempty]
        simpa [nextToolBlock] using hidx
      index := by
        simp only [StreamState.yield, hidx, List.length_append, List.length_cons, List.length_nil]
        omega
      text := h.text
      cur := by simp [StreamState.yield, nextToolBlock] }

/-- What the fragments of the call with index `i` say about it. -/
structure Names (names : CallNames) (i : Int) (d : ToolCallDelta) : Prop where
  id : nonEmpty d.id → d.id = some (names.id i)
  name : nonEmpty d.name → d.name = some (names.name i)

/-- A fragment that may start its call: it has the id and the name. -/
def ToolCallDelta.opens (d : ToolCallDelta) : Bool := nonEmpty d.id && nonEmpty d.name

theorem optStr_truthy (o : Option String) : (optStr (F := F) o).truthy = nonEmpty o := by
  cases o <;> simp [optStr, nonEmpty]

theorem startedEntries_append (b c : ToolCallsBuffer F) :
    startedEntries (b ++ c) = startedEntries b ++ startedEntries c := by
  simp [startedEntries]

/-- Giving a waiting entry its block makes it a started one. -/
theorem startedEntries_update_pending {k : Key F} {t t' : ToolInfo F} :
    ∀ {buffer : ToolCallsBuffer F}, ToolCallsBuffer.lookup k buffer = some t →
      t.blockIdx = none → t'.blockIdx.isSome = true →
      (startedEntries (ToolCallsBuffer.update k t' buffer)).Perm
        (startedEntries buffer ++ [(k, t')])
  | [], hl, _, _ => by simp [ToolCallsBuffer.lookup] at hl
  | (k', u) :: rest, hl, hn, hs => by
      rw [ToolCallsBuffer.lookup] at hl
      rw [ToolCallsBuffer.update]
      by_cases hk : k' = k
      · rw [if_pos hk] at hl ⊢
        cases hl
        simpa [startedEntries, hn, hs, hk] using (List.perm_append_singleton _ _).symm
      · rw [if_neg hk] at hl ⊢
        have ih := startedEntries_update_pending hl hn hs
        simp only [startedEntries, List.filter_cons] at ih ⊢
        split
        · exact ih.cons _
        · exact ih

theorem shouldBuffer_str (name : String) :
    shouldBufferStreamingToolArgs (F := F) (.str name) = some (decide (name = "Read")) := by
  simp [shouldBufferStreamingToolArgs, key?]

/-- The buffer with one more entry still has distinct keys. -/
theorem keys_snoc {buffer : ToolCallsBuffer F} {k : Key F} {t : ToolInfo F}
    (h : (buffer.map Prod.fst).Nodup) (hk : k ∉ buffer.map Prod.fst) :
    ((buffer ++ [(k, t)]).map Prod.fst).Nodup := by
  rw [List.map_append, List.nodup_append]
  refine ⟨h, by simp, fun a ha b hb e => hk ?_⟩
  have hb' : b = k := by simpa using hb
  rw [← hb', ← e]
  exact ha

/-- The entry of a call whose block is started now. -/
theorem ToolSim.newInfo {acct : Account F} {s : StreamState F} {done : List (ClientBlock F)}
    {cs : List Call} (h : ToolSim names acct s done cs) (i : Int) :
    (⟨.str (names.id i), .str (names.name i), "", some (nextToolBlock s).contentBlockIndex,
      decide (names.name i = "Read")⟩ : ToolInfo F)
        = names.toolInfo (done.length + cs.length) (i, []) := by
  simp only [CallNames.toolInfo, nextToolBlock, h.index]
  rfl

/-- What opening does to the state: `r` is the result of the first part of
the body, and `none` (the delta is passed over) happens to calls that are
not open only. -/
def Opened (names : CallNames) (acct : Account F) (s : StreamState F)
    (done : List (ClientBlock F)) (i : Int) (cs : List Call) (r : Option (StreamState F)) : Prop :=
  ToolSim names acct (r.getD s) done cs ∧ (r = none → i ∉ cs.map Prod.fst)

/-- A fragment of an open call starts nothing. -/
theorem ToolSim.openToolCall_open {acct : Account F} {s : StreamState F}
    {done : List (ClientBlock F)} {cs : List Call} (h : ToolSim names acct s done cs) {i : Int}
    (hi : i ∈ cs.map Prod.fst) (tcId funcName : Json F) :
    openToolCall s (.int i) tcId funcName = .ok (some s) := by
  obtain ⟨c, hc, rfl⟩ := List.mem_map.mp hi
  obtain ⟨pre, post, rfl⟩ := List.append_of_mem hc
  have hl := h.toBufferSim.lookup_started
  simp [Proxy.openToolCall, hl, CallNames.toolInfo]
  rfl

/-- A call not in the buffer: the id alone is remembered, the id and the
name start the block, and anything else is passed over. -/
theorem ToolSim.openToolCall_new {acct : Account F} {s : StreamState F}
    {done : List (ClientBlock F)} {cs : List Call} (h : ToolSim names acct s done cs) {i : Int}
    {d : ToolCallDelta} (hd : Names names i d) (hi : i ∉ cs.map Prod.fst)
    (hl : ToolCallsBuffer.lookup (.int i) s.toolCallsBuffer = none) :
    ∃ r, openToolCall s (.int i) (optStr d.id) (optStr d.name) = .ok r ∧
      Opened names acct s done i (if d.opens then cs ++ [(i, [])] else cs) r := by
  have hkey : Key.int i ∉ s.toolCallsBuffer.map Prod.fst := lookup_eq_none_iff.mp hl
  cases hid : nonEmpty d.id with
  | false =>
    have hopens : d.opens = false := by simp [ToolCallDelta.opens, hid]
    refine ⟨none, ?_, by simpa [hopens] using h, by simpa [hopens] using hi⟩
    simp [Proxy.openToolCall, hl, optStr_truthy, hid]
    rfl
  | true =>
    have hid' := hd.id hid
    have hne : names.id i ≠ "" := by simpa [hid', nonEmpty] using hid
    cases hname : nonEmpty d.name with
    | false =>
      have hopens : d.opens = false := by simp [ToolCallDelta.opens, hname]
      have hpi : (⟨optStr d.id, .null, "", none, false⟩ : ToolInfo F) = names.pendingInfo i := by
        simp [CallNames.pendingInfo, hid', optStr]
      refine ⟨some { s with toolCallsBuffer :=
        s.toolCallsBuffer ++ [(.int i, names.pendingInfo i)] }, ?_, ?_, by simp⟩
      · rw [← hpi]
        simp [Proxy.openToolCall, hl, optStr_truthy, hid, hname]
        rfl
      · simp only [hopens, Bool.false_eq_true, if_false, Option.getD_some]
        exact
          { started := by
              simpa [startedEntries_append, startedEntries, CallNames.pendingInfo] using h.started
            pending := by
              intro kt hkt hnone
              rcases List.mem_append.mp hkt with hkt | hkt
              · exact h.pending kt hkt hnone
              · rw [List.mem_singleton.mp hkt]
                exact ⟨i, rfl, hne⟩
            keys := keys_snoc h.keys hkey
            finalUsage := h.finalUsage
            shown := h.shown
            stopReason := h.stopReason
            blocks := h.blocks
            index := h.index
            text := h.text
            cur := h.cur }
    | true =>
      have hname' := hd.name hname
      have hopens : d.opens = true := by simp [ToolCallDelta.opens, hid, hname]
      have hstart := h.startCall i (s.toolCallsBuffer
        ++ [(.int i, names.toolInfo (done.length + cs.length) (i, []))])
        (by rw [startedEntries_append]; exact .refl _)
        (by
          intro kt hkt hnone
          rcases List.mem_append.mp hkt with hkt | hkt
          · exact h.pending kt hkt hnone
          · rw [List.mem_singleton.mp hkt] at hnone
            cases hnone)
        (keys_snoc h.keys hkey)
      refine ⟨some _, ?_, by rw [hopens, if_pos rfl]; exact hstart, by simp⟩
      have htid : (.str (names.id i) : Json F).truthy = true := by simpa using hne
      have htname : (.str (names.name i) : Json F).truthy = true := by
        simpa [hname', nonEmpty] using hname
      rw [← h.newInfo i]
      simp only [Proxy.openToolCall, hl, hid', hname', optStr, htid, htname, Bool.and_self,
        if_true, shouldBuffer_str, orRaise, bind, Except.bind, pure, Except.pure]
      rfl

/-- A call that waits for its name starts its block when the name comes
together with the id. -/
theorem ToolSim.openToolCall_pending {acct : Account F} {s : StreamState F}
    {done : List (ClientBlock F)} {cs : List Call} (h : ToolSim names acct s done cs) {i : Int}
    {d : ToolCallDelta} (hd : Names names i d) (hne : names.id i ≠ "")
    (hl : ToolCallsBuffer.lookup (.int i) s.toolCallsBuffer = some (names.pendingInfo i)) :
    ∃ r, openToolCall s (.int i) (optStr d.id) (optStr d.name) = .ok r ∧
      Opened names acct s done i (if d.opens then cs ++ [(i, [])] else cs) r := by
  cases hname : nonEmpty d.name with
  | false =>
    have hopens : d.opens = false := by simp [ToolCallDelta.opens, hname]
    refine ⟨some s, ?_, by simpa [hopens] using h, by simp⟩
    simp [Proxy.openToolCall, hl, optStr_truthy, hname]
    rfl
  | true =>
    have hname' := hd.name hname
    cases hid : nonEmpty d.id with
    | false =>
      -- the comparison with the stored id fails when the id is not repeated
      have hopens : d.opens = false := by simp [ToolCallDelta.opens, hid]
      have hmis : (.str (names.id i) : Json F).pyEq (optStr d.id) = false := by
        cases hdid : d.id with
        | none => simp [optStr, pyEq]
        | some x =>
          have hx : x = "" := by simpa [hdid, nonEmpty] using hid
          simp [optStr, pyEq, hx, hne]
      refine ⟨some s, ?_, by simpa [hopens] using h, by simp⟩
      simp [Proxy.openToolCall, hl, optStr_truthy, hname, CallNames.pendingInfo, hmis]
      rfl
    | true =>
      have hid' := hd.id hid
      have hopens : d.opens = true := by simp [ToolCallDelta.opens, hid, hname]
      have heq : (.str (names.id i) : Json F).pyEq (.str (names.id i)) = true := by
        simp [pyEq]
      have hstart := h.startCall i (ToolCallsBuffer.update (.int i)
        (names.toolInfo (done.length + cs.length) (i, [])) s.toolCallsBuffer)
        (startedEntries_update_pending hl rfl rfl)
        (by
          intro kt hkt hnone
          rcases mem_update hkt with hkt | hkt
          · exact h.pending kt hkt hnone
          · rw [hkt] at hnone
            cases hnone)
        (by rw [update_keys]; exact h.keys)
      refine ⟨some _, ?_, by rw [hopens, if_pos rfl]; exact hstart, by simp⟩
      have htname : (.str (names.name i) : Json F).truthy = true := by
        simpa [hname', nonEmpty] using hname
      rw [← h.newInfo i]
      simp only [Proxy.openToolCall, hl, hid', hname', optStr, htname, CallNames.pendingInfo,
        Bool.and_self, decide_true, if_true, heq, shouldBuffer_str, orRaise, bind, Except.bind,
        pure, Except.pure]
      rfl

/-- Opening in the converter is opening in the reader. -/
theorem ToolSim.openToolCall {acct : Account F} {s : StreamState F}
    {done : List (ClientBlock F)} {cs : List Call} (h : ToolSim names acct s done cs) {i : Int}
    {d : ToolCallDelta} (hd : Names names i d) :
    ∃ r, openToolCall s (.int i) (optStr d.id) (optStr d.name) = .ok r ∧
      Opened names acct s done i (Fragments.openPart i d.opens cs) r := by
  by_cases hi : i ∈ cs.map Prod.fst
  · rw [Fragments.openPart_of_mem _ hi]
    exact ⟨some s, h.openToolCall_open hi _ _, h, by simp⟩
  · rw [Fragments.openPart_of_not_mem _ hi]
    cases hl : ToolCallsBuffer.lookup (.int i) s.toolCallsBuffer with
    | none => exact h.openToolCall_new hd hi hl
    | some t =>
      obtain ⟨rfl, hne⟩ := h.toBufferSim.lookup_pending hi hl
      exact h.openToolCall_pending hd hne hl

/-! Arguments. -/

theorem entries_appendPart (n : Nat) {i : Int} (p : String) (ps : List String)
    {pre post : List Call} (hpre : i ∉ pre.map Prod.fst) (hpost : i ∉ post.map Prod.fst) :
    (names.entries (F := F) n (pre ++ (i, ps) :: post)).map
        (fun kt => if kt.1 = .int i then (kt.1, names.toolInfo (n + pre.length) (i, ps ++ [p]))
          else kt)
      = names.entries n (pre ++ (i, ps ++ [p]) :: post) := by
  have hother : ∀ (m : Nat) (cs : List Call), i ∉ cs.map Prod.fst →
      (names.entries (F := F) m cs).map
        (fun kt => if kt.1 = .int i then (kt.1, names.toolInfo (n + pre.length) (i, ps ++ [p]))
          else kt) = names.entries m cs := by
    intro m cs hcs
    conv_rhs => rw [← List.map_id (names.entries m cs)]
    refine List.map_congr_left fun kt hkt => ?_
    have hne : kt.1 ≠ .int i := by
      intro e
      have hmem : kt.1 ∈ (names.entries (F := F) m cs).map Prod.fst := List.mem_map.mpr ⟨kt, hkt, rfl⟩
      rw [entries_keys, e] at hmem
      obtain ⟨c, hc, hci⟩ := List.mem_map.mp hmem
      cases hci
      exact hcs (List.mem_map.mpr ⟨c, hc, rfl⟩)
    simp [hne]
  rw [entries_append, entries_append, List.map_append, hother _ _ hpre]
  simp only [CallNames.entries, List.map_cons, if_true, hother _ _ hpost]

/-- An empty fragment changes nothing the client sees. -/
theorem ToolSim.appendEmpty {acct : Account F} {s : StreamState F} {done : List (ClientBlock F)}
    {pre post : List Call} {i : Int} {ps : List String}
    (h : ToolSim names acct s done (pre ++ (i, ps) :: post)) :
    ToolSim names acct s done (pre ++ (i, ps ++ [""]) :: post) := by
  have hjoin : String.join (ps ++ [""]) = String.join ps := by rw [join_snoc]; simp
  have hentries : names.entries (F := F) done.length (pre ++ (i, ps ++ [""]) :: post)
      = names.entries done.length (pre ++ (i, ps) :: post) := by
    simp [entries_append, CallNames.entries, CallNames.toolInfo, hjoin]
  have hopen : names.openBlock (F := F) (i, ps ++ [""]) = names.openBlock (i, ps) := by
    simp [CallNames.openBlock, hjoin]
  exact
    { started := by rw [hentries]; exact h.started
      pending := h.pending
      keys := h.keys
      finalUsage := h.finalUsage
      shown := h.shown
      stopReason := h.stopReason
      blocks := by rw [h.blocks]; simp [hopen]
      index := by rw [h.index]; simp
      text := h.text
      cur := by rw [h.cur]; simp }

/-- The buffer after an argument fragment of an open call. -/
theorem BufferSim.setToolArgs {acct : Account F} {s : StreamState F} {n : Nat}
    {pre post : List Call} {i : Int} {ps : List String}
    (h : BufferSim names acct s n (pre ++ (i, ps) :: post)) (p : String) :
    BufferSim names acct
      (setToolArgs s (.int i) (names.toolInfo (n + pre.length) (i, ps)) (String.join ps ++ p))
      n (pre ++ (i, ps ++ [p]) :: post) := by
  have hnd := h.cs_nodup
  rw [List.map_append, List.map_cons, List.nodup_middle] at hnd
  have hnot := (List.nodup_cons.mp hnd).1
  rw [List.mem_append, not_or] at hnot
  have hl := h.lookup_started
  have hinfo : ({ names.toolInfo (F := F) (n + pre.length) (i, ps) with
      args := String.join ps ++ p } : ToolInfo F)
      = names.toolInfo (n + pre.length) (i, ps ++ [p]) := by
    simp [CallNames.toolInfo]
  have hcomm : startedEntries (s.toolCallsBuffer.map fun kt =>
      if kt.1 = .int i then (kt.1, names.toolInfo (n + pre.length) (i, ps ++ [p])) else kt)
      = (startedEntries s.toolCallsBuffer).map fun kt =>
      if kt.1 = .int i then (kt.1, names.toolInfo (n + pre.length) (i, ps ++ [p])) else kt := by
    rw [startedEntries, startedEntries, List.filter_map]
    congr 1
    refine List.filter_congr fun kt hkt => ?_
    by_cases hk : kt.1 = .int i
    · have hfound := (lookup_eq_some_iff h.keys).mpr (show (kt.1, kt.2) ∈ _ from hkt)
      rw [hk, hl, Option.some.injEq] at hfound
      simp [hk, ← hfound, CallNames.toolInfo]
    · simp [hk]
  exact
    { started := by
        rw [Proxy.setToolArgs, hinfo, update_eq_map h.keys,
          ← entries_appendPart _ p ps hnot.1 hnot.2, hcomm]
        exact h.started.map _
      pending := by
        intro kt hkt hnone
        rcases mem_update hkt with hkt | hkt
        · exact h.pending kt hkt hnone
        · rw [hkt] at hnone
          cases hnone
      keys := by
        rw [Proxy.setToolArgs, update_keys]
        exact h.keys
      finalUsage := h.finalUsage
      shown := h.shown
      stopReason := h.stopReason }

/-- A fragment of a call other than `Read` is sent on as it comes. -/
theorem ToolSim.sendArgs {acct : Account F} {s : StreamState F} {done : List (ClientBlock F)}
    {pre post : List Call} {i : Int} {ps : List String}
    (h : ToolSim names acct s done (pre ++ (i, ps) :: post)) (hread : names.name i ≠ "Read")
    (p : String) :
    ToolSim names acct (StreamState.yield
      (setToolArgs s (.int i) (names.toolInfo (done.length + pre.length) (i, ps))
        (String.join ps ++ p))
      (.contentBlockDelta ((done.length + pre.length : Nat) : Int) (.inputJsonDelta p)))
      done (pre ++ (i, ps ++ [p]) :: post) := by
  have hbuf := h.toBufferSim.setToolArgs p
  have hext := extendAt_numbered 0 (.inputJsonDelta p) (done ++ pre.map names.openBlock)
    (names.openBlock (F := F) (i, ps)) (post.map names.openBlock)
  have hblock : (names.openBlock (F := F) (i, ps)).extend (.inputJsonDelta p)
      = names.openBlock (i, ps ++ [p]) := by
    simp [CallNames.openBlock, hread, ClientBlock.extend]
  rw [hblock, Nat.zero_add] at hext
  exact
    { started := hbuf.started
      pending := hbuf.pending
      keys := hbuf.keys
      finalUsage := hbuf.finalUsage
      shown := by
        simp only [StreamState.yield, receive_snoc, ClientMessage.step]
        exact hbuf.shown
      stopReason := hbuf.stopReason
      blocks := by
        simp only [StreamState.yield, receive_snoc, ClientMessage.step, Proxy.setToolArgs, h.blocks]
        simpa using hext
      index := by
        simp only [StreamState.yield, Proxy.setToolArgs, h.index, List.length_append,
          List.length_cons]
      text := h.text
      cur := by
        simp only [StreamState.yield, Proxy.setToolArgs, h.cur]
        simp }

/-- A fragment of a `Read` call is held back. -/
theorem ToolSim.holdArgs {acct : Account F} {s : StreamState F} {done : List (ClientBlock F)}
    {pre post : List Call} {i : Int} {ps : List String}
    (h : ToolSim names acct s done (pre ++ (i, ps) :: post)) (hread : names.name i = "Read")
    (p : String) :
    ToolSim names acct
      (setToolArgs s (.int i) (names.toolInfo (done.length + pre.length) (i, ps))
        (String.join ps ++ p))
      done (pre ++ (i, ps ++ [p]) :: post) := by
  have hopen : names.openBlock (F := F) (i, ps ++ [p]) = names.openBlock (i, ps) := by
    simp [CallNames.openBlock, hread]
  exact
    { h.toBufferSim.setToolArgs p with
      blocks := by simp only [Proxy.setToolArgs, h.blocks, List.map_append, List.map_cons, hopen]
      index := by simp only [Proxy.setToolArgs, h.index, List.length_append, List.length_cons]
      text := h.text
      cur := by
        simp only [Proxy.setToolArgs, h.cur]
        simp }

/-- Arguments go to the open call, and are passed over when it is not
open. -/
theorem ToolSim.appendToolArgs {acct : Account F} {s : StreamState F}
    {done : List (ClientBlock F)} {cs : List Call} (h : ToolSim names acct s done cs) (i : Int)
    (p : String) :
    ∃ s', appendToolArgs s (.int i) (.str p) = .ok s' ∧
      ToolSim names acct s' done (Fragments.appendPart i p cs) := by
  by_cases hi : i ∈ cs.map Prod.fst
  · obtain ⟨⟨j, ps⟩, hc, rfl⟩ := List.mem_map.mp hi
    obtain ⟨pre, post, rfl⟩ := List.append_of_mem hc
    have hnd := h.toBufferSim.cs_nodup
    rw [List.map_append, List.map_cons, List.nodup_middle] at hnd
    have hnot := (List.nodup_cons.mp hnd).1
    rw [List.mem_append, not_or] at hnot
    have hl := h.toBufferSim.lookup_started
    rw [Fragments.appendPart_split p ps post hnot.1]
    by_cases hp : p = ""
    · subst hp
      exact ⟨s, by simp [Proxy.appendToolArgs, hl]; rfl, h.appendEmpty⟩
    · by_cases hread : names.name j = "Read"
      · refine ⟨_, ?_, h.holdArgs hread p⟩
        simp only [Proxy.appendToolArgs, hl, truthy_str]
        simp [hp, CallNames.toolInfo, hread]
        rfl
      · refine ⟨_, ?_, h.sendArgs hread p⟩
        simp only [Proxy.appendToolArgs, hl, truthy_str]
        simp [hp, CallNames.toolInfo, hread]
        rfl
  · rw [Fragments.appendPart_of_not_mem _ hi]
    refine ⟨s, ?_, h⟩
    cases hl : ToolCallsBuffer.lookup (.int i) s.toolCallsBuffer with
    | none => simp [Proxy.appendToolArgs, hl]; rfl
    | some t =>
      obtain ⟨rfl, -⟩ := h.toBufferSim.lookup_pending hi hl
      simp [Proxy.appendToolArgs, hl, CallNames.pendingInfo]
      rfl

/-- **One fragment**: the converter handles the delta of a tool call as
the reader handles the fragment. -/
theorem Sim.processToolCallDeltas {acct : Account F} {s : StreamState F}
    {a : Fragments.State String Int String} (h : Sim names acct s a) {i : Int}
    {d : ToolCallDelta} (hd : Names names i d) :
    ∃ s', processToolCalls s (toolCallFields i d) = .ok s' ∧
      Sim names acct s' (Fragments.step a (.frag i d.opens d.argumentsJson)) := by
  have hclosed := h.stopTextBlock
  -- after the text is closed both sides have a group of calls
  obtain ⟨done, cs, ha, hstep⟩ : ∃ done cs, closeText a = ⟨done, .calls cs⟩ ∧
      Fragments.step a (.frag i d.opens d.argumentsJson)
        = ⟨done, .calls (Fragments.addPart i d.opens d.argumentsJson cs)⟩ := by
    obtain ⟨done, cur⟩ := a
    cases cur with
    | text ts => exact ⟨_, [], rfl, rfl⟩
    | calls cs => exact ⟨done, cs, rfl, rfl⟩
  rw [ha] at hclosed
  replace hclosed : ToolSim names acct (Proxy.stopTextBlock s) (done.map names.render) cs := hclosed
  obtain ⟨r, hr, hopened, hskip⟩ := hclosed.openToolCall hd
  rw [hstep, Fragments.addPart_eq]
  have hbody : ∀ s' : StreamState F,
      (r = none ∧ s' = Proxy.stopTextBlock s ∨ ∃ s₁, r = some s₁ ∧
        Proxy.appendToolArgs s₁ (.int i) (.str d.argumentsJson) = .ok s') →
      processToolCalls s (toolCallFields i d) = .ok s' := by
    intro s' hs'
    simp only [processToolCalls, toolCallFields, Json.get, getD, lookup_cons, if_true,
      Option.getD_some, List.isEmpty_cons, Bool.false_eq_true, if_false,
      Proxy.processToolCallDeltas, Proxy.processToolCallDelta]
    simp only [lookup_cons, String.reduceEq, if_false, if_true, Option.getD_some, orElse, truthy, List.isEmpty_cons, Bool.not_false, items?, orRaise, key?, bind, Except.bind,
      hr]
    obtain ⟨rfl, rfl⟩ | ⟨s₁, rfl, hs'⟩ := hs'
    · rfl
    · simp only
      rw [hs']
      rfl
  cases r with
  | none =>
    rw [Fragments.appendPart_of_not_mem _ (hskip rfl)]
    exact ⟨Proxy.stopTextBlock s, hbody _ (.inl ⟨rfl, rfl⟩), hopened⟩
  | some s₁ =>
    obtain ⟨s₂, hs₂, hsim⟩ := hopened.appendToolArgs i d.argumentsJson
    exact ⟨s₂, hbody _ (.inr ⟨s₁, rfl, hs₂⟩), hsim⟩

/-! ## 6. Chunks without content -/

/-- A state that differs in what the relation does not look at. -/
theorem Sim.congr {acct acct' : Account F} {s s' : StreamState F}
    {a : Fragments.State String Int String} (h : Sim names acct s a)
    (hbuf : s'.toolCallsBuffer = s.toolCallsBuffer) (hidx : s'.contentBlockIndex = s.contentBlockIndex)
    (htext : s'.textStarted = s.textStarted) (hcur : s'.currentBlockType = s.currentBlockType)
    (hblocks : (receive s'.out).blocks = (receive s.out).blocks)
    (hstop : s'.finalStopReason = s.finalStopReason) (husage : s'.finalUsage = acct'.1)
    (hshown : (receive s'.out).usage = acct'.2) : Sim names acct' s' a := by
  obtain ⟨done, cur⟩ := a
  cases cur with
  | text ts =>
    replace h : TextSim names acct s (done.map names.render) (String.join ts) := h
    exact
      { started := hbuf ▸ h.started
        pending := hbuf ▸ h.pending
        keys := hbuf ▸ h.keys
        finalUsage := husage
        shown := hshown
        stopReason := hstop.trans h.stopReason
        blocks := hblocks.trans h.blocks
        index := hidx ▸ h.index
        text := htext.trans h.text
        cur := hcur.trans h.cur }
  | calls cs =>
    replace h : ToolSim names acct s (done.map names.render) cs := h
    exact
      { started := hbuf ▸ h.started
        pending := hbuf ▸ h.pending
        keys := hbuf ▸ h.keys
        finalUsage := husage
        shown := hshown
        stopReason := hstop.trans h.stopReason
        blocks := hblocks.trans h.blocks
        index := hidx ▸ h.index
        text := htext.trans h.text
        cur := hcur.trans h.cur }

theorem Sim.account {acct : Account F} {s : StreamState F}
    {a : Fragments.State String Int String} (h : Sim names acct s a) :
    s.finalUsage = acct.1 ∧ (receive s.out).usage = acct.2 ∧ s.finalStopReason = none := by
  obtain ⟨done, cur⟩ := a
  cases cur with
  | text ts =>
    replace h : TextSim names acct s (done.map names.render) (String.join ts) := h
    exact ⟨h.finalUsage, h.shown, h.stopReason⟩
  | calls cs =>
    replace h : ToolSim names acct s (done.map names.render) cs := h
    exact ⟨h.finalUsage, h.shown, h.stopReason⟩

/-! What a usage chunk does to the account. -/

def Account.when (acct : Account F) (n : Int) (f : Account F → Account F) : Account F :=
  if 0 < n then f acct else acct

def Account.reportInput (p k w : Int) (acct : Account F) : Account F :=
  if acct.1.inputTokens.eqZero then
    let u := anthropicCacheUsage (F := F) (.int p) (.int k) (.int w)
    ({ acct.1 with inputTokens := .int p }, acct.2.update
      ⟨u.inputTokens, u.cacheCreationInputTokens, u.cacheReadInputTokens, none⟩)
  else acct

def Account.setCost (cost : Option Int) (acct : Account F) : Account F :=
  match cost with
  | some m => ({ acct.1 with reportedCostMicros := some (.int m) }, acct.2)
  | none => acct

/-- The account after a usage chunk. -/
def Account.afterUsage (acct : Account F) (usage : Option TokenUsage) (cost : Option Int) :
    Account F :=
  let p := tokenCount usage "prompt_tokens"
  let c := tokenCount usage "completion_tokens"
  let k := tokenCount usage "cached_tokens"
  let w := tokenCount usage "cache_write_tokens"
  let acct := acct.when k fun acct => ({ acct.1 with cachedTokens := .int k }, acct.2)
  let acct := acct.when w fun acct => ({ acct.1 with cacheWriteTokens := .int w }, acct.2)
  let acct := acct.when p (Account.reportInput p k w)
  let acct := acct.when c fun acct => ({ acct.1 with outputTokens := .int c }, acct.2)
  acct.setCost cost

theorem Sim.when {acct : Account F} {s : StreamState F} {a : Fragments.State String Int String}
    {n : Int} {f : StreamState F → StreamState F} {g : Account F → Account F}
    (h : Sim names acct s a) (hf : Sim names (g acct) (f s) a) :
    Sim names (acct.when n g) (if 0 < n then f s else s) a := by
  unfold Account.when
  split
  · exact hf
  · exact h

theorem Sim.setTotal {acct : Account F} {s : StreamState F}
    {a : Fragments.State String Int String} (h : Sim names acct s a)
    (f : FinalUsage F → FinalUsage F) :
    Sim names (f acct.1, acct.2) { s with finalUsage := f s.finalUsage } a :=
  h.congr rfl rfl rfl rfl rfl rfl (by rw [h.account.1]) h.account.2.1

theorem Sim.whenTotal {acct : Account F} {s : StreamState F}
    {a : Fragments.State String Int String} (h : Sim names acct s a) (n : Int)
    (f : FinalUsage F → FinalUsage F) :
    Sim names (acct.when n fun acct => (f acct.1, acct.2))
      (if 0 < n then { s with finalUsage := f s.finalUsage } else s) a :=
  h.when (f := fun s => { s with finalUsage := f s.finalUsage })
    (g := fun acct => (f acct.1, acct.2)) (h.setTotal f)

theorem Sim.reportInputTokens {acct : Account F} {s : StreamState F}
    {a : Fragments.State String Int String} (h : Sim names acct s a) (p k w : Int) :
    Sim names (acct.reportInput p k w) (reportInputTokens (.int p) (.int k) (.int w) s) a := by
  obtain ⟨hu, hs, -⟩ := h.account
  unfold Proxy.reportInputTokens Account.reportInput
  rw [hu]
  split
  · exact h.congr rfl rfl rfl rfl (by simp [StreamState.yield, ClientMessage.step]) rfl
      (by simp [StreamState.yield])
      (by simp [StreamState.yield, ClientMessage.step, hs])
  · exact h

theorem Sim.setReportedCost {acct : Account F} {s : StreamState F}
    {a : Fragments.State String Int String} (h : Sim names acct s a) (cost : Option Int) :
    Sim names (acct.setCost cost)
      (setReportedCost (match cost with | some c => .int c | none => .null) s) a := by
  cases cost with
  | none => exact h
  | some c => exact h.setTotal fun u => { u with reportedCostMicros := some (.int c) }

theorem whenPos_int (s : StreamState F) (n : Int) (f : StreamState F → StreamState F) :
    whenPos s (.int n) f = .ok (if 0 < n then f s else s) := by
  by_cases h : 0 < n <;> simp [whenPos, gtZero?, orRaise, h, bind, Except.bind, pure, Except.pure]

theorem orElse_int_zero (n : Int) : (.int n : Json F).orElse (.int 0) = .int n := by
  by_cases h : n = 0 <;> simp [orElse, truthy, h]

/-- The items of a usage chunk. -/
def usageChunkItems (usage : Option TokenUsage) (cost : Option Int) : List (String × Json F) :=
  usageItems usage ++ match cost with
    | some c => [("reported_cost_micros", .int c)]
    | none => []

theorem getD_usageChunkItems (usage : Option TokenUsage) (cost : Option Int) (d : Json F) :
    getD (usageChunkItems usage cost) "prompt_tokens" d = .int (tokenCount usage "prompt_tokens") ∧
    getD (usageChunkItems usage cost) "completion_tokens" d
      = .int (tokenCount usage "completion_tokens") ∧
    getD (usageChunkItems usage cost) "cached_tokens" d = .int (tokenCount usage "cached_tokens") ∧
    getD (usageChunkItems usage cost) "cache_write_tokens" d
      = .int (tokenCount usage "cache_write_tokens") ∧
    Json.get (usageChunkItems (F := F) usage cost) "reported_cost_micros"
      = (match cost with
        | some c => .int c
        | none => .null) := by
  cases cost <;> simp [usageChunkItems, usageItems, Json.get, getD]

/-- A usage chunk changes the account only. -/
theorem Sim.processUsage {acct : Account F} {s : StreamState F}
    {a : Fragments.State String Int String} (h : Sim names acct s a) (usage : Option TokenUsage)
    (cost : Option Int) :
    ∃ s', processUsage s (usageChunkItems usage cost) = .ok s' ∧
      Sim names (acct.afterUsage usage cost) s' a := by
  obtain ⟨hp, hc, hk, hw, hm⟩ := getD_usageChunkItems (F := F) usage cost (.int 0)
  have h₀ : Sim names acct { s with finalUsageSeen := true } a :=
    h.congr rfl rfl rfl rfl rfl rfl h.account.1 h.account.2.1
  have h₁ := h₀.whenTotal (tokenCount usage "cached_tokens")
    fun u => { u with cachedTokens := .int (tokenCount usage "cached_tokens") }
  have h₂ := h₁.whenTotal (tokenCount usage "cache_write_tokens")
    fun u => { u with cacheWriteTokens := .int (tokenCount usage "cache_write_tokens") }
  have h₃ := h₂.when (n := tokenCount usage "prompt_tokens")
    (h₂.reportInputTokens (tokenCount usage "prompt_tokens") (tokenCount usage "cached_tokens")
      (tokenCount usage "cache_write_tokens"))
  have h₄ := h₃.whenTotal (tokenCount usage "completion_tokens")
    fun u => { u with outputTokens := .int (tokenCount usage "completion_tokens") }
  refine ⟨_, ?_, h₄.setReportedCost cost⟩
  simp only [Proxy.processUsage, hp, hc, hk, hw, hm, orElse_int_zero, whenPos_int, bind,
    Except.bind, pure, Except.pure]
  rfl

end MultiForge.Proxy
