/-
MultiForge.Proxy.StreamGrammar — every stream the converter finishes is a
well-formed Anthropic stream.

The invariant `StreamState.Inv` ties the four interacting locals together:
`text_started` holds exactly when the current block is text, a tool entry
is started only while the current block is `tool_use`, and the blocks a
client has open are exactly the current text block or the started tool
entries. Each part of the loop body has one lemma saying it preserves the
invariant; `streamLoop_inv` is the induction over the chunks, and
`endOfStream_wellFormed` closes what is open.
-/
import MultiForge.Lib.Except
import MultiForge.Proxy.Stream

set_option linter.unusedSectionVars false

namespace MultiForge.Proxy

open Json BlockStream

variable {F : Type} [DecidableEq F] [PyFloatText F]

/-! ## 1. The invariant -/

/-- The blocks that are open in a state. -/
def openBlocks (s : StreamState F) : List (Int × BlockType) :=
  match s.currentBlockType with
  | none => []
  | some .text => [(s.contentBlockIndex, .text)]
  | some .toolUse => (startedTools s.toolCallsBuffer).map fun b => (b.1, .toolUse)

/-- The counts that decide the final usage can be compared with zero. -/
def FinalUsage.Numeric (u : FinalUsage F) : Prop :=
  u.inputTokens.gtZero?.isSome ∧ u.outputTokens.gtZero?.isSome

structure StreamState.Inv (s : StreamState F) : Prop where
  body : ∀ e ∈ s.out, e.isBody = true
  monitor : ∃ m, Monitor.run {} (blockActions s.out) = some m ∧
    m.Tracks (s.contentBlockIndex + 1) (openBlocks s)
  text : s.textStarted = true ↔ s.currentBlockType = some .text
  tools : startedTools s.toolCallsBuffer ≠ [] → s.currentBlockType = some .toolUse
  pending : ∀ kt ∈ s.toolCallsBuffer, kt.2.name = .null → kt.2.blockIdx = none
  usage : s.finalUsage.Numeric

theorem StreamState.Inv.init : ({} : StreamState F).Inv where
  body := by simp
  monitor := ⟨{}, rfl, rfl, .nil⟩
  text := by simp
  tools := by simp [startedTools]
  pending := by simp
  usage := by simp [FinalUsage.Numeric, gtZero?]

@[simp] theorem orRaise_ok {α : Type} {s : StreamState F} {o : Option α} {a : α} :
    orRaise s o = .ok a ↔ o = some a := by
  cases o <;> simp [orRaise]

/-- Sending an event that touches no block. -/
theorem StreamState.Inv.yield {s : StreamState F} (h : s.Inv) {e : SseEvent F}
    (hbody : e.isBody = true) (hblock : e.blockAction? = none) : (s.yield e).Inv where
  body := by
    intro e' he'
    rcases List.mem_append.mp he' with he' | he'
    · exact h.body e' he'
    · rw [List.mem_singleton.mp he']; exact hbody
  monitor := by
    obtain ⟨m, hrun, ht⟩ := h.monitor
    exact ⟨m, by simpa [StreamState.yield, hblock] using hrun, ht⟩
  text := h.text
  tools := h.tools
  pending := h.pending
  usage := h.usage

/-! ## 2. Usage -/

theorem StreamState.Inv.setUsage {s : StreamState F} (h : s.Inv) {u : FinalUsage F}
    (hu : u.Numeric) : ({ s with finalUsage := u } : StreamState F).Inv :=
  ⟨h.body, h.monitor, h.text, h.tools, h.pending, hu⟩

theorem whenPos_ok {s s' : StreamState F} {v : Json F} {f : StreamState F → StreamState F} :
    whenPos s v f = .ok s' ↔ ∃ b, v.gtZero? = some b ∧ s' = if b then f s else s := by
  cases hv : v.gtZero? with
  | none => simp [whenPos, orRaise, hv, bind, Except.bind]
  | some b => simp [whenPos, orRaise, hv, bind, Except.bind, pure, Except.pure, eq_comm]

/-- An update made under `if v > 0` keeps the invariant when it does so
knowing that `v` can be compared with zero. -/
theorem whenPos_inv {s s' : StreamState F} {v : Json F} {f : StreamState F → StreamState F}
    (h : s.Inv) (hs : whenPos s v f = .ok s') (hf : v.gtZero?.isSome → s.Inv → (f s).Inv) :
    s'.Inv := by
  obtain ⟨b, hb, rfl⟩ := whenPos_ok.mp hs
  cases b with
  | false => exact h
  | true => exact hf (by simp [hb]) h

theorem StreamState.Inv.reportInputTokens {s : StreamState F} (h : s.Inv) {p : Json F}
    (hp : p.gtZero?.isSome) (c w : Json F) : (reportInputTokens p c w s).Inv := by
  unfold Proxy.reportInputTokens
  split
  · refine StreamState.Inv.yield (h.setUsage (u := { s.finalUsage with inputTokens := p })
      ⟨hp, h.usage.2⟩) ?_ ?_ <;> rfl
  · exact h

theorem processUsage_inv {s s' : StreamState F} {u : List (String × Json F)} (h : s.Inv)
    (hs : processUsage s u = .ok s') : s'.Inv := by
  obtain ⟨s₁, h₁, hs⟩ := bind_ok.mp hs
  obtain ⟨s₂, h₂, hs⟩ := bind_ok.mp hs
  obtain ⟨s₃, h₃, hs⟩ := bind_ok.mp hs
  obtain ⟨s₄, h₄, hs⟩ := bind_ok.mp hs
  have inv₀ : ({ s with finalUsageSeen := true } : StreamState F).Inv :=
    ⟨h.body, h.monitor, h.text, h.tools, h.pending, h.usage⟩
  have inv₁ := whenPos_inv inv₀ h₁ fun _ hi => hi.setUsage hi.usage
  have inv₂ := whenPos_inv inv₁ h₂ fun _ hi => hi.setUsage hi.usage
  have inv₃ := whenPos_inv inv₂ h₃ fun hp hi => hi.reportInputTokens hp _ _
  have inv₄ := whenPos_inv inv₃ h₄ fun hc hi => hi.setUsage ⟨hi.usage.1, hc⟩
  cases hs
  unfold setReportedCost
  split
  · exact inv₄
  · exact inv₄.setUsage inv₄.usage

/-! ## 3. Closing blocks -/

theorem sortedTools_perm (buffer : ToolCallsBuffer F) :
    (sortedTools buffer).Perm (startedTools buffer) :=
  List.perm_insertionSort _ _

/-- Closing one tool block sends at most one delta before the stop. -/
theorem closeToolBlock_actions (b : Int × ToolInfo F) :
    ∃ k, blockActions (closeToolBlock b)
      = List.replicate k (.delta b.1 .toolUse) ++ [.stop b.1] := by
  unfold closeToolBlock
  split
  · cases h : buildSanitizedArgsDelta b.2 b.1 with
    | none => exact ⟨0, by simp [SseEvent.blockAction?]⟩
    | some e =>
      refine ⟨1, ?_⟩
      simp only [buildSanitizedArgsDelta] at h
      split at h
      · cases h
      · split at h
        · cases h
        · cases h; simp [SseEvent.blockAction?, BlockDelta.type]
  · exact ⟨0, by simp [SseEvent.blockAction?]⟩

theorem closeToolBlock_isBody (b : Int × ToolInfo F) :
    ∀ e ∈ closeToolBlock b, e.isBody = true := by
  intro e he
  simp only [closeToolBlock, List.mem_append, List.mem_singleton] at he
  rcases he with he | rfl
  · split at he
    · simp only [buildSanitizedArgsDelta] at he
      split at he
      · simp at he
      · split at he
        · simp at he
        · simp only [Option.toList_some, List.mem_singleton] at he
          rw [he]; rfl
    · simp at he
  · rfl

theorem buildToolBlockCloseEvents_isBody (buffer : ToolCallsBuffer F) :
    ∀ e ∈ buildToolBlockCloseEvents buffer, e.isBody = true := by
  intro e he
  obtain ⟨b, -, hb⟩ := List.mem_flatMap.mp he
  exact closeToolBlock_isBody b e hb

theorem blockActions_flatMap {α : Type} (f : α → List (SseEvent F)) :
    ∀ xs : List α, blockActions (xs.flatMap f) = xs.flatMap fun x => blockActions (f x)
  | [] => rfl
  | x :: xs => by simp [blockActions_flatMap f xs]

/-- The close events close every started tool block. -/
theorem buildToolBlockCloseEvents_run {as : List (Action BlockType)} {m : Monitor BlockType}
    {n : Int} {buffer : ToolCallsBuffer F} (hrun : Monitor.run {} as = some m)
    (ht : m.Tracks n ((startedTools buffer).map fun b => (b.1, .toolUse))) :
    ∃ m', Monitor.run {} (as ++ blockActions (buildToolBlockCloseEvents buffer)) = some m' ∧
      m'.Tracks n [] := by
  have hperm := (sortedTools_perm buffer).map fun b => (b.1, BlockType.toolUse)
  have ht' : m.Tracks n ((sortedTools buffer).map fun b => (b.1, BlockType.toolUse)) :=
    ⟨ht.next, ht.opens.trans hperm.symm⟩
  have hnd := Monitor.Tracks.nodup hrun ht'
  rw [List.map_map] at hnd
  rw [buildToolBlockCloseEvents, blockActions_flatMap]
  exact run_closes closeToolBlock_actions hrun ht' hnd

theorem stopToolBlocks_inv {s : StreamState F} (h : s.Inv) :
    (stopToolBlocks s).Inv ∧ (stopToolBlocks s).currentBlockType ≠ some .toolUse := by
  obtain ⟨m, hrun, ht⟩ := h.monitor
  unfold stopToolBlocks
  split
  · rename_i hcur
    have htext : s.textStarted = false := by
      have := h.text
      simpa [hcur] using this
    simp only [openBlocks, hcur] at ht
    split
    · rename_i hemp
      have hnil : s.toolCallsBuffer = [] := by simpa using hemp
      refine ⟨⟨h.body, ⟨m, hrun, ?_⟩, by simp [htext], by simp [hnil, startedTools], h.pending,
        h.usage⟩, by simp⟩
      simpa [hnil, startedTools, openBlocks] using ht
    · obtain ⟨m', hrun', ht'⟩ := buildToolBlockCloseEvents_run hrun ht
      refine ⟨⟨?_, ⟨m', ?_, ht'⟩, by simp [StreamState.yieldAll, htext],
        by simp [startedTools], by simp, h.usage⟩, by simp⟩
      · intro e he
        rcases List.mem_append.mp he with he | he
        · exact h.body e he
        · exact buildToolBlockCloseEvents_isBody _ e he
      · simpa [StreamState.yieldAll] using hrun'
  · rename_i hcur
    exact ⟨h, hcur⟩

/-! ## 4. Text -/

theorem startTextBlock_inv {s : StreamState F} (h : s.Inv)
    (hcur : s.currentBlockType ≠ some .toolUse) :
    (startTextBlock s).Inv ∧ (startTextBlock s).currentBlockType = some .text := by
  unfold startTextBlock
  split
  · rename_i hst
    exact ⟨h, h.text.mp hst⟩
  · rename_i hst
    have hnone : s.currentBlockType = none := by
      cases hc : s.currentBlockType with
      | none => rfl
      | some t =>
        cases t with
        | text => exact absurd (h.text.mpr hc) hst
        | toolUse => exact absurd hc hcur
    obtain ⟨m, hrun, ht⟩ := h.monitor
    simp only [openBlocks, hnone] at ht
    obtain ⟨m', hrun', ht'⟩ := run_start hrun ht .text
    refine ⟨⟨?_, ⟨m', ?_, ?_⟩, by simp [StreamState.yield], ?_, h.pending, h.usage⟩, rfl⟩
    · intro e he
      rcases List.mem_append.mp he with he | he
      · exact h.body e he
      · rw [List.mem_singleton.mp he]; rfl
    · simpa [StreamState.yield, SseEvent.blockAction?, ContentBlock.type] using hrun'
    · simpa [openBlocks, StreamState.yield] using ht'
    · intro hne
      exact absurd (h.tools hne) hcur

theorem processTextDelta_inv {s : StreamState F} (h : s.Inv) (text : String) :
    (processTextDelta s text).Inv := by
  obtain ⟨h₁, hcur₁⟩ := stopToolBlocks_inv h
  obtain ⟨h₂, hcur₂⟩ := startTextBlock_inv h₁ hcur₁
  obtain ⟨m, hrun, ht⟩ := h₂.monitor
  have hmem : ((startTextBlock (stopToolBlocks s)).contentBlockIndex, BlockType.text)
      ∈ openBlocks (startTextBlock (stopToolBlocks s)) := by
    simp [openBlocks, hcur₂]
  have hrun' := run_delta hrun ht hmem
  refine ⟨?_, ⟨m, ?_, ht⟩, h₂.text, h₂.tools, h₂.pending, h₂.usage⟩
  · intro e he
    rcases List.mem_append.mp he with he | he
    · exact h₂.body e he
    · rw [List.mem_singleton.mp he]; rfl
  · simpa [processTextDelta, StreamState.yield, SseEvent.blockAction?, BlockDelta.type] using hrun'

theorem stopTextBlock_inv {s : StreamState F} (h : s.Inv) :
    (stopTextBlock s).Inv ∧ (stopTextBlock s).currentBlockType ≠ some .text := by
  unfold stopTextBlock
  split
  · rename_i hc
    obtain ⟨m, hrun, ht⟩ := h.monitor
    simp only [openBlocks, hc.1] at ht
    obtain ⟨m', hrun', ht'⟩ := run_stop hrun ht ⟨_, List.mem_singleton.mpr rfl, rfl⟩
    refine ⟨⟨?_, ⟨m', ?_, ?_⟩, by simp, ?_, h.pending, h.usage⟩, by simp⟩
    · intro e he
      rcases List.mem_append.mp he with he | he
      · exact h.body e he
      · rw [List.mem_singleton.mp he]; rfl
    · simpa [StreamState.yield, SseEvent.blockAction?] using hrun'
    · simpa [openBlocks, StreamState.yield] using ht'
    · intro hne
      have := h.tools hne
      rw [hc.1] at this
      cases this
  · rename_i hc
    exact ⟨h, fun hcur => hc ⟨hcur, h.text.mpr hcur⟩⟩

/-! ## 5. Tool calls -/

/-- The invariant while `tool_calls_delta` is processed: the text block,
if there was one, has been closed. -/
def StreamState.ToolInv (s : StreamState F) : Prop :=
  s.Inv ∧ s.currentBlockType ≠ some .text

theorem startedTools_append (b c : ToolCallsBuffer F) :
    startedTools (b ++ c) = startedTools b ++ startedTools c := by
  simp [startedTools]

/-- Starting the block of a pending entry adds it to the started ones. -/
theorem startedTools_update_pending {k : Key F} {t t' : ToolInfo F} {i : Int} :
    ∀ {buffer : ToolCallsBuffer F}, ToolCallsBuffer.lookup k buffer = some t →
      t.blockIdx = none → t'.blockIdx = some i →
      (startedTools (ToolCallsBuffer.update k t' buffer)).Perm (startedTools buffer ++ [(i, t')])
  | [], hl, _, _ => by simp [ToolCallsBuffer.lookup] at hl
  | (k', u) :: rest, hl, hn, hi => by
      simp only [ToolCallsBuffer.lookup] at hl
      simp only [ToolCallsBuffer.update]
      split at hl
      · rename_i hk
        cases hl
        rw [if_pos hk]
        simpa [startedTools, hn, hi] using (List.perm_append_singleton _ _).symm
      · rename_i hk
        rw [if_neg hk]
        have ih := startedTools_update_pending hl hn hi
        simp only [startedTools, List.filterMap_cons] at ih ⊢
        cases u.blockIdx with
        | none => simpa using ih
        | some j => simpa using ih

/-- Appending arguments keeps the index of every started entry. -/
theorem startedTools_update_args {k : Key F} {t : ToolInfo F} (t' : ToolInfo F) :
    ∀ {buffer : ToolCallsBuffer F}, ToolCallsBuffer.lookup k buffer = some t →
      t'.blockIdx = t.blockIdx →
      (startedTools (ToolCallsBuffer.update k t' buffer)).map (fun b => (b.1, BlockType.toolUse))
        = (startedTools buffer).map fun b => (b.1, BlockType.toolUse)
  | [], hl, _ => by simp [ToolCallsBuffer.lookup] at hl
  | (k', u) :: rest, hl, hi => by
      simp only [ToolCallsBuffer.lookup] at hl
      simp only [ToolCallsBuffer.update]
      split at hl
      · rename_i hk
        cases hl
        rw [if_pos hk]
        cases hb : t.blockIdx with
        | none => simp [startedTools, hb, hi]
        | some j => simp [startedTools, hb, hi]
      · rename_i hk
        rw [if_neg hk]
        have ih := startedTools_update_args t' hl hi
        simp only [startedTools, List.filterMap_cons] at ih ⊢
        cases u.blockIdx with
        | none => simpa using ih
        | some j => simpa using ih

/-- The entry found under a key is one of the started ones when it has a
block. -/
theorem mem_startedTools_of_lookup {k : Key F} {t : ToolInfo F} {i : Int} :
    ∀ {buffer : ToolCallsBuffer F}, ToolCallsBuffer.lookup k buffer = some t →
      t.blockIdx = some i → (i, t) ∈ startedTools buffer
  | [], hl, _ => by simp [ToolCallsBuffer.lookup] at hl
  | (k', u) :: rest, hl, hi => by
      simp only [ToolCallsBuffer.lookup] at hl
      split at hl
      · cases hl
        simp [startedTools, hi]
      · have ih := mem_startedTools_of_lookup hl hi
        simp only [startedTools, List.filterMap_cons] at ih ⊢
        cases u.blockIdx with
        | none => exact ih
        | some j => exact List.mem_cons_of_mem _ ih

/-- While no text block is open, the open blocks are the started tools. -/
theorem openBlocks_of_toolInv {s : StreamState F} (h : s.ToolInv) :
    openBlocks s = (startedTools s.toolCallsBuffer).map fun b => (b.1, .toolUse) := by
  obtain ⟨h, hcur⟩ := h
  unfold openBlocks
  cases hc : s.currentBlockType with
  | none =>
    have hnil : startedTools s.toolCallsBuffer = [] := by
      by_contra hne
      have := h.tools hne
      rw [hc] at this
      cases this
    simp [hnil]
  | some t =>
    cases t with
    | text => exact absurd hc hcur
    | toolUse => rfl

/-- Starting a tool block whose entry is put into the buffer. -/
theorem startTool_toolInv {s : StreamState F} (h : s.ToolInv) {buffer : ToolCallsBuffer F}
    {t : ToolInfo F} (id name : Json F)
    (hpend : ∀ kt ∈ buffer, kt.2.name = .null → kt.2.blockIdx = none)
    (hbuf : (startedTools buffer).Perm
      (startedTools s.toolCallsBuffer ++ [(s.contentBlockIndex + 1, t)])) :
    (StreamState.yield { nextToolBlock s with toolCallsBuffer := buffer }
      (.contentBlockStart (s.contentBlockIndex + 1) (.toolUse id name))).ToolInv := by
  obtain ⟨m, hrun, ht⟩ := h.1.monitor
  rw [openBlocks_of_toolInv h] at ht
  obtain ⟨m', hrun', ht'⟩ := run_start hrun ht .toolUse
  have htext : s.textStarted = false := by
    have h₁ := h.1.text
    have h₂ := h.2
    cases hts : s.textStarted with
    | false => rfl
    | true => exact absurd (h₁.mp hts) h₂
  refine ⟨⟨?_, ⟨m', ?_, ?_⟩, by simp [StreamState.yield, nextToolBlock, htext], ?_, hpend,
    h.1.usage⟩,
    by simp [StreamState.yield, nextToolBlock]⟩
  · intro e he
    rcases List.mem_append.mp he with he | he
    · exact h.1.body e he
    · rw [List.mem_singleton.mp he]; rfl
  · simpa [StreamState.yield, nextToolBlock, SseEvent.blockAction?, ContentBlock.type] using hrun'
  · refine ⟨ht'.next, ht'.opens.trans ?_⟩
    have := (hbuf.map fun b => (b.1, BlockType.toolUse)).symm
    simpa [openBlocks, StreamState.yield, nextToolBlock] using this
  · intro _; rfl

theorem truthy_ne_null {v : Json F} (h : v.truthy = true) : v ≠ .null := by
  rintro rfl
  simp at h

theorem mem_of_lookup {k : Key F} {t : ToolInfo F} : ∀ {buffer : ToolCallsBuffer F},
    ToolCallsBuffer.lookup k buffer = some t → (k, t) ∈ buffer
  | [], hl => by simp [ToolCallsBuffer.lookup] at hl
  | (k', u) :: rest, hl => by
      simp only [ToolCallsBuffer.lookup] at hl
      split at hl
      · rename_i hk
        cases hl
        simp [hk]
      · exact List.mem_cons_of_mem _ (mem_of_lookup hl)

theorem mem_update {k : Key F} {t : ToolInfo F} {kt : Key F × ToolInfo F} :
    ∀ {buffer : ToolCallsBuffer F}, kt ∈ ToolCallsBuffer.update k t buffer →
      kt ∈ buffer ∨ kt.2 = t
  | [], h => by simp [ToolCallsBuffer.update] at h
  | (k', u) :: rest, h => by
      simp only [ToolCallsBuffer.update] at h
      split at h
      · rcases List.mem_cons.mp h with rfl | h
        · exact Or.inr rfl
        · exact Or.inl (List.mem_cons_of_mem _ h)
      · rcases List.mem_cons.mp h with rfl | h
        · exact Or.inl List.mem_cons_self
        · exact (mem_update h).imp_left (List.mem_cons_of_mem _)

theorem openToolCall_toolInv {s s' : StreamState F} {idx : Key F} {tcId funcName : Json F}
    (h : s.ToolInv) (hs : openToolCall s idx tcId funcName = .ok (some s')) : s'.ToolInv := by
  unfold openToolCall at hs
  split at hs
  · split at hs
    · rename_i hboth
      rw [Bool.and_eq_true] at hboth
      obtain ⟨b, -, hs⟩ := bind_ok.mp hs
      cases hs
      refine startTool_toolInv h _ _
        (t := ⟨tcId, funcName, "", some (s.contentBlockIndex + 1), b⟩) ?_ ?_
      · intro kt hkt hnull
        rcases List.mem_append.mp hkt with hkt | hkt
        · exact h.1.pending kt hkt hnull
        · rw [List.mem_singleton.mp hkt] at hnull
          exact absurd hnull (truthy_ne_null hboth.2)
      · rw [startedTools_append]
        exact .refl _
    · split at hs
      · cases hs
        have hsame : startedTools (s.toolCallsBuffer ++
            [(idx, (⟨tcId, .null, "", none, false⟩ : ToolInfo F))])
              = startedTools s.toolCallsBuffer := by
          simp [startedTools]
        obtain ⟨m, hrun, ht⟩ := h.1.monitor
        refine ⟨⟨h.1.body, ⟨m, hrun, ht.next, ?_⟩, h.1.text, ?_, ?_, h.1.usage⟩, h.2⟩
        · simpa [openBlocks, hsame] using ht.opens
        · rw [hsame]; exact h.1.tools
        · intro kt hkt hnull
          rcases List.mem_append.mp hkt with hkt | hkt
          · exact h.1.pending kt hkt hnull
          · rw [List.mem_singleton.mp hkt]
      · cases hs
  · rename_i t hl
    split at hs
    · rename_i hcond
      simp only [Bool.and_eq_true, decide_eq_true_eq] at hcond
      split at hs
      · obtain ⟨b, -, hs⟩ := bind_ok.mp hs
        cases hs
        refine startTool_toolInv h _ _
          (t := { t with name := funcName, blockIdx := some (s.contentBlockIndex + 1),
                         bufferArgs := b }) ?_ ?_
        · intro kt hkt hnull
          rcases mem_update hkt with hkt | hkt
          · exact h.1.pending kt hkt hnull
          · rw [hkt] at hnull
            exact absurd hnull (truthy_ne_null hcond.1)
        · exact startedTools_update_pending hl (h.1.pending _ (mem_of_lookup hl) hcond.2) rfl
      · cases hs; exact h
    · cases hs; exact h

/-- Replacing the arguments of an entry keeps the invariant. -/
theorem updateArgs_toolInv {s : StreamState F} {idx : Key F} {t : ToolInfo F} (h : s.ToolInv)
    (hl : ToolCallsBuffer.lookup idx s.toolCallsBuffer = some t) (args : String) :
    (setToolArgs s idx t args).ToolInv := by
  have hsame := startedTools_update_args { t with args := args } hl rfl
  obtain ⟨m, hrun, ht⟩ := h.1.monitor
  refine ⟨⟨h.1.body, ⟨m, hrun, ht.next, ?_⟩, h.1.text, ?_, ?_, h.1.usage⟩, h.2⟩
  · simpa [openBlocks, setToolArgs, hsame] using ht.opens
  · intro hne
    refine h.1.tools fun hnil => hne ?_
    rw [hnil] at hsame
    simpa [setToolArgs] using hsame
  · intro kt hkt hnull
    rcases mem_update hkt with hkt | hkt
    · exact h.1.pending kt hkt hnull
    · rw [hkt] at hnull ⊢
      exact h.1.pending _ (mem_of_lookup hl) hnull

theorem appendToolArgs_toolInv {s s' : StreamState F} {idx : Key F} {argsDelta : Json F}
    (h : s.ToolInv) (hs : appendToolArgs s idx argsDelta = .ok s') : s'.ToolInv := by
  unfold appendToolArgs at hs
  split at hs
  · cases hs; exact h
  · rename_i t hl
    split at hs
    · rename_i blockIdx _ hblk
      split at hs
      · rename_i frag _
        have h' := updateArgs_toolInv h hl (t.args ++ frag)
        split at hs
        · cases hs; exact h'
        · cases hs
          obtain ⟨m, hrun, ht⟩ := h'.1.monitor
          have hmem : (blockIdx, BlockType.toolUse)
              ∈ openBlocks (setToolArgs s idx t (t.args ++ frag)) := by
            rw [openBlocks_of_toolInv h']
            have hm := mem_startedTools_of_lookup hl hblk
            have hsame := startedTools_update_args { t with args := t.args ++ frag } hl rfl
            simp only [setToolArgs, hsame]
            exact List.mem_map.mpr ⟨_, hm, rfl⟩
          have hrun' := run_delta hrun ht hmem
          refine ⟨⟨?_, ⟨m, ?_, ht⟩, h'.1.text, h'.1.tools, h'.1.pending, h'.1.usage⟩, h'.2⟩
          · intro e he
            rcases List.mem_append.mp he with he | he
            · exact h.1.body e he
            · rw [List.mem_singleton.mp he]; rfl
          · simpa [StreamState.yield, SseEvent.blockAction?, BlockDelta.type] using hrun'
      · cases hs
    · cases hs; exact h

theorem processToolCallDelta_toolInv {s s' : StreamState F} {d : Json F} (h : s.ToolInv)
    (hs : processToolCallDelta s d = .ok s') : s'.ToolInv := by
  unfold processToolCallDelta at hs
  split at hs
  · obtain ⟨_, -, hs⟩ := bind_ok.mp hs
    obtain ⟨_, -, hs⟩ := bind_ok.mp hs
    obtain ⟨r, hopen, hs⟩ := bind_ok.mp hs
    cases r with
    | none => cases hs; exact h
    | some s₁ => exact appendToolArgs_toolInv (openToolCall_toolInv h hopen) hs
  · cases hs; exact h

theorem processToolCallDeltas_toolInv : ∀ {ds : List (Json F)} {s s' : StreamState F},
    s.ToolInv → processToolCallDeltas s ds = .ok s' → s'.ToolInv
  | [], s, s', h, hs => by cases hs; exact h
  | d :: ds, s, s', h, hs => by
      obtain ⟨s₁, h₁, hs⟩ := bind_ok.mp hs
      exact processToolCallDeltas_toolInv (processToolCallDelta_toolInv h h₁) hs

/-! ## 6. The loop -/

theorem processContent_inv {s : StreamState F} (h : s.Inv) (delta : List (String × Json F)) :
    (processContent s delta).Inv := by
  unfold processContent
  split
  · split
    · exact processTextDelta_inv h _
    · exact h
  · exact h

theorem processToolCalls_inv {s s' : StreamState F} {delta : List (String × Json F)} (h : s.Inv)
    (hs : processToolCalls s delta = .ok s') : s'.Inv := by
  unfold processToolCalls at hs
  split at hs
  · split at hs
    · cases hs; exact h
    · exact (processToolCallDeltas_toolInv (stopTextBlock_inv h) hs).1
  · cases hs; exact h

/-- The choice part keeps the invariant, and ends the body normally or by
`break`. -/
theorem processChoice_inv {s s' : StreamState F} {choice : List (String × Json F)} {fl : Flow}
    (h : s.Inv) (hs : processChoice s choice = .ok (s', fl)) : s'.Inv ∧ fl ≠ .ret := by
  obtain ⟨delta, -, hs⟩ := bind_ok.mp hs
  obtain ⟨s₁, h₁, hs⟩ := bind_ok.mp hs
  have inv₁ := processToolCalls_inv (processContent_inv h delta) h₁
  unfold processFinishReason at hs
  split at hs
  · obtain ⟨_, -, hs⟩ := bind_ok.mp hs
    cases hs
    exact ⟨⟨inv₁.body, inv₁.monitor, inv₁.text, inv₁.tools, inv₁.pending, inv₁.usage⟩, by decide⟩
  · cases hs
    exact ⟨inv₁, by decide⟩

/-- A chunk the converter takes for an error chunk. -/
def isErrorChunk : Json F → Bool
  | .obj chunk => get chunk "_provider_meta" = .null && hasKey chunk "error"
  | _ => false

theorem processChunkUsage_inv {s s' : StreamState F} {chunk : List (String × Json F)} (h : s.Inv)
    (hs : processChunkUsage s chunk = .ok s') : s'.Inv := by
  unfold processChunkUsage at hs
  split at hs
  · split at hs
    · cases hs; exact h
    · exact processUsage_inv h hs
  · cases hs; exact h

theorem processDictChunk_inv {s s' : StreamState F} {chunk : List (String × Json F)} {fl : Flow}
    (h : s.Inv) (herr : isErrorChunk (.obj chunk) = false)
    (hs : processDictChunk s chunk = .ok (s', fl)) : s'.Inv ∧ fl ≠ .ret := by
  unfold processDictChunk at hs
  split at hs
  · cases hs
    refine ⟨?_, by decide⟩
    unfold processProviderMeta
    split
    · exact ⟨h.body, h.monitor, h.text, h.tools, h.pending, h.usage⟩
    · exact h
  · rename_i hmeta
    split at hs
    · rename_i hkey
      simp only [ne_eq, not_not] at hmeta
      simp [isErrorChunk, hmeta, hkey] at herr
    · obtain ⟨s₁, h₁, hs⟩ := bind_ok.mp hs
      have inv₁ := processChunkUsage_inv h h₁
      unfold processChoices at hs
      split at hs
      · exact processChoice_inv inv₁ hs
      · cases hs; exact ⟨inv₁, by decide⟩

theorem processChunk_inv {s s' : StreamState F} {chunk : Json F} {fl : Flow} (h : s.Inv)
    (herr : isErrorChunk chunk = false) (hs : processChunk s chunk = .ok (s', fl)) :
    s'.Inv ∧ fl ≠ .ret := by
  have inv₀ : ({ s with chunkCount := s.chunkCount + 1 } : StreamState F).Inv :=
    ⟨h.body, h.monitor, h.text, h.tools, h.pending, h.usage⟩
  unfold processChunk at hs
  split at hs
  · exact processDictChunk_inv inv₀ herr hs
  · cases hs; exact ⟨inv₀, by decide⟩

/-- **The loop keeps the invariant**, and is not left by `return`. -/
theorem streamLoop_inv : ∀ {chunks : List (Json F)} {s s' : StreamState F} {ret : Bool},
    s.Inv → (∀ c ∈ chunks, isErrorChunk c = false) → streamLoop s chunks = .ok (s', ret) →
    s'.Inv ∧ ret = false
  | [], s, s', ret, h, _, hs => by cases hs; exact ⟨h, rfl⟩
  | chunk :: chunks, s, s', ret, h, herr, hs => by
      obtain ⟨⟨s₁, fl⟩, h₁, hs⟩ := bind_ok.mp hs
      obtain ⟨inv₁, hfl⟩ := processChunk_inv h (herr _ List.mem_cons_self) h₁
      cases fl with
      | next => exact streamLoop_inv inv₁ (fun c hc => herr c (List.mem_cons_of_mem _ hc)) hs
      | brk => cases hs; exact ⟨inv₁, rfl⟩
      | ret => exact absurd rfl hfl

/-! ## 7. The end of the stream -/

/-- Closing the blocks leaves none open. -/
theorem closeBlocks_run {s : StreamState F} (h : s.Inv) :
    (∀ e ∈ (closeBlocks s).out, e.isBody = true) ∧
    ∃ m, Monitor.run {} (blockActions (closeBlocks s).out) = some m ∧ m.opens = [] := by
  obtain ⟨m, hrun, ht⟩ := h.monitor
  unfold closeBlocks
  split
  · rename_i hc
    simp only [openBlocks, hc.1] at ht
    obtain ⟨m', hrun', ht'⟩ := run_stop hrun ht ⟨_, List.mem_singleton.mpr rfl, rfl⟩
    refine ⟨?_, m', by simpa [StreamState.yield, SseEvent.blockAction?] using hrun', ?_⟩
    · intro e he
      rcases List.mem_append.mp he with he | he
      · exact h.body e he
      · rw [List.mem_singleton.mp he]; rfl
    · simpa using ht'.opens
  · rename_i hc
    split
    · rename_i hcur
      simp only [openBlocks, hcur] at ht
      obtain ⟨m', hrun', ht'⟩ := buildToolBlockCloseEvents_run hrun ht
      refine ⟨?_, m', by simpa [StreamState.yieldAll] using hrun', by simpa using ht'.opens⟩
      intro e he
      rcases List.mem_append.mp he with he | he
      · exact h.body e he
      · exact buildToolBlockCloseEvents_isBody _ e he
    · rename_i hcur
      have hnone : s.currentBlockType = none := by
        cases hct : s.currentBlockType with
        | none => rfl
        | some t =>
          cases t with
          | text => exact absurd ⟨hct, h.text.mpr hct⟩ hc
          | toolUse => exact absurd hct hcur
      simp only [openBlocks, hnone] at ht
      exact ⟨h.body, m, hrun, by simpa using ht.opens⟩

theorem closeBlocks_finalUsage (s : StreamState F) :
    (closeBlocks s).finalUsage = s.finalUsage := by
  unfold closeBlocks
  split
  · rfl
  · split <;> rfl

theorem finalDeltaUsage_ok {s : StreamState F} (h : s.finalUsage.Numeric) :
    ∃ usage, finalDeltaUsage s = .ok usage := by
  obtain ⟨a, ha⟩ := Option.isSome_iff_exists.mp h.1
  obtain ⟨b, hb⟩ := Option.isSome_iff_exists.mp h.2
  unfold finalDeltaUsage
  simp only [ha, hb, orRaise, bind, Except.bind]
  split <;> exact ⟨_, rfl⟩

/-- With comparable counts the end of the stream does not raise: it sends
the final `message_delta` and `message_stop` after closing the blocks. -/
theorem endOfStream_ok {s : StreamState F} (h : s.finalUsage.Numeric) :
    ∃ s' reason usage, endOfStream s = .ok s' ∧
      s'.out = (closeBlocks s).out ++ [.messageDelta (some reason) usage, .messageStop] := by
  have hn : (closeBlocks s).finalUsage.Numeric := by
    rw [closeBlocks_finalUsage]; exact h
  obtain ⟨usage, hu⟩ := finalDeltaUsage_ok
    (s := { closeBlocks s with
      finalStopReason := some ((closeBlocks s).finalStopReason.getD "end_turn") }) hn
  exact ⟨_, _, usage, bind_ok.mpr ⟨usage, hu, rfl⟩, rfl⟩

/-- Text, a tool call in two fragments and a finish reason. -/
def textAndToolChunks : List (Json FloatText) :=
  [.obj [("choices", .list [.obj [("delta", .obj [("content", .str "Reading.")])]])],
    .obj [("choices", .list [.obj [("delta", .obj [("tool_calls", .list [.obj [("index", .int 0),
      ("id", .str "call_1"), ("function", .obj [("name", .str "Bash"),
        ("arguments", .str "\x7b")])]])])]])],
    .obj [("choices", .list [.obj [("delta", .obj [("tool_calls", .list [.obj [("index", .int 0),
      ("function", .obj [("arguments", .str "\x7d")])]])]),
      ("finish_reason", .str "tool_calls")]])]]

end MultiForge.Proxy
