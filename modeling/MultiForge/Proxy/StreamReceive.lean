/-
MultiForge.Proxy.StreamReceive — what a client receives of a stream.

The adapter and the converter are run together: the chunks an event is
turned into take the converter from one state to the next, and the
relation of `MultiForge.Proxy.StreamBlocks` says what each event does to
the reader. `receive_stream` is the whole pipeline, from the events of
the core client to the assembled message.
-/
import MultiForge.Proxy.StreamBlocks

set_option linter.unusedSectionVars false

namespace MultiForge.Proxy

open Json

variable {F : Type} [DecidableEq F] [PyFloatText F]

variable {names : CallNames}

/-! ## 1. Events -/

/-- What an event is for the reader. -/
def eventItem (e : StreamEvent F) : Option (Fragments.Item String Int String) :=
  match e.type with
  | .textDelta => if nonEmpty e.text then some (.text (e.text.getD "")) else none
  | .toolCallDelta =>
      e.toolCallDelta.bind fun d => d.index.map fun i => .frag i d.opens d.argumentsJson
  | _ => none

/-- The account after an event. -/
def Account.afterEvent (acct : Account F) (e : StreamEvent F) : Account F :=
  if e.type = .usage then acct.afterUsage e.usage e.costMicros else acct

/-- An event before the end of the stream, whose fragment agrees with the
names. -/
structure BodyEvent (names : CallNames) (e : StreamEvent F) : Prop where
  type : e.type ≠ .error ∧ e.type ≠ .responseEnd
  names : e.type = .toolCallDelta → ∀ d i, e.toolCallDelta = some d → d.index = some i →
    Names names i d

theorem Sim.counted {acct : Account F} {s : StreamState F}
    {a : Fragments.State String Int String} (h : Sim names acct s a) (n : Nat) :
    Sim names acct { s with chunkCount := n } a :=
  h.congr rfl rfl rfl rfl rfl rfl h.account.1 h.account.2.1

theorem get_completionChunk (src : ChunkSource) (n : Nat) (fields : List (String × Json F))
    (key : String) (h : key ≠ "id" ∧ key ≠ "object" ∧ key ≠ "created" ∧ key ≠ "model")
    (d : Json F) :
    getD ([("id", .str src.responseId), ("object", .str "chat.completion.chunk"),
      ("created", .int (src.clock n)), ("model", .str src.model)] ++ fields) key d
      = getD fields key d := by
  obtain ⟨h₁, h₂, h₃, h₄⟩ := h
  simp [getD, h₁.symm, h₂.symm, h₃.symm, h₄.symm]

/-- The body on a chunk with one choice. -/
theorem processChunk_oneChoice (src : ChunkSource) (n : Nat) (s : StreamState F)
    (delta : List (String × Json F)) (finish : Json F) :
    processChunk s (completionChunk src n (oneChoice delta finish))
      = (do
          let s ← processToolCalls
            (processContent { s with chunkCount := s.chunkCount + 1 } delta) delta
          processFinishReason s finish) := by
  have hdelta : (.obj delta : Json F).orElse (.obj []) = .obj delta := by
    cases delta <;> simp [orElse, truthy]
  simp only [processChunk, completionChunk, processDictChunk, Json.get,
    get_completionChunk src n _ "_provider_meta" (by decide)]
  simp [hasKey, oneChoice, getD, processChunkUsage, processChoices, processChoice, Json.get,
    hdelta, items?, orRaise, bind, Except.bind, pure, Except.pure]

theorem processChunk_usage (src : ChunkSource) (n : Nat) (s : StreamState F)
    (usage : Option TokenUsage) (cost : Option Int) :
    processChunk s (completionChunk src n
        [("choices", .list []), ("usage", .obj (usageChunkItems usage cost))])
      = (do
          let s ← processUsage { s with chunkCount := s.chunkCount + 1 }
            (usageChunkItems usage cost)
          pure (s, .next)) := by
  have hne : (usageChunkItems (F := F) usage cost).isEmpty = false := by
    simp [usageChunkItems, usageItems]
  simp only [processChunk, completionChunk, processDictChunk, Json.get,
    get_completionChunk src n _ "_provider_meta" (by decide)]
  simp [hasKey, getD, processChunkUsage, processChoices, Json.get, hne]

theorem processChunk_carrier (src : ChunkSource) (n : Nat) (s : StreamState F)
    (m : List (String × Json F)) :
    processChunk s (completionChunk src n [("choices", .list []), ("_provider_meta", .obj m)])
      = pure ({ s with chunkCount := s.chunkCount + 1, providerTraceMeta := some m }, .next) := by
  simp only [processChunk, completionChunk, processDictChunk, Json.get,
    get_completionChunk src n _ "_provider_meta" (by decide)]
  simp [getD, processProviderMeta]

/-- A chunk that carries a text delta. -/
theorem Sim.textChunk {acct : Account F} {s : StreamState F}
    {a : Fragments.State String Int String} (h : Sim names acct s a) (src : ChunkSource) (n : Nat)
    (text : Option String) :
    ∃ s', processChunk s (completionChunk src n (oneChoice [("content", optStr text)] .null))
        = .ok (s', .next) ∧
      Sim names acct s' (Fragments.run a
        (if nonEmpty text then [.text (text.getD "")] else [])) := by
  have htools : ∀ s : StreamState F,
      processToolCalls s [("content", (optStr text : Json F))] = .ok s := by
    intro s
    simp [processToolCalls, Json.get, getD, pure, Except.pure]
  have hcounted := h.counted (s.chunkCount + 1)
  refine ⟨processContent { s with chunkCount := s.chunkCount + 1 } [("content", optStr text)],
    ?_, ?_⟩
  · rw [processChunk_oneChoice, htools]
    rfl
  · cases text with
    | none => simpa [processContent, Json.get, getD, optStr, nonEmpty] using hcounted
    | some t =>
      by_cases ht : t = ""
      · simpa [processContent, Json.get, getD, optStr, nonEmpty, ht] using hcounted
      · simpa [processContent, Json.get, getD, optStr, nonEmpty, ht] using
          hcounted.processTextDelta t

/-- A chunk that carries a fragment. -/
theorem Sim.toolCallChunk {acct : Account F} {s : StreamState F}
    {a : Fragments.State String Int String} (h : Sim names acct s a) (src : ChunkSource) (n : Nat)
    {i : Int} {d : ToolCallDelta} (hd : Names names i d) :
    ∃ s', processChunk s (completionChunk src n (oneChoice (toolCallFields i d) .null))
        = .ok (s', .next) ∧
      Sim names acct s' (Fragments.run a [.frag i d.opens d.argumentsJson]) := by
  obtain ⟨s', hs', hsim⟩ := (h.counted (s.chunkCount + 1)).processToolCallDeltas hd
  have hcontent : processContent { s with chunkCount := s.chunkCount + 1 }
      (toolCallFields (F := F) i d) = { s with chunkCount := s.chunkCount + 1 } := by
    simp [processContent, toolCallFields, Json.get, getD]
  refine ⟨s', ?_, hsim⟩
  rw [processChunk_oneChoice, hcontent, hs']
  rfl

theorem Sim.usageChunk {acct : Account F} {s : StreamState F}
    {a : Fragments.State String Int String} (h : Sim names acct s a) (src : ChunkSource) (n : Nat)
    (usage : Option TokenUsage) (cost : Option Int) :
    ∃ s', processChunk s (completionChunk src n
        [("choices", .list []), ("usage", .obj (usageChunkItems usage cost))])
        = .ok (s', .next) ∧ Sim names (acct.afterUsage usage cost) s' a := by
  obtain ⟨s', hs', hsim⟩ := (h.counted (s.chunkCount + 1)).processUsage usage cost
  refine ⟨s', ?_, hsim⟩
  rw [processChunk_usage, hs']
  rfl

theorem streamLoop_next {s s' : StreamState F} {c : Json F} {rest : List (Json F)}
    (h : processChunk s c = .ok (s', .next)) :
    streamLoop s (c :: rest) = streamLoop s' rest := by
  rw [streamLoop, h]
  rfl

/-- A carrier chunk leaves the relation as it is. -/
theorem Sim.carriers {acct : Account F} {s : StreamState F}
    {a : Fragments.State String Int String} (h : Sim names acct s a) (src : ChunkSource)
    (st : AdapterState) (e : StreamEvent F) (rest : List (Json F)) :
    ∃ s', streamLoop s (carrierChunks src st e ++ rest) = streamLoop s' rest ∧
      Sim names acct s' a := by
  unfold carrierChunks
  split
  · split
    · exact ⟨s, rfl, h⟩
    · rename_i m _ _
      exact ⟨_, streamLoop_next (processChunk_carrier src _ s m),
        h.congr rfl rfl rfl rfl rfl rfl h.account.1 h.account.2.1⟩
  · exact ⟨s, rfl, h⟩

/-- **One event of the body**: the loop goes on, and what the event is for
the reader has happened. -/
theorem Sim.event {acct : Account F} {s : StreamState F} {a : Fragments.State String Int String}
    (h : Sim names acct s a) {e : StreamEvent F} (he : BodyEvent names e) (src : ChunkSource)
    (st : AdapterState) :
    ∃ chunks, eventChunks src st e = .ok chunks ∧ ∀ rest, ∃ s',
      streamLoop s (carrierChunks src st e ++ (chunks ++ rest)) = streamLoop s' rest ∧
      Sim names (acct.afterEvent e) s' (Fragments.run a (eventItem e).toList) := by
  cases htype : e.type with
  | error => exact absurd htype he.type.1
  | responseEnd => exact absurd htype he.type.2
  | textDelta =>
    refine ⟨_, by rw [eventChunks, eventFields, htype], fun rest => ?_⟩
    obtain ⟨s₁, hl₁, h₁⟩ := h.carriers src st e (_ ++ rest)
    obtain ⟨s₂, hc₂, h₂⟩ := h₁.textChunk src (st.yielded + (carrierChunks src st e).length) e.text
    refine ⟨s₂, hl₁.trans (streamLoop_next hc₂), ?_⟩
    have hitem : (eventItem e).toList
        = if nonEmpty e.text then [.text (e.text.getD "")] else [] := by
      rw [eventItem, htype]
      simp only
      split <;> rfl
    simpa [Account.afterEvent, htype, hitem] using h₂
  | toolCallDelta =>
    have hacct : acct.afterEvent e = acct := by simp [Account.afterEvent, htype]
    rw [hacct]
    rcases hd : e.toolCallDelta with _ | d
    · refine ⟨[], by rw [eventChunks, eventFields, htype]; simp only [hd], fun rest => ?_⟩
      obtain ⟨s₁, hl₁, h₁⟩ := h.carriers src st e rest
      exact ⟨s₁, hl₁, by simpa [eventItem, htype, hd] using h₁⟩
    · rcases hi : d.index with _ | i
      · refine ⟨[], by rw [eventChunks, eventFields, htype]; simp only [hd, hi], fun rest => ?_⟩
        obtain ⟨s₁, hl₁, h₁⟩ := h.carriers src st e rest
        exact ⟨s₁, hl₁, by simpa [eventItem, htype, hd, hi] using h₁⟩
      · refine ⟨_, by rw [eventChunks, eventFields, htype]; simp only [hd, hi]; rfl,
          fun rest => ?_⟩
        obtain ⟨s₁, hl₁, h₁⟩ := h.carriers src st e (_ ++ rest)
        obtain ⟨s₂, hc₂, h₂⟩ := h₁.toolCallChunk src
          (st.yielded + (carrierChunks src st e).length) (he.names htype d i hd hi)
        exact ⟨s₂, hl₁.trans (streamLoop_next hc₂), by simpa [eventItem, htype, hd, hi] using h₂⟩
  | usage =>
    refine ⟨_, by rw [eventChunks, eventFields, htype], fun rest => ?_⟩
    obtain ⟨s₁, hl₁, h₁⟩ := h.carriers src st e (_ ++ rest)
    obtain ⟨s₂, hc₂, h₂⟩ := h₁.usageChunk src (st.yielded + (carrierChunks src st e).length)
      e.usage e.costMicros
    exact ⟨s₂, hl₁.trans (streamLoop_next hc₂),
      by simpa [eventItem, Account.afterEvent, htype] using h₂⟩

/-! ## 2. The whole stream -/

/-- The adapter's state after some events. -/
def adapterAfter (src : ChunkSource) (st : AdapterState) : List (StreamEvent F) → AdapterState
  | [] => st
  | e :: es =>
      adapterAfter src
        { accumulatedToolCalls := accumulateKey st.accumulatedToolCalls e
          providerMetaCarried := st.providerMetaCarried || e.providerMeta.isSome
          yielded := st.yielded + (carrierChunks src st e).length
            + (match eventChunks src st e with
              | .ok chunks => chunks.length
              | .error _ => 0) } es

theorem adapterAfter_accumulated (src : ChunkSource) (st : AdapterState)
    (es : List (StreamEvent F)) :
    (adapterAfter src st es).accumulatedToolCalls
      = es.foldl accumulateKey st.accumulatedToolCalls := by
  induction es generalizing st with
  | nil => rfl
  | cons e es ih => rw [adapterAfter, ih]; rfl

/-- The body of a stream: every event is handled, and the loop stands
before the rest. -/
theorem Sim.events (src : ChunkSource) {es : List (StreamEvent F)}
    (hes : ∀ e ∈ es, BodyEvent names e) (tail : List (StreamEvent F)) :
    ∀ {acct : Account F} {s : StreamState F} {a : Fragments.State String Int String}
      (st : AdapterState), Sim names acct s a →
      ∃ s', streamLoop s (createStreamingCompletion src st (es ++ tail)).1
          = streamLoop s' (createStreamingCompletion src (adapterAfter src st es) tail).1 ∧
        Sim names (es.foldl Account.afterEvent acct) s'
          (Fragments.run a (es.filterMap eventItem)) := by
  induction es with
  | nil => exact fun st h => ⟨_, rfl, h⟩
  | cons e es ih =>
    intro acct s a st h
    obtain ⟨chunks, hchunks, hloop⟩ := h.event (hes e List.mem_cons_self) src st
    obtain ⟨s₁, hl₁, h₁⟩ := hloop (createStreamingCompletion src
      { accumulatedToolCalls := accumulateKey st.accumulatedToolCalls e
        providerMetaCarried := st.providerMetaCarried || e.providerMeta.isSome
        yielded := st.yielded + (carrierChunks src st e).length + chunks.length } (es ++ tail)).1
    obtain ⟨s₂, hl₂, h₂⟩ := ih (fun e he => hes e (List.mem_cons_of_mem _ he)) _ h₁
    refine ⟨s₂, ?_, ?_⟩
    · rw [List.cons_append, createStreamingCompletion, hchunks]
      simp only [List.append_assoc]
      rw [hl₁, hl₂, adapterAfter, hchunks]
    · have hitems : (e :: es).filterMap eventItem
          = (eventItem e).toList ++ es.filterMap eventItem := by
        cases hi : eventItem e <;> simp [hi]
      rw [hitems, Fragments.run_append]
      exact h₂

/-- The stop reason an optional final event asks for. -/
def endReason (acc : List Int) : Option (StreamEvent F) → Option String
  | some e => some (stopReasonMap (F := F) (.str (finishReasonOr e.finishReason (!acc.isEmpty))))
  | none => none

theorem finishReasonOr_ne (r : Option String) (b : Bool) : finishReasonOr r b ≠ "" := by
  unfold finishReasonOr
  split
  · rename_i h
    cases r with
    | none => cases h
    | some r => simpa [nonEmpty] using h
  · split <;> simp

/-- The final event, if there is one, sets the stop reason and ends the
loop. -/
theorem Sim.final {acct : Account F} {s : StreamState F}
    {a : Fragments.State String Int String} (h : Sim names acct s a) (src : ChunkSource)
    (st : AdapterState) (fin : Option (StreamEvent F))
    (hfin : ∀ e ∈ fin, e.type = .responseEnd) :
    ∃ s', Sim names acct s' a ∧
      streamLoop s (createStreamingCompletion src st fin.toList).1
        = .ok ({ s' with finalStopReason := endReason st.accumulatedToolCalls fin }, false) := by
  cases fin with
  | none =>
    refine ⟨s, h, ?_⟩
    have := h.account.2.2
    simp only [Option.toList_none, createStreamingCompletion, streamLoop, endReason, ← this]
    rfl
  | some e =>
    have htype := hfin e rfl
    have hacc : accumulateKey st.accumulatedToolCalls e = st.accumulatedToolCalls := by
      simp [accumulateKey, htype]
    have hchunks : eventChunks src st e = .ok [completionChunk src
        (st.yielded + (carrierChunks src st e).length) (oneChoice []
          (.str (finishReasonOr e.finishReason (!st.accumulatedToolCalls.isEmpty))))] := by
      rw [eventChunks, hacc, eventFields, htype]
    obtain ⟨s₁, hl₁, h₁⟩ := h.carriers src st e [completionChunk src
        (st.yielded + (carrierChunks src st e).length) (oneChoice []
          (.str (finishReasonOr e.finishReason (!st.accumulatedToolCalls.isEmpty))))]
    refine ⟨_, h₁.counted (s₁.chunkCount + 1), ?_⟩
    simp only [Option.toList_some, createStreamingCompletion, hchunks, List.append_nil]
    rw [hl₁, streamLoop, processChunk_oneChoice]
    have hne := finishReasonOr_ne e.finishReason (!st.accumulatedToolCalls.isEmpty)
    simp [processToolCalls, processContent, processFinishReason, Json.get, getD, hne, key?,
      orRaise, endReason, bind, Except.bind, pure, Except.pure]

/-- Closing at the end closes what the relation says is open. -/
theorem Sim.closeBlocks {acct : Account F} {s : StreamState F}
    {a : Fragments.State String Int String} (h : Sim names acct s a) (reason : Option String) :
    (receive (closeBlocks { s with finalStopReason := reason }).out).blocks
        = numbered 0 (a.blocks.map names.render) ∧
      (receive (Proxy.closeBlocks { s with finalStopReason := reason }).out).usage = acct.2 := by
  obtain ⟨done, cur⟩ := a
  cases cur with
  | text ts =>
    replace h : TextSim names acct s (done.map names.render) (String.join ts) := h
    rw [Proxy.closeBlocks, if_pos ⟨h.cur, h.text⟩]
    simp [StreamState.yield, ClientMessage.step, h.blocks, h.shown, Fragments.State.blocks,
      Fragments.Group.blocks, CallNames.render]
  | calls cs =>
    replace h : ToolSim names acct s (done.map names.render) cs := h
    rw [Proxy.closeBlocks, if_neg (by simp [h.text])]
    have hmap : (Fragments.State.blocks ⟨done, .calls cs⟩).map (names.render (F := F))
        = done.map names.render ++ cs.map names.block := by
      simp [Fragments.State.blocks, Fragments.Group.blocks, CallNames.render, Function.comp_def]
    rw [hmap]
    cases cs with
    | nil =>
      rw [if_neg (by simp [h.cur])]
      have hblocks := h.blocks
      simp only [List.map_nil, List.append_nil] at hblocks ⊢
      exact ⟨hblocks, h.shown⟩
    | cons c cs =>
      rw [if_pos (by simp [h.cur])]
      obtain ⟨m, hm, hblocks, husage⟩ :=
        closeTools_receive (c :: cs) (receive s.out) (done.map names.render) h.blocks
      rw [← h.toBufferSim.sortedTools] at hm
      have hrec : receive (s.out ++ buildToolBlockCloseEvents s.toolCallsBuffer) = m := by
        rw [receive_append]; exact hm
      simp only [StreamState.yieldAll, hrec]
      exact ⟨hblocks, husage.trans h.shown⟩

/-- The account at the end of a stream with some events. -/
def accountOf (es : List (StreamEvent F)) : Account F := es.foldl Account.afterEvent ({}, {})

theorem Account.numeric_afterEvent {acct : Account F} (h : acct.1.Numeric) (e : StreamEvent F) :
    (acct.afterEvent e).1.Numeric := by
  have hint : ∀ n : Int, (.int n : Json F).gtZero?.isSome = true := fun n => by simp [gtZero?]
  have hwhen : ∀ {acct : Account F} (n : Int) (f : Account F → Account F), acct.1.Numeric →
      (acct.1.Numeric → (f acct).1.Numeric) → (acct.when n f).1.Numeric := by
    intro acct n f ha hf
    unfold Account.when
    split
    · exact hf ha
    · exact ha
  unfold Account.afterEvent
  split
  · have h₁ := hwhen (tokenCount e.usage "cached_tokens")
      (fun acct => ({ acct.1 with cachedTokens := .int (tokenCount e.usage "cached_tokens") },
        acct.2)) h fun h => h
    have h₂ := hwhen (tokenCount e.usage "cache_write_tokens")
      (fun acct => ({ acct.1 with
        cacheWriteTokens := .int (tokenCount e.usage "cache_write_tokens") }, acct.2)) h₁ fun h => h
    have h₃ := hwhen (tokenCount e.usage "prompt_tokens")
      (Account.reportInput (tokenCount e.usage "prompt_tokens") (tokenCount e.usage "cached_tokens")
        (tokenCount e.usage "cache_write_tokens")) h₂ fun h => by
      unfold Account.reportInput
      split
      · exact ⟨hint _, h.2⟩
      · exact h
    have h₄ := hwhen (tokenCount e.usage "completion_tokens")
      (fun acct => ({ acct.1 with outputTokens := .int (tokenCount e.usage "completion_tokens") },
        acct.2)) h₃ fun h => ⟨h.1, hint _⟩
    unfold Account.afterUsage Account.setCost
    cases e.costMicros <;> exact h₄
  · exact h

theorem accountOf_numeric (es : List (StreamEvent F)) : (accountOf es).1.Numeric := by
  have key : ∀ (es : List (StreamEvent F)) (acct : Account F), acct.1.Numeric →
      (es.foldl Account.afterEvent acct).1.Numeric := by
    intro es
    induction es with
    | nil => exact fun acct h => h
    | cons e es ih => exact fun acct h => ih _ (Account.numeric_afterEvent h e)
  exact key es _ (by simp [FinalUsage.Numeric, gtZero?])

theorem finalDeltaUsage_congr {s s' : StreamState F} {usage : Option (EventUsage F)}
    (h : finalDeltaUsage s = .ok usage) (hu : s'.finalUsage = s.finalUsage) :
    finalDeltaUsage s' = .ok usage := by
  unfold finalDeltaUsage at h ⊢
  rw [hu]
  cases hi : s.finalUsage.inputTokens.gtZero? with
  | none => simp [hi, orRaise, bind, Except.bind] at h
  | some a =>
    cases ho : s.finalUsage.outputTokens.gtZero? with
    | none => simp [hi, ho, orRaise, bind, Except.bind] at h
    | some b =>
      simp only [hi, ho, orRaise, bind, Except.bind] at h ⊢
      exact h

/-- The end of the stream when the final usage can be computed. -/
theorem endOfStream_eq {s : StreamState F} {reason : Option String}
    {usage : Option (EventUsage F)}
    (h : finalDeltaUsage { closeBlocks { s with finalStopReason := reason } with
      finalStopReason := some (reason.getD "end_turn") } = .ok usage) :
    endOfStream { s with finalStopReason := reason }
      = .ok (StreamState.yieldAll { closeBlocks { s with finalStopReason := reason } with
          finalStopReason := some (reason.getD "end_turn") }
        [.messageDelta (some (reason.getD "end_turn")) usage, .messageStop]) := by
  have hreason : (closeBlocks { s with finalStopReason := reason }).finalStopReason = reason := by
    unfold closeBlocks
    split
    · rfl
    · split <;> rfl
  rw [endOfStream, hreason]
  simp only [h, bind, Except.bind]
  rfl

/-- **What a client receives.** For any events of a stream and an optional
`response_end`, the blocks are those of the one-pass reader, the stop
reason is the mapped finish reason, and the usage is the account's unless
the final `message_delta` overwrites it. -/
theorem receive_stream (messageId model : String) (src : ChunkSource)
    {es : List (StreamEvent F)} (hes : ∀ e ∈ es, BodyEvent names e)
    {fin : Option (StreamEvent F)} (hfin : ∀ e ∈ fin, e.type = .responseEnd) :
    ∃ usage, finalDeltaUsage { finalUsage := (accountOf es).1 } = .ok usage ∧
      receive (convertOpenaiToAnthropicSse messageId model
        (createStreamingCompletion src {} (es ++ fin.toList)).1).events
      = { blocks := numbered 0 ((Fragments.run {} (es.filterMap eventItem)).blocks.map names.render)
          stopReason := some ((endReason (es.foldl accumulateKey []) fin).getD "end_turn")
          usage := match usage with
            | some u => (accountOf es).2.update u
            | none => (accountOf es).2 } := by
  obtain ⟨s₁, hl₁, h₁⟩ := Sim.events src hes fin.toList {} Sim.init
  obtain ⟨s₂, h₂, hl₂⟩ := h₁.final src (adapterAfter src {} es) fin hfin
  rw [adapterAfter_accumulated] at hl₂
  obtain ⟨hblocks, hshown⟩ := h₂.closeBlocks (endReason (es.foldl accumulateKey []) fin)
  obtain ⟨usage, hu⟩ := finalDeltaUsage_ok (s := { finalUsage := (accountOf es).1 })
    (accountOf_numeric es)
  refine ⟨usage, hu, ?_⟩
  have hu' : finalDeltaUsage { closeBlocks { s₂ with
      finalStopReason := endReason (es.foldl accumulateKey []) fin } with
        finalStopReason := some ((endReason (es.foldl accumulateKey []) fin).getD "end_turn") }
      = .ok usage := by
    refine finalDeltaUsage_congr hu ?_
    rw [closeBlocks_finalUsage]
    exact h₂.account.1
  have hend := endOfStream_eq hu'
  simp only [convertOpenaiToAnthropicSse, hl₁.trans hl₂, hend, SseResult.of, List.append_nil,
    receive_start]
  simp only [StreamState.yieldAll, receive_append, List.foldl_cons, List.foldl_nil,
    ClientMessage.step, hblocks, hshown, Option.some_or]
  rfl

end MultiForge.Proxy
