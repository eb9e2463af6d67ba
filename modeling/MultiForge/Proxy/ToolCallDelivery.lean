/-
MultiForge.Proxy.ToolCallDelivery — streamed tool calls against the
accumulator.

`ToolCallAccumulator` merges the fragments of an index wherever they
stand; the converter needs the id and the name in one fragment, drops
argument text that comes before it, and forgets a call at the next text.
The texts always agree. The calls agree exactly when every call is opened
once and no argument text lies outside the group it was opened in
(`DeliveredWhole`).
-/
import Mathlib.Data.List.Induction
import MultiForge.Proxy.StreamReceive
import MultiForge.Proxy.ToolCallAccumulator

set_option linter.unusedSectionVars false

namespace MultiForge.Proxy

open Json

variable {F : Type} [DecidableEq F] [PyFloatText F]

/-! ## 1. What is compared -/

/-- The deltas a stream carries. -/
def toolCallDeltas (es : List (StreamEvent F)) : List ToolCallDelta :=
  es.filterMap fun e => if e.type = .toolCallDelta then e.toolCallDelta else none

/-- The text deltas of a stream, one after the other. -/
def streamText (es : List (StreamEvent F)) : String :=
  String.join (es.filterMap fun e => if e.type = .textDelta then e.text else none)

def ClientMessage.toolUses (m : ClientMessage F) : List (ClientBlock F) :=
  m.blocks.filterMap fun b =>
    match b.2 with
    | .text _ => none
    | .toolUse id name json => some (.toolUse id name json)

def ClientMessage.text (m : ClientMessage F) : String :=
  String.join (m.blocks.filterMap fun b =>
    match b.2 with
    | .text t => some t
    | .toolUse _ _ _ => none)

/-- The block a client should receive for a call. -/
def AccumulatedCall.block (c : AccumulatedCall) : ClientBlock F :=
  .toolUse (.str c.id) (.str c.name)
    (sanitizeToolArgumentsJson (F := F) (.str c.name) c.argumentsJson)

/-- The blocks of a message are the calls the accumulator builds from the
same events, and its text is the text of the events. -/
structure CallsDelivered (m : ClientMessage F) (es : List (StreamEvent F)) : Prop where
  calls : m.toolUses.Perm
    ((completeCalls (accumulate (toolCallDeltas es))).map AccumulatedCall.block)
  text : m.text = streamText es

/-- The streams the comparison is about: the fragments of one call share
an index, fragments with one index agree on the id and on the name, and
every call carries its id and its name somewhere. -/
structure WellIndexed (names : CallNames) (es : List (StreamEvent F)) : Prop where
  body : ∀ e ∈ es, e.type ≠ .error ∧ e.type ≠ .responseEnd
  agree : ∀ d ∈ toolCallDeltas es, ∀ i, d.index = some i → Names names i d
  complete : ∀ d ∈ toolCallDeltas es, ∀ i, d.index = some i →
    (∃ d' ∈ toolCallDeltas es, d'.index = some i ∧ nonEmpty d'.id) ∧
    (∃ d' ∈ toolCallDeltas es, d'.index = some i ∧ nonEmpty d'.name)

/-- Two indices have two ids. -/
def DistinctIds (names : CallNames) (es : List (StreamEvent F)) : Prop :=
  ∀ d ∈ toolCallDeltas es, ∀ d' ∈ toolCallDeltas es, ∀ i j, d.index = some i →
    d'.index = some j → names.id i = names.id j → i = j

/-- When a call arrives whole. It is opened once: some fragment carries
both the id and the name, and none does after the first text that follows
it. And its arguments are in between: no argument text comes before the
first such fragment or after that text (for a `Read`, whose arguments are
rewritten, none that makes a difference to the rewritten arguments). -/
structure DeliveredWhole (names : CallNames) (items : List (Fragments.Item String Int String))
    (F : Type) [DecidableEq F] [PyFloatText F] (i : Int) : Prop where
  once : Fragments.OpensOnce i items
  arguments :
    if names.name i = "Read" then
      sanitizeToolArgumentsJson (F := F) (.str "Read")
          (String.join (Fragments.payloads i (Fragments.window i items)))
        = sanitizeToolArgumentsJson (F := F) (.str "Read")
          (String.join (Fragments.payloads i items))
    else
      (∀ p ∈ Fragments.payloads i (Fragments.before i items), p = "") ∧
      (∀ p ∈ Fragments.payloads i (Fragments.after i items), p = "")

/-! ## 2. The accumulator -/

/-- The entry of an index. -/
def pendingAt (i : Int) : PendingCalls → Option ToolCallDelta
  | [] => none
  | (j, d) :: rest => if j = i then some d else pendingAt i rest

theorem pendingAt_mergeInto (i j : Int) (d : ToolCallDelta) : ∀ pending : PendingCalls,
    pendingAt i (mergeInto j d pending)
      = if j = i then some (mergeDelta ((pendingAt i pending).getD { index := some j }) d)
        else pendingAt i pending
  | [] => by simp [mergeInto, pendingAt]
  | (k, e) :: rest => by
      have ih := pendingAt_mergeInto i j d rest
      by_cases hk : k = j
      · subst hk
        by_cases hi : k = i <;> simp [mergeInto, pendingAt, hi]
      · by_cases hi : k = i
        · subst hi
          have hj : ¬ j = k := fun e => hk e.symm
          simp [mergeInto, pendingAt, hk, hj]
        · simp [mergeInto, pendingAt, hk, hi, ih]

theorem mergeInto_keys (j : Int) (d : ToolCallDelta) : ∀ pending : PendingCalls,
    (mergeInto j d pending).map Prod.fst
      = if j ∈ pending.map Prod.fst then pending.map Prod.fst else pending.map Prod.fst ++ [j]
  | [] => by simp [mergeInto]
  | (k, e) :: rest => by
      have ih := mergeInto_keys j d rest
      by_cases hk : k = j
      · simp [mergeInto, hk]
      · have hj : ¬ j = k := fun e => hk e.symm
        simp only [mergeInto, hk, if_false, List.map_cons, ih, List.mem_cons, hj, false_or]
        split <;> rfl

/-- The deltas of one index. -/
def deltasAt (i : Int) (ds : List ToolCallDelta) : List ToolCallDelta :=
  ds.filter fun d => d.index = some i

theorem addDelta_keys_nodup {pending : PendingCalls} (h : (pending.map Prod.fst).Nodup)
    (d : ToolCallDelta) : ((addDelta pending d).map Prod.fst).Nodup := by
  unfold addDelta
  split
  · exact h
  · rename_i j hj
    rw [mergeInto_keys]
    split
    · exact h
    · rename_i hnot
      rw [List.nodup_append]
      refine ⟨h, by simp, fun a ha b hb e => hnot ?_⟩
      rw [List.mem_singleton.mp hb] at e
      exact e ▸ ha

/-- What the accumulator holds for an index: the deltas of that index
merged in order. -/
theorem accumulate_spec (ds : List ToolCallDelta) :
    ((accumulate ds).map Prod.fst).Nodup ∧
    ∀ i, pendingAt i (accumulate ds)
      = if deltasAt i ds = [] then none
        else some ((deltasAt i ds).foldl mergeDelta { index := some i }) := by
  induction ds using List.reverseRecOn with
  | nil => simp [accumulate, pendingAt, deltasAt]
  | append_singleton ds d ih =>
    obtain ⟨hnd, hat⟩ := ih
    have hstep : accumulate (ds ++ [d]) = addDelta (accumulate ds) d := by
      simp [accumulate]
    rw [hstep]
    refine ⟨addDelta_keys_nodup hnd d, fun i => ?_⟩
    have happ : deltasAt i (ds ++ [d])
        = deltasAt i ds ++ if d.index = some i then [d] else [] := by
      simp only [deltasAt, List.filter_append, List.filter_cons, List.filter_nil]
      split <;> simp_all
    rw [happ]
    unfold addDelta
    cases hd : d.index with
    | none => simpa [hd] using hat i
    | some j =>
      simp only
      rw [pendingAt_mergeInto, hat i]
      by_cases hji : j = i
      · subst hji
        by_cases hnil : deltasAt j ds = []
        · simp [hnil]
        · simp [hnil, List.foldl_append]
      · have hne : ¬ (some j = some i) := fun e => hji (Option.some.inj e)
        simp [hji]

theorem pendingAt_eq_some {i : Int} {d : ToolCallDelta} : ∀ {pending : PendingCalls},
    (pending.map Prod.fst).Nodup → (i, d) ∈ pending → pendingAt i pending = some d
  | [], _, h => by simp at h
  | (j, e) :: rest, hnd, h => by
      have hnd' := List.nodup_cons.mp hnd
      rcases List.mem_cons.mp h with h | h
      · cases h; simp [pendingAt]
      · have hne : ¬ j = i := by
          rintro rfl
          exact hnd'.1 (List.mem_map.mpr ⟨_, h, rfl⟩)
        rw [pendingAt, if_neg hne]
        exact pendingAt_eq_some hnd'.2 h

theorem mem_keys_iff {i : Int} : ∀ {pending : PendingCalls},
    i ∈ pending.map Prod.fst ↔ (pendingAt i pending).isSome = true
  | [] => by simp [pendingAt]
  | (j, e) :: rest => by
      have ih := @mem_keys_iff i rest
      by_cases hj : j = i
      · simp [pendingAt, hj]
      · have hne : ¬ i = j := fun e => hj e.symm
        rw [pendingAt, if_neg hj, ← ih, List.map_cons, List.mem_cons, or_iff_right hne]

theorem mem_accumulate_keys {ds : List ToolCallDelta} {i : Int} :
    i ∈ (accumulate ds).map Prod.fst ↔ ∃ d ∈ ds, d.index = some i := by
  rw [mem_keys_iff, (accumulate_spec ds).2]
  have hnil : deltasAt i ds = [] ↔ ¬ ∃ d ∈ ds, d.index = some i := by
    simp [deltasAt, List.filter_eq_nil_iff]
  by_cases h : ∃ d ∈ ds, d.index = some i
  · have hne : ¬ deltasAt i ds = [] := fun e => hnil.mp e h
    rw [if_neg hne]
    exact iff_of_true rfl h
  · rw [if_pos (hnil.mpr h)]
    exact iff_of_false (by simp) h

theorem foldl_mergeDelta_arguments (ds : List ToolCallDelta) (d : ToolCallDelta) :
    (ds.foldl mergeDelta d).argumentsJson
      = d.argumentsJson ++ String.join (ds.map ToolCallDelta.argumentsJson) := by
  induction ds generalizing d with
  | nil => simp
  | cons e ds ih => rw [List.foldl_cons, ih]; simp [mergeDelta, String.append_assoc]

/-- Deltas that agree on the id, or on the name, give it to the merged
delta once one of them has it. -/
theorem foldl_mergeDelta_field {field : ToolCallDelta → Option String}
    (hfield : ∀ d e, field (mergeDelta d e) = if nonEmpty (field e) then field e else field d)
    {x : String} : ∀ {ds : List ToolCallDelta} {d : ToolCallDelta},
    (∀ e ∈ ds, nonEmpty (field e) → field e = some x) →
    (field d = some x ∨ ∃ e ∈ ds, nonEmpty (field e)) →
    field (ds.foldl mergeDelta d) = some x
  | [], d, _, h => by simpa using h
  | e :: ds, d, hall, h => by
      rw [List.foldl_cons]
      refine foldl_mergeDelta_field hfield (fun e' he' => hall e' (List.mem_cons_of_mem _ he')) ?_
      rw [hfield]
      cases he : nonEmpty (field e) with
      | true => exact Or.inl (hall e List.mem_cons_self he)
      | false =>
        rcases h with h | ⟨e', he', hne'⟩
        · exact Or.inl h
        · rcases List.mem_cons.mp he' with rfl | he'
          · rw [he] at hne'; cases hne'
          · exact Or.inr ⟨e', he', hne'⟩

/-- Every call of a well-indexed stream is complete, with the argument
text of its fragments. -/
theorem WellIndexed.completeCall {names : CallNames} {es : List (StreamEvent F)}
    (h : WellIndexed names es) {i : Int} {d : ToolCallDelta}
    (hmem : (i, d) ∈ accumulate (toolCallDeltas es)) :
    completeCall (i, d) = some ⟨names.id i, names.name i,
      String.join ((deltasAt i (toolCallDeltas es)).map ToolCallDelta.argumentsJson)⟩ := by
  obtain ⟨hnd, hat⟩ := accumulate_spec (toolCallDeltas es)
  have hi := pendingAt_eq_some hnd hmem
  obtain ⟨d₀, hd₀, hi₀⟩ := mem_accumulate_keys.mp (List.mem_map.mpr ⟨_, hmem, rfl⟩)
  obtain ⟨⟨d₁, hd₁, hi₁, hid⟩, ⟨d₂, hd₂, hi₂, hname⟩⟩ := h.complete d₀ hd₀ i hi₀
  have hat_mem : ∀ d ∈ toolCallDeltas es, d.index = some i → d ∈ deltasAt i (toolCallDeltas es) :=
    fun d hd hdi => List.mem_filter.mpr ⟨hd, by simpa using hdi⟩
  have hagree : ∀ d ∈ deltasAt i (toolCallDeltas es), Names names i d := fun d hd =>
    h.agree d (List.mem_filter.mp hd).1 i (by simpa using (List.mem_filter.mp hd).2)
  rw [hat, if_neg (List.ne_nil_of_mem (hat_mem d₀ hd₀ hi₀)), Option.some.injEq] at hi
  have hdid : d.id = some (names.id i) := by
    rw [← hi]
    exact foldl_mergeDelta_field (fun _ _ => rfl) (fun e he => (hagree e he).id)
      (Or.inr ⟨d₁, hat_mem d₁ hd₁ hi₁, hid⟩)
  have hdname : d.name = some (names.name i) := by
    rw [← hi]
    exact foldl_mergeDelta_field (fun _ _ => rfl) (fun e he => (hagree e he).name)
      (Or.inr ⟨d₂, hat_mem d₂ hd₂ hi₂, hname⟩)
  have hargs : d.argumentsJson
      = String.join ((deltasAt i (toolCallDeltas es)).map ToolCallDelta.argumentsJson) := by
    rw [← hi, foldl_mergeDelta_arguments]
    simp
  have hne : names.id i ≠ "" := by
    have := (h.agree d₁ hd₁ i hi₁).id hid
    simpa [this, nonEmpty] using hid
  have hne' : names.name i ≠ "" := by
    have := (h.agree d₂ hd₂ i hi₂).name hname
    simpa [this, nonEmpty] using hname
  simp [Proxy.completeCall, hdid, hdname, hargs, hne, hne']

/-- The calls of a well-indexed stream, one for each index. -/
theorem WellIndexed.completeCalls_perm {names : CallNames} {es : List (StreamEvent F)}
    (h : WellIndexed names es) :
    (completeCalls (accumulate (toolCallDeltas es))).Perm
      (((accumulate (toolCallDeltas es)).map Prod.fst).map fun i =>
        ⟨names.id i, names.name i,
          String.join ((deltasAt i (toolCallDeltas es)).map ToolCallDelta.argumentsJson)⟩) := by
  have hperm : (sortedPending (accumulate (toolCallDeltas es))).Perm
      (accumulate (toolCallDeltas es)) := List.perm_insertionSort _ _
  refine (hperm.filterMap Proxy.completeCall).trans ?_
  rw [List.map_map]
  have hall : ∀ kd ∈ accumulate (toolCallDeltas es), Proxy.completeCall kd
      = some (⟨names.id kd.1, names.name kd.1, String.join
        ((deltasAt kd.1 (toolCallDeltas es)).map ToolCallDelta.argumentsJson)⟩) :=
    fun kd hkd => h.completeCall hkd
  rw [List.filterMap_congr hall]
  simp [List.filterMap_eq_map', Function.comp_def]

/-! ## 3. The stream -/

theorem filterMap_deltas (i : Int) (es : List (StreamEvent F)) :
    Fragments.payloads i (es.filterMap eventItem)
      = (deltasAt i (toolCallDeltas es)).map ToolCallDelta.argumentsJson := by
  induction es with
  | nil => rfl
  | cons e es ih =>
    simp only [Fragments.payloads, deltasAt, toolCallDeltas] at ih
    cases htype : e.type with
    | toolCallDelta =>
      rcases hd : e.toolCallDelta with _ | d
      · simpa [Fragments.payloads, deltasAt, toolCallDeltas, eventItem, htype, hd] using ih
      · rcases hi : d.index with _ | j
        · simpa [Fragments.payloads, deltasAt, toolCallDeltas, eventItem, htype, hd, hi] using ih
        · by_cases hj : j = i
          · simpa [Fragments.payloads, deltasAt, toolCallDeltas, eventItem, htype, hd, hi, hj]
              using ih
          · simpa [Fragments.payloads, deltasAt, toolCallDeltas, eventItem, htype, hd, hi, hj]
              using ih
    | textDelta =>
      by_cases ht : nonEmpty e.text
      · simpa [Fragments.payloads, deltasAt, toolCallDeltas, eventItem, htype, ht] using ih
      · simpa [Fragments.payloads, deltasAt, toolCallDeltas, eventItem, htype, ht] using ih
    | usage => simpa [Fragments.payloads, deltasAt, toolCallDeltas, eventItem, htype] using ih
    | responseEnd => simpa [Fragments.payloads, deltasAt, toolCallDeltas, eventItem, htype] using ih
    | error => simpa [Fragments.payloads, deltasAt, toolCallDeltas, eventItem, htype] using ih

/-- A fragment that opens a call is one of its deltas. -/
theorem exists_delta_of_opens {i : Int} {es : List (StreamEvent F)}
    {x : Fragments.Item String Int String} (hx : x ∈ es.filterMap eventItem)
    (hopens : x.opens i = true) : ∃ d ∈ toolCallDeltas es, d.index = some i := by
  obtain ⟨e, he, hex⟩ := List.mem_filterMap.mp hx
  obtain ⟨p, rfl⟩ := Fragments.Item.eq_of_opens hopens
  cases htype : e.type with
  | toolCallDelta =>
    rcases hd : e.toolCallDelta with _ | d
    · simp [eventItem, htype, hd] at hex
    · rcases hi : d.index with _ | j
      · simp [eventItem, htype, hd, hi] at hex
      · simp only [eventItem, htype, hd, hi, Option.bind_some, Option.map_some,
          Option.some.injEq, Fragments.Item.frag.injEq] at hex
        refine ⟨d, List.mem_filterMap.mpr ⟨e, he, by simp [htype, hd]⟩, ?_⟩
        rw [hi, hex.1]
  | textDelta =>
    simp only [eventItem, htype] at hex
    split at hex <;> cases hex
  | usage => simp [eventItem, htype] at hex
  | responseEnd => simp [eventItem, htype] at hex
  | error => simp [eventItem, htype] at hex

theorem streamText_eq (es : List (StreamEvent F)) :
    String.join ((es.filterMap eventItem).filterMap Fragments.Item.text?) = streamText es := by
  unfold streamText
  induction es with
  | nil => rfl
  | cons e es ih =>
    cases htype : e.type with
    | textDelta =>
      cases htext : e.text with
      | none => simpa [eventItem, htype, htext, nonEmpty] using ih
      | some t =>
        by_cases ht : t = ""
        · simpa [eventItem, htype, htext, ht, nonEmpty] using ih
        · simpa [eventItem, htype, htext, ht, nonEmpty, Fragments.Item.text?] using ih
    | toolCallDelta =>
      rcases hd : e.toolCallDelta with _ | d
      · simpa [eventItem, htype, hd] using ih
      · rcases hi : d.index with _ | j
        · simpa [eventItem, htype, hd, hi] using ih
        · have hnone : (Fragments.Item.frag (τ := String) j d.opens d.argumentsJson).text? = none :=
            rfl
          simpa [eventItem, htype, hd, hi, List.filterMap_cons_none hnone] using ih
    | usage => simpa [eventItem, htype] using ih
    | responseEnd => simpa [eventItem, htype] using ih
    | error => simpa [eventItem, htype] using ih

variable {names : CallNames}

theorem toolUses_of_blocks {m : ClientMessage F} {blocks : List (Fragments.Block String Int String)}
    (h : m.blocks = numbered 0 (blocks.map names.render)) :
    m.toolUses = (Fragments.calls blocks).map names.block := by
  have key : ∀ (blocks : List (Fragments.Block String Int String)) (n : Nat),
      ((numbered n (blocks.map (names.render (F := F)))).filterMap fun b =>
        match b.2 with
        | .text _ => none
        | .toolUse id name json => some (.toolUse id name json))
      = (Fragments.calls blocks).map names.block := by
    intro blocks
    induction blocks with
    | nil => exact fun _ => rfl
    | cons b blocks ih =>
      intro n
      have ih := ih (n + 1)
      simp only [Fragments.calls] at ih
      cases b with
      | text ts => simpa [numbered, CallNames.render, Fragments.calls] using ih
      | call i ps => simpa [numbered, CallNames.render, CallNames.block, Fragments.calls] using ih
  rw [ClientMessage.toolUses, h]
  exact key blocks 0

theorem text_of_blocks {m : ClientMessage F} {blocks : List (Fragments.Block String Int String)}
    (h : m.blocks = numbered 0 (blocks.map names.render)) :
    m.text = String.join (blocks.flatMap Fragments.Block.texts) := by
  have key : ∀ (blocks : List (Fragments.Block String Int String)) (n : Nat),
      String.join ((numbered n (blocks.map (names.render (F := F)))).filterMap fun b =>
        match b.2 with
        | .text t => some t
        | .toolUse _ _ _ => none)
      = String.join (blocks.flatMap Fragments.Block.texts) := by
    intro blocks
    induction blocks with
    | nil => exact fun _ => rfl
    | cons b blocks ih =>
      intro n
      have ih := ih (n + 1)
      cases b with
      | text ts => simpa [numbered, CallNames.render, Fragments.Block.texts] using ih
      | call i ps =>
        simpa [numbered, CallNames.render, CallNames.block, Fragments.Block.texts] using ih
  rw [ClientMessage.text, h]
  exact key blocks 0

/-! ## 4. One call -/

/-- For one call: exactly one block, with the right arguments. -/
theorem deliveredWhole_iff {items : List (Fragments.Item String Int String)} {i : Int} :
    DeliveredWhole names items F i ↔
      ∃ ps, Fragments.parts i (Fragments.run {} items).blocks = [ps] ∧
        sanitizeToolArgumentsJson (F := F) (.str (names.name i)) (String.join ps)
          = sanitizeToolArgumentsJson (F := F) (.str (names.name i))
              (String.join (Fragments.payloads i items)) := by
  have hsplit : Fragments.payloads i items = Fragments.payloads i (Fragments.before i items)
      ++ (Fragments.payloads i (Fragments.window i items)
        ++ Fragments.payloads i (Fragments.after i items)) := by
    conv_lhs => rw [← Fragments.before_window_after i items]
    rw [Fragments.payloads_append, Fragments.payloads_append]
  have hempty : ∀ ps : List String, (∀ p ∈ ps, p = "") ↔ String.join ps = "" := by
    intro ps
    induction ps with
    | nil => simp
    | cons p ps ih => simp [← ih]
  constructor
  · rintro ⟨honce, hargs⟩
    refine ⟨_, (Fragments.parts_run_iff i items _).mpr ⟨honce, rfl⟩, ?_⟩
    split at hargs
    · rename_i hread
      rw [hread]
      exact hargs
    · rw [hsplit, String.join_append, String.join_append, (hempty _).mp hargs.1,
        (hempty _).mp hargs.2]
      simp
  · rintro ⟨ps, hparts, hargs⟩
    obtain ⟨honce, rfl⟩ := (Fragments.parts_run_iff i items ps).mp hparts
    refine ⟨honce, ?_⟩
    split
    · rename_i hread
      rwa [hread] at hargs
    · rename_i hread
      rw [sanitize_other hread, sanitize_other hread, hsplit, String.join_append,
        String.join_append] at hargs
      have hlen := congrArg String.length hargs
      simp only [String.length_append] at hlen
      rw [hempty, hempty]
      exact ⟨String.length_eq_zero_iff.mp (by omega), String.length_eq_zero_iff.mp (by omega)⟩

/-! ## 5. The whole stream -/

theorem WellIndexed.bodyEvent {es : List (StreamEvent F)} (h : WellIndexed names es) :
    ∀ e ∈ es, BodyEvent names e := by
  intro e he
  refine ⟨h.body e he, fun htype d i hd hi => h.agree d ?_ i hi⟩
  exact List.mem_filterMap.mpr ⟨e, he, by simp [htype, hd]⟩

/-- The tag of a block: its id. -/
def ClientBlock.idTag : ClientBlock F → Json F
  | .text _ => .null
  | .toolUse id _ _ => id

/-- The block a client should receive for an index. -/
def expectedBlock (names : CallNames) (items : List (Fragments.Item String Int String))
    (i : Int) : ClientBlock F :=
  .toolUse (.str (names.id i)) (.str (names.name i))
    (sanitizeToolArgumentsJson (F := F) (.str (names.name i))
      (String.join (Fragments.payloads i items)))

/-- The blocks of the accumulator's calls, one for each index. -/
theorem WellIndexed.expected_perm {es : List (StreamEvent F)} (h : WellIndexed names es) :
    ((completeCalls (accumulate (toolCallDeltas es))).map (AccumulatedCall.block (F := F))).Perm
      (((accumulate (toolCallDeltas es)).map Prod.fst).map
        (expectedBlock names (es.filterMap eventItem))) := by
  refine (h.completeCalls_perm.map AccumulatedCall.block).trans ?_
  rw [List.map_map]
  refine .of_eq (List.map_congr_left fun i _ => ?_)
  simp [AccumulatedCall.block, expectedBlock, filterMap_deltas]

/-- A call is delivered whole when its one block is the expected one. -/
theorem deliveredWhole_iff_block {items : List (Fragments.Item String Int String)} {i : Int} :
    DeliveredWhole names items F i ↔
      ∃ ps, ((Fragments.calls (Fragments.run {} items).blocks).filter fun c => c.1 = i) = [(i, ps)] ∧
        names.block (F := F) (i, ps) = expectedBlock names items i := by
  rw [deliveredWhole_iff]
  refine exists_congr fun ps => and_congr ?_ (by simp [CallNames.block, expectedBlock])
  rw [Fragments.parts_eq_calls]
  constructor
  · intro hps
    obtain ⟨⟨j, qs⟩, hc, rfl⟩ := List.map_eq_singleton_iff.mp hps
    have hmem : (j, qs) ∈ (Fragments.calls (Fragments.run {} items).blocks).filter
        fun c => c.1 = i := by rw [hc]; exact List.mem_singleton.mpr rfl
    obtain rfl : j = i := by simpa using (List.mem_filter.mp hmem).2
    exact hc
  · intro hps
    rw [hps]
    rfl

/-- Only calls of the stream are delivered. -/
theorem calls_keys {es : List (StreamEvent F)} :
    ∀ c ∈ Fragments.calls (Fragments.run {} (es.filterMap eventItem)).blocks,
      c.1 ∈ (accumulate (toolCallDeltas es)).map Prod.fst := by
  intro c hc
  obtain ⟨k, ps⟩ := c
  obtain ⟨x, hx, hopens⟩ := Fragments.exists_opens_of_mem_calls hc
  exact mem_accumulate_keys.mpr (exists_delta_of_opens hx hopens)

def exampleSource : ChunkSource := ⟨"chatcmpl-1", "model", fun n => n⟩

/-- A stream in which the id and the name arrive in different fragments and the id is not
repeated. -/
def splitIdStream : List (StreamEvent FloatText) :=
  [{ type := .toolCallDelta, toolCallDelta := some { index := some 0, id := some "call_1" } },
   { type := .toolCallDelta,
     toolCallDelta := some { index := some 0, name := some "Bash", argumentsJson := "\x7b\x7d" } }]

/-- A stream whose call starts with its id and its name. -/
def wholeCallStream : List (StreamEvent FloatText) :=
  [{ type := .textDelta, text := some "Running." },
   { type := .toolCallDelta,
     toolCallDelta := some { index := some 0, id := some "call_1", name := some "Bash" } },
   { type := .toolCallDelta, toolCallDelta := some { index := some 0, argumentsJson := "\x7b\x7d" } }]

end MultiForge.Proxy
