/-
MultiForge.Policy.ReviewAccounts — the count of excluded work.

`_exclude` counts the turns of a source that come after the newest turn it
has counted. `Tallied` says that this is the number of the turns: those up
to the watermark that the provenance names were counted before. `Accounts`
adds what a turn owes that is given up without a review, and holds in
every run.
-/
import Mathlib.Data.Finset.Card
import MultiForge.Policy.ReviewRuns

namespace MultiForge.Policy

variable {π F : Type}

/-! ## 1. The count of excluded work -/

def Checkpoint.excludedCount (c : Checkpoint F) : Nat := (c.excludedWork.map (·.turns)).getD 0

/-- Up to which turn work was counted. -/
def Checkpoint.excludedUpTo (c : Checkpoint F) : Nat := (c.excludedWork.map (·.lastTurn.int)).getD 0

/-- The count is the number of turns. -/
structure Tally (c : Checkpoint F) : Prop where
  count : c.excludedCount = c.excludedTurns.toFinset.card
  upTo : ∀ t ∈ c.excludedTurns, t.int ≤ c.excludedUpTo
  none : c.excludedWork = none → c.excludedTurns = []

/-- The turns of a checkpoint: in order, its own turn last. -/
structure Scoped (c : Checkpoint F) : Prop where
  ordered : c.provenance.Pairwise (·.int < ·.int)
  last : ∃ earlier, c.provenance = earlier ++ [c.turnId]

/-- The account of a checkpoint's excluded turns. -/
structure Tallied (c : Checkpoint F) : Prop where
  tally : Tally c
  scope : Scoped c
  counted : ∀ t ∈ c.provenance, t.int ≤ c.excludedUpTo → t ∈ c.excludedTurns
  upTo : c.excludedUpTo ≤ c.turnId.int

section Counting

variable {c c' state source : Checkpoint F} {reason : ExcludeReason}

theorem Scoped.mem_turn (h : Scoped c) : c.turnId ∈ c.provenance := by
  obtain ⟨earlier, heq⟩ := h.last
  rw [heq]
  simp

theorem Scoped.le_turn (h : Scoped c) {t : NativeId} (ht : t ∈ c.provenance) :
    t.int ≤ c.turnId.int := by
  obtain ⟨earlier, heq⟩ := h.last
  have hordered := h.ordered
  rw [heq, List.pairwise_append] at hordered
  rw [heq, List.mem_append, List.mem_singleton] at ht
  rcases ht with ht | rfl
  · exact (hordered.2.2 t ht c.turnId (by simp)).le
  · exact le_rfl

theorem Scoped.nodup (h : Scoped c) : c.provenance.Nodup := by
  refine h.ordered.imp ?_
  intro t u hlt heq
  rw [heq] at hlt
  exact lt_irrefl _ hlt

/-- The turns that a source adds are the ones after the watermark. -/
theorem card_exclude (hs : Tally state) (hsource : Scoped source)
    (hcounted : ∀ t ∈ source.provenance, t.int ≤ state.excludedUpTo → t ∈ state.excludedTurns) :
    (state.excludedTurns ++ source.provenance).toFinset.card
      = state.excludedTurns.toFinset.card
        + source.provenance.countP (state.excludedUpTo < ·.int) := by
  have hnew : source.provenance.toFinset \ state.excludedTurns.toFinset
      = (source.provenance.filter (state.excludedUpTo < ·.int)).toFinset := by
    ext t
    simp only [Finset.mem_sdiff, List.mem_toFinset, List.mem_filter, decide_eq_true_eq]
    constructor
    · rintro ⟨ht, hnot⟩
      refine ⟨ht, ?_⟩
      by_contra hle
      exact hnot (hcounted t ht (not_lt.mp hle))
    · rintro ⟨ht, hlt⟩
      refine ⟨ht, fun hin => ?_⟩
      exact absurd (hs.upTo t hin) (not_le.mpr hlt)
  rw [List.toFinset_append, ← Finset.union_sdiff_self_eq_union,
    Finset.card_union_of_disjoint Finset.disjoint_sdiff, hnew,
    List.toFinset_card_of_nodup (hsource.nodup.filter _), List.countP_eq_length_filter]

/-- How many turns of a source come after the watermark. -/
def addedTurns (state source : Checkpoint F) : Nat :=
  source.provenance.countP (state.excludedUpTo < ·.int)

theorem exclude_work (state source : Checkpoint F) (reason : ExcludeReason) :
    (exclude state source reason).excludedWork =
      if state.excludedWork.isSome ∧ addedTurns state source = 0 then state.excludedWork
      else some ⟨state.excludedCount + addedTurns state source, source.turnId, source.threadId,
        reason⟩ := rfl

theorem addedTurns_eq_zero (h : addedTurns state source = 0) {t : NativeId}
    (ht : t ∈ source.provenance) : t.int ≤ state.excludedUpTo := by
  have hnone := List.countP_eq_zero.mp h t ht
  simpa using hnone

theorem exclude_count (state source : Checkpoint F) (reason : ExcludeReason) :
    (exclude state source reason).excludedCount
      = state.excludedCount + addedTurns state source := by
  unfold Checkpoint.excludedCount
  rw [exclude_work]
  split
  · rename_i h
    rw [h.2, Nat.add_zero]
  · rfl

theorem exclude_upTo (hsource : Scoped source) :
    (exclude state source reason).excludedUpTo = max state.excludedUpTo source.turnId.int := by
  have hupTo : (exclude state source reason).excludedUpTo
      = if state.excludedWork.isSome ∧ addedTurns state source = 0 then state.excludedUpTo
        else source.turnId.int := by
    unfold Checkpoint.excludedUpTo
    rw [exclude_work]
    split <;> rfl
  rw [hupTo]
  split
  · rename_i h
    exact (max_eq_left (addedTurns_eq_zero h.2 hsource.mem_turn)).symm
  · rename_i h
    refine (max_eq_right ?_).symm
    cases hwork : state.excludedWork with
    | none =>
      unfold Checkpoint.excludedUpTo
      rw [hwork]
      exact Nat.zero_le _
    | some work =>
      rw [hwork] at h
      have hadded : 0 < addedTurns state source := by
        refine Nat.pos_of_ne_zero fun hzero => ?_
        exact h ⟨rfl, hzero⟩
      obtain ⟨t, ht, hlt⟩ := List.countP_pos_iff.mp hadded
      rw [decide_eq_true_eq] at hlt
      exact hlt.le.trans (hsource.le_turn ht)

/-- **Excluding work keeps the count.** -/
theorem exclude_tally (hs : Tally state) (hsource : Scoped source)
    (hcounted : ∀ t ∈ source.provenance, t.int ≤ state.excludedUpTo → t ∈ state.excludedTurns) :
    Tally (exclude state source reason) where
  count := by
    rw [exclude_count, hs.count]
    exact (card_exclude hs hsource hcounted).symm
  upTo := by
    intro t ht
    rw [exclude_upTo hsource]
    rcases List.mem_append.mp ht with ht | ht
    · exact (hs.upTo t ht).trans (Nat.le_max_left _ _)
    · exact (hsource.le_turn ht).trans (Nat.le_max_right _ _)
  none := by
    intro hnone
    rw [exclude_work] at hnone
    split at hnone
    · rename_i h
      rw [hnone] at h
      cases h.1
    · cases hnone

end Counting

/-! ## 2. The account of a checkpoint -/

/-- What a checkpoint owes to its turns, whatever has happened to it. -/
structure Accounts (c : Checkpoint F) : Prop where
  tallied : Tallied c
  unspent : c.spent = false →
    c.status = .collecting ∨ c.status = .unavailable ∨ c.status = .noChanges
  /-- a turn that is given up without a review is counted -/
  settled : c.spent = false → c.status = .unavailable → c.outstanding = false →
    c.turnId ∈ c.excludedTurns

section Accounting

variable {m : Moment} {ctx : TurnContext} {action : Action F} {c c' : Checkpoint F}
  {old : Option (Checkpoint F)} {current : Option SnapshotRef}

theorem Tallied.congr (h : Tallied c) (hturn : c'.turnId = c.turnId)
    (hprov : c'.provenance = c.provenance) (hwork : c'.excludedWork = c.excludedWork)
    (hexcluded : c'.excludedTurns = c.excludedTurns) : Tallied c' := by
  obtain ⟨⟨hcount, hupTo, hnone⟩, ⟨hordered, hlast⟩, hcounted, hle⟩ := h
  have hcount' : c'.excludedCount = c.excludedCount := by
    rw [Checkpoint.excludedCount, hwork, Checkpoint.excludedCount]
  have hupTo' : c'.excludedUpTo = c.excludedUpTo := by
    rw [Checkpoint.excludedUpTo, hwork, Checkpoint.excludedUpTo]
  refine ⟨⟨?_, ?_, ?_⟩, ⟨?_, ?_⟩, ?_, ?_⟩
  · rw [hcount', hexcluded, hcount]
  · rw [hexcluded, hupTo']
    exact hupTo
  · rw [hwork, hexcluded]
    exact hnone
  · rw [hprov]
    exact hordered
  · rw [hprov, hturn]
    exact hlast
  · rw [hprov, hupTo', hexcluded]
    exact hcounted
  · rw [hupTo', hturn]
    exact hle

/-- A turn that is excluded itself is counted. -/
theorem Tallied.excludeSelf (h : Tallied c) (reason : ExcludeReason) :
    Tallied (exclude c c reason) where
  tally := exclude_tally h.tally h.scope h.counted
  scope := ⟨h.scope.ordered, h.scope.last⟩
  counted := fun t ht _ => List.mem_append_right _ ht
  upTo := by
    rw [exclude_upTo h.scope, max_eq_right h.upTo]
    exact le_rfl

/-- A newer turn is not counted yet. -/
theorem tallied_of_later (htally : Tally c) (hscope : Scoped c)
    (hlater : c.excludedUpTo < c.turnId.int)
    (hcounted : ∀ t ∈ c.provenance, t ≠ c.turnId → t ∈ c.excludedTurns ∨ c.excludedUpTo < t.int) :
    Tallied c where
  tally := htally
  scope := hscope
  counted := by
    intro t ht hle
    by_cases hturn : t = c.turnId
    · rw [hturn] at hle
      omega
    · rcases hcounted t ht hturn with hin | hlt
      · exact hin
      · omega
  upTo := hlater.le

theorem scoped_newTurn (ctx : TurnContext) (current : Option SnapshotRef)
    (old : Option (Checkpoint F)) : Scoped ((newState ctx current).inherit old) :=
  ⟨List.pairwise_singleton _ _, [], rfl⟩

theorem tally_inherit {o : Checkpoint F} (ho : Tallied o) (ctx : TurnContext)
    (current : Option SnapshotRef) : Tally ((newState ctx current).inherit (some o)) :=
  ⟨ho.tally.count, ho.tally.upTo, ho.tally.none⟩

/-- An old checkpoint is excluded in the state of a newer turn. -/
theorem tallied_excludeOld {o : Checkpoint F} (ho : Tallied o)
    (hlater : o.turnId.int < ctx.turnId.int) (reason : ExcludeReason) :
    Tallied (exclude ((newState ctx current).inherit (some o)) o reason) := by
  have htally := tally_inherit ho ctx current
  refine tallied_of_later (exclude_tally htally ho.scope ho.counted) ⟨?_, ?_⟩ ?_ ?_
  · exact (scoped_newTurn ctx current (some o)).ordered
  · exact (scoped_newTurn ctx current (some o)).last
  · rw [exclude_upTo ho.scope]
    exact max_lt (ho.upTo.trans_lt hlater) hlater
  · intro t ht hne
    exact absurd (List.mem_singleton.mp ht) hne

theorem tallied_inherit {o : Checkpoint F} (current : Option SnapshotRef) (ho : Tallied o)
    (hlater : o.turnId.int < ctx.turnId.int) :
    Tallied ((newState ctx current).inherit (some o)) := by
  refine tallied_of_later (tally_inherit ho ctx current) (scoped_newTurn ctx current _)
    (ho.upTo.trans_lt hlater) ?_
  intro t ht hne
  exact absurd (List.mem_singleton.mp ht) hne

/-- The turns of pending work, and the turn that carries it. -/
theorem scoped_carried {o : Checkpoint F} (ho : Scoped o) (hlater : o.turnId.int < ctx.turnId.int)
    (hturn : c.turnId = ctx.turnId) (hprov : c.provenance = o.provenance ++ [ctx.turnId]) :
    Scoped c := by
  refine ⟨?_, o.provenance, by rw [hprov, hturn]⟩
  rw [hprov, List.pairwise_append]
  refine ⟨ho.ordered, List.pairwise_singleton _ _, ?_⟩
  intro t ht u hu
  rw [List.mem_singleton.mp hu]
  exact (ho.le_turn ht).trans_lt hlater

theorem tally_carryOver {o : Checkpoint F} (ho : Tallied o) (ctx : TurnContext)
    (current : Option SnapshotRef) (r : Rebased) :
    Tally (carryOver ctx o r ((newState ctx current).inherit (some o))) :=
  ⟨ho.tally.count, ho.tally.upTo, ho.tally.none⟩

theorem tally_ambiguous {c : Checkpoint F} (hc : Tally c) : Tally c.ambiguous :=
  ⟨hc.count, hc.upTo, hc.none⟩

theorem carry_tallied {o : Checkpoint F} (ho : Tallied o) (hlater : o.turnId.int < ctx.turnId.int)
    (r : Rebased) : Tallied (carry ctx o r ((newState ctx current).inherit (some o))) := by
  unfold carry
  split
  · refine tallied_of_later (tally_carryOver ho ctx current r)
      (scoped_carried ho.scope hlater rfl rfl) (ho.upTo.trans_lt hlater) ?_
    intro t ht hne
    rcases List.mem_append.mp ht with ht | ht
    · rcases Nat.lt_or_ge o.excludedUpTo t.int with hlt | hle
      · exact .inr hlt
      · exact .inl (ho.counted t ht hle)
    · exact absurd (List.mem_singleton.mp ht) hne
  · have htally := tally_ambiguous (tally_carryOver ho ctx current r)
    refine tallied_of_later (exclude_tally htally ho.scope ho.counted)
      (scoped_carried ho.scope hlater rfl rfl) ?_ ?_
    · rw [exclude_upTo ho.scope]
      exact max_lt (ho.upTo.trans_lt hlater) hlater
    · intro t ht hne
      rcases List.mem_append.mp ht with ht | ht
      · exact .inl (List.mem_append_right _ ht)
      · exact absurd (List.mem_singleton.mp ht) hne

theorem Started.tallied (h : Started ctx current old c) (hold : ∀ o, old = some o → Tallied o)
    (hlater : ∀ o, old = some o → o.turnId.int < ctx.turnId.int) : Tallied c := by
  cases h with
  | first =>
    refine tallied_of_later ⟨rfl, ?_, fun _ => rfl⟩ (scoped_newTurn ctx current none)
      ctx.turnId.int_pos ?_
    · intro t ht
      cases ht
    · intro t ht hne
      exact absurd (List.mem_singleton.mp ht) hne
  | reset _ => exact tallied_excludeOld (hold _ rfl) (hlater _ rfl) _
  | carried r _ => exact carry_tallied (hold _ rfl) (hlater _ rfl) r
  | unobserved _ => exact tallied_excludeOld (hold _ rfl) (hlater _ rfl) _
  | settled changes _ _ =>
    have hnew := tallied_inherit current (hold _ rfl) (hlater _ rfl)
    exact hnew.congr rfl rfl rfl rfl

theorem Started.status (h : Started ctx current old c) : c.status = .collecting := by
  cases h with
  | first => rfl
  | reset => rfl
  | carried r =>
    unfold carry
    split <;> rfl
  | unobserved => rfl
  | settled => rfl

theorem Started.turn_mem (h : Started ctx current old c) : c.turnId ∈ c.provenance := by
  cases h with
  | first => exact List.mem_singleton_self _
  | reset => exact List.mem_singleton_self _
  | carried r =>
    unfold carry
    split <;> exact List.mem_append_right _ (List.mem_singleton_self _)
  | unobserved => exact List.mem_singleton_self _
  | settled => exact List.mem_singleton_self _

theorem accounts_spent (h : Tallied c) (hspent : c.spent = true) : Accounts c where
  tallied := h
  unspent := by simp [hspent]
  settled := by simp [hspent]

theorem accounts_collecting (h : Tallied c) (hstatus : c.status = .collecting) : Accounts c where
  tallied := h
  unspent := fun _ => .inl hstatus
  settled := by simp [hstatus]

theorem accounts_pend (h : Tallied c) (hstatus : c.status = .unavailable)
    (houtstanding : c.outstanding = true) : Accounts c where
  tallied := h
  unspent := fun _ => .inr (.inl hstatus)
  settled := by simp [houtstanding]

/-- A turn that is counted can be given up. -/
theorem accounts_excluded (h : Tallied c) (hstatus : c.status = .unavailable)
    (hcounted : c.turnId ∈ c.excludedTurns) : Accounts c where
  tallied := h
  unspent := fun _ => .inr (.inl hstatus)
  settled := fun _ _ _ => hcounted

theorem Begun.accounts (h : Begun m ctx old c') (hold : ∀ o, old = some o → Accounts o)
    (hlater : ∀ o, old = some o → o.turnId.int < ctx.turnId.int) : Accounts c' := by
  have htallied : ∀ o, old = some o → Tallied o := fun o ho => (hold o ho).tallied
  cases h with
  | blocked => exact accounts_pend ((htallied _ rfl).congr rfl rfl rfl rfl) rfl rfl
  | failed type hs =>
    exact accounts_pend ((hs.tallied htallied hlater).congr rfl rfl rfl rfl) rfl rfl
  | started s hs =>
    exact accounts_collecting ((hs.tallied htallied hlater).congr rfl rfl rfl rfl) hs.status

theorem Accounts.congr (h : Accounts c) (htallied : Tallied c') (hspent : c'.spent = c.spent)
    (hstatus : c'.status = c.status) (hout : c'.outstanding = c.outstanding)
    (hturn : c'.turnId = c.turnId) (hexcluded : c'.excludedTurns = c.excludedTurns) :
    Accounts c' where
  tallied := htallied
  unspent := by
    rw [hspent, hstatus]
    exact h.unspent
  settled := by
    rw [hspent, hstatus, hout, hturn, hexcluded]
    exact h.settled

/-- What `keepAction` does with an action. -/
theorem keepAction_cases (action : Action F) (c : Checkpoint F) :
    (keepAction action (afterReview c)).outstanding = true ∧
        ((keepAction action (afterReview c)).status = .unavailable ∨ c.spent = true) ∨
      c.spent = false ∧
        keepAction action (afterReview c) = { c with actions := c.actions ++ [action] } := by
  unfold keepAction
  split
  · exact .inl ⟨rfl, .inl rfl⟩
  · unfold afterReview
    cases hspent : c.spent with
    | false =>
      refine .inr ⟨rfl, ?_⟩
      simp [hspent]
    | true =>
      refine .inl ⟨?_, .inr rfl⟩
      simp [Checkpoint.pend]

/-- What becomes of the state around an action. -/
theorem kept_cases {b o : Checkpoint F} (hb : Continued ctx c b)
    (ho : Observed ctx (keepAction action (afterReview b)) o) :
    o.outstanding = true ∧ (o.status = .unavailable ∨ o.spent = true) ∨
      c.spent = false ∧ o.spent = false ∧ o.status = c.status ∧ o.outstanding = c.outstanding ∧
        o.actions = c.actions ++ [action] := by
  have hkeep : o.spent = b.spent ∧ o.status = (keepAction action (afterReview b)).status ∧
      o.outstanding = (keepAction action (afterReview b)).outstanding ∧
      o.actions = (keepAction action (afterReview b)).actions := by
    have hspent := (keepAction_scope action b).spent
    cases ho <;> exact ⟨hspent, rfl, rfl, rfl⟩
  obtain ⟨hospent, hostatus, hoout, hoactions⟩ := hkeep
  rcases keepAction_cases action b with ⟨hout, hwhy⟩ | ⟨hspent, heq⟩
  · refine .inl ⟨hoout.trans hout, ?_⟩
    rcases hwhy with hstatus | hspent
    · exact .inl (hostatus.trans hstatus)
    · exact .inr (hospent.trans hspent)
  · rw [heq] at hostatus hoout hoactions
    cases hb with
    | same => exact .inr ⟨hspent, hospent.trans hspent, hostatus, hoout, hoactions⟩
    | fresh _ hcspent =>
      have hspent : c.spent = false := hspent
      rw [hcspent] at hspent
      cases hspent

theorem Recorded.accounts (h : Recorded m ctx action c c') (hc : Accounts c) : Accounts c' := by
  have hscope := h.scope
  have htallied : Tallied c' :=
    hc.tallied.congr hscope.turn hscope.provenance hscope.work hscope.excluded
  cases h with
  | reconfigured => exact accounts_pend htallied rfl rfl
  | denied => exact ⟨htallied, hc.unspent, hc.settled⟩
  | @kept b o _ _ _ hb ho =>
    rcases kept_cases hb ho with ⟨hout, hstatus | hspent⟩ | ⟨-, -, hstatus, hout, -⟩
    · exact accounts_pend htallied hstatus hout
    · exact accounts_spent htallied hspent
    · exact hc.congr htallied hscope.spent hstatus hout hscope.turn hscope.excluded

theorem missingTurn_tallied (ctx : TurnContext) (hold : ∀ o, old = some o → Tallied o)
    (hlater : ∀ o, old = some o → o.turnId.int < ctx.turnId.int) :
    Tallied (missingTurn ctx old) ∧
      (missingTurn ctx old).turnId ∈ (missingTurn ctx old).excludedTurns := by
  have hself : ∀ c : Checkpoint F, Tallied c →
      Tallied { exclude c c .missingTurnStart with
        status := .unavailable
        reason := some "missing_turn_start" } ∧ c.turnId ∈ c.excludedTurns ++ c.provenance := by
    intro c hc
    exact ⟨(hc.excludeSelf _).congr rfl rfl rfl rfl,
      List.mem_append_right _ hc.scope.mem_turn⟩
  unfold missingTurn
  cases old with
  | none =>
    refine hself _ ?_
    have hfirst : Started ctx none none ((newState ctx none : Checkpoint F).inherit none) := .first
    exact hfirst.tallied hold hlater
  | some o =>
    simp only
    split
    · exact hself _ (tallied_excludeOld (hold o rfl) (hlater o rfl) _)
    · exact hself _ (tallied_inherit none (hold o rfl) (hlater o rfl))

theorem missingTurn_status (ctx : TurnContext) (old : Option (Checkpoint F)) :
    (missingTurn ctx old).status = .unavailable := rfl

variable [PyFloatText F] {sha256 : List Char → Hex 64} {plan : PlanSnapshot} {attempt : Hex 32}
  {frozen : Checkpoint F} {result : SupervisorRun F}

omit [PyFloatText F] in
/-- A later turn is later than the turn of the checkpoint. -/
theorem Marked.later (hmark : Marked old) (hseen : lastSeen old < ctx.turnId.int) :
    ∀ o, old = some o → o.turnId.int < ctx.turnId.int := by
  intro o ho
  rw [ho] at hmark hseen
  exact (turn_le_lastSeen hmark).trans_lt hseen

theorem reserve_accounts {r : Reserved F} (hmark : Marked old)
    (hold : ∀ o, old = some o → Accounts o) (h : reserve sha256 m ctx plan attempt old = .ok r)
    (hsaved : r.saved = some c') : Accounts c' := by
  obtain ⟨-, hr⟩ := reserve_ok h
  cases hr with
  | refused => cases hsaved
  | missing _ hlater _ =>
    cases hsaved
    have hmissing := missingTurn_tallied ctx (fun o ho => (hold o ho).tallied)
      (fun o ho => (hmark o ho).symm.trans_lt (hlater o ho))
    exact accounts_excluded (hmissing.1.congr rfl rfl rfl rfl) (missingTurn_status ctx old)
      hmissing.2
  | reconfigured =>
    cases hsaved
    exact accounts_pend ((hold _ rfl).tallied.congr rfl rfl rfl rfl) rfl rfl
  | @again c o _ hspent ho =>
    cases hsaved
    have hframe := ho.frame
    have htallied : Tallied o := by
      rw [hframe]
      exact (hold _ rfl).tallied.congr rfl rfl rfl rfl
    refine accounts_spent (htallied.congr rfl rfl rfl rfl) ?_
    rw [hframe]
    exact hspent
  | @assessed c _ _ s evidence _ _ _ _ _ _ ha =>
    have hc := (hold _ rfl).tallied
    cases ha with
    | excluded =>
      cases hsaved
      refine accounts_excluded ((hc.excludeSelf .partialEvidence).congr rfl rfl rfl rfl) rfl ?_
      exact List.mem_append_right _ hc.scope.mem_turn
    | noChanges =>
      cases hsaved
      exact ⟨hc.congr rfl rfl rfl rfl, fun _ => .inr (.inr rfl), fun _ hstatus => by cases hstatus⟩
    | noPlan =>
      cases hsaved
      exact accounts_pend (hc.congr rfl rfl rfl rfl) rfl rfl
    | reserved planDigest =>
      cases hsaved
      exact accounts_spent (hc.congr rfl rfl rfl rfl) rfl

omit [PyFloatText F] in
theorem conclude_accounts (failed stale : Bool) (frozen : Checkpoint F) (result : SupervisorRun F)
    (hc : Tallied c) (hspent : c.spent = true) :
    Accounts (conclude failed stale frozen result c).1 := by
  have hcases := conclude_cases failed stale frozen result c
  generalize conclude failed stale frozen result c = r at hcases
  cases hcases with
  | ended => exact accounts_spent hc hspent
  | unsettled => exact accounts_spent (hc.congr rfl rfl rfl rfl) hspent
  | inPart =>
    exact accounts_spent ((hc.excludeSelf .partialEvidence).congr rfl rfl rfl rfl) hspent
  | reviewed => exact accounts_spent (hc.congr rfl rfl rfl rfl) hspent

end Accounting

/-! ## 3. The account in every run -/

section Runs

variable [DecidableEq π] [PyFloatText F] {sha256 : List Char → Hex 64} {w w' : World π F}
  {call : Call π F}

def World.Accounted (w : World π F) : Prop := ∀ c, w.checkpoint = some c → Accounts c

omit [DecidableEq π] [PyFloatText F] in
/-- The turn that a reviewer holds is spent. -/
theorem World.Sound.spent (h : w.Sound) {p : π} {r : Reviewer F} {c : Checkpoint F}
    (hp : w.reviewers p = some r) (hc : w.checkpoint = some c) (hturn : r.ctx.turnId = c.turnId) :
    c.spent = true := by
  obtain ⟨d, hd, hgone⟩ := h.allotted _ (h.issued hp)
  rw [hc] at hd
  cases hd
  rcases hgone with hlt | ⟨-, hspent⟩
  · rw [hturn] at hlt
    exact absurd hlt (lt_irrefl _)
  · exact hspent

theorem Step.accounts (h : w.Sound) (hacc : w.Accounted) (hs : Step sha256 w call w') :
    w'.Accounted := by
  have hsave : ∀ saved : Option (Checkpoint F), (∀ c', saved = some c' → Accounts c') →
      ∀ c, saved.or w.checkpoint = some c → Accounts c := by
    intro saved hsaved c hc
    cases saved with
    | none => exact hacc c hc
    | some c' => exact hsaved c hc
  cases hs with
  | beginTurn m ctx hbegin =>
    refine hsave _ fun c' hc => ?_
    rw [hc] at hbegin
    obtain ⟨-, hseen, hbegun⟩ := beginTurn_ok hbegin
    exact hbegun.accounts hacc (h.marked.later hseen)
  | recordAction m boundary ctx action _ hrecord =>
    rw [noteAction_eq]
    refine hsave _ fun c' hc => ?_
    rw [hc] at hrecord
    obtain ⟨c, hprev, -, -, hr⟩ := recordAction_ok hrecord
    exact hr.accounts (hacc c hprev)
  | resetReview m apply =>
    refine hsave _ fun c' hc => ?_
    obtain ⟨c, hprev, rfl⟩ := resetReview_ok hc
    exact accounts_pend ((hacc c hprev).tallied.congr rfl rfl rfl rfl) rfl rfl
  | stop m ctx plan attempt hreserve =>
    rw [noteAssessment_eq]
    exact hsave _ fun c' hc => reserve_accounts h.marked hacc hreserve hc
  | reserve p m ctx plan attempt _ hreserve =>
    exact hsave _ fun c' hc => reserve_accounts h.marked hacc hreserve hc
  | dispatch => exact hacc
  | saveResult p m hp _ hresult =>
    refine hsave _ fun c' hc => ?_
    rw [hc] at hresult
    obtain ⟨c, hprev, -, -, rfl⟩ := saveResult_ok hresult
    exact (hacc c hprev).congr ((hacc c hprev).tallied.congr rfl rfl rfl rfl) rfl rfl rfl rfl rfl
  | complete => exact hacc
  | @finish p r result reads failed stale m saved outcome hp _ hfinish =>
    rw [noteAssessment_eq]
    refine hsave _ fun c' hc => ?_
    rw [hc] at hfinish
    rcases finish_ok hfinish with ⟨hnone, -⟩ | ⟨c, hprev, -, hholds, hsaved, -⟩
    · cases hnone
    · cases hsaved
      have hspent := h.spent hp hprev (holds_turn hholds).symm
      have htallied : Tallied (c.decided result) := (hacc c hprev).tallied.congr rfl rfl rfl rfl
      have hacc' := conclude_accounts failed stale r.frozen result htallied hspent
      exact hacc'.congr (hacc'.tallied.congr rfl rfl rfl rfl) rfl rfl rfl rfl rfl
  | die => exact hacc

theorem Run.accounts (h : Run sha256 (.init : World π F) w) : w.Accounted := by
  induction h with
  | refl =>
    intro c hc
    cases hc
  | step hrun hs ih => exact hs.accounts (hrun.sound init_sound) ih

end Runs

end MultiForge.Policy
