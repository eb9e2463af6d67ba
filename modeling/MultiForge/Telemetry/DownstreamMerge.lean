/-
MultiForge.Telemetry.DownstreamMerge — what the reader of the ledger
returns.

`latestRecord` puts together the latest value of every field of an attempt;
it knows nothing of files, lines and merging. `mem_read` says that the
reader returns these records, one for each id, whatever the order of the
records in the shards.

The reader drops the records that do not match its filter before it
merges. `read_filter_iff` says when that is the same as filtering what has
been merged: exactly when the latest values of an attempt that counts are
all found among its matching records.
-/
import MultiForge.Telemetry.Downstream

namespace MultiForge.Telemetry

variable {F : Type}

/-! ## 1. Merging in the order of the timestamps -/

/-- The records of an attempt. -/
def ofAttempt (id : EventId) (l : List (DownstreamRecord F)) : List (DownstreamRecord F) :=
  l.filter fun r => r.downstreamEventId = id

/-- The latest value of every field. -/
def latestRecord (id : EventId) (l : List (DownstreamRecord F)) : DownstreamRecord F where
  kind := .attempt
  downstreamEventId := id
  fields := fun f => latestBy (·.ts) (fun r => r.fields f) l
  confidence := (latestBy (·.ts) DownstreamRecord.known l).getD .unknown
  ts := (latestBy (·.ts) (fun r => some r.ts) l).getD 0

/-- An attempt of the current schema. -/
def DownstreamRecord.IsAttempt (r : DownstreamRecord F) : Prop :=
  r.kind = .attempt ∧ r.schemaVersion = downstreamSchemaVersion

/-- Timestamps of one id are distinct, up to records written twice. -/
def DistinctStamps (l : List (DownstreamRecord F)) : Prop :=
  ∀ r ∈ l, ∀ r' ∈ l, r.downstreamEventId = r'.downstreamEventId → r.ts = r'.ts → r = r'

/-- Records merged one after the other. -/
def mergeAll (l : List (DownstreamRecord F)) : Option (DownstreamRecord F) :=
  l.foldl (fun current rec => some (mergeOne current rec)) none

variable {id : EventId} {l l' : List (DownstreamRecord F)}

theorem mem_ofAttempt {r : DownstreamRecord F} :
    r ∈ ofAttempt id l ↔ r ∈ l ∧ r.downstreamEventId = id := by
  unfold ofAttempt
  rw [List.mem_filter, decide_eq_true_iff]

theorem DistinctStamps.ofAttempt (h : DistinctStamps l) (id : EventId) :
    DistinctTimes (·.ts) (Telemetry.ofAttempt id l) := by
  intro r hr r' hr' hts
  obtain ⟨hr, hid⟩ := mem_ofAttempt.mp hr
  obtain ⟨hr', hid'⟩ := mem_ofAttempt.mp hr'
  exact h r hr r' hr' (hid.trans hid'.symm) hts

theorem DistinctStamps.mono (h : DistinctStamps l') (hsub : ∀ r ∈ l, r ∈ l') : DistinctStamps l :=
  fun r hr r' hr' => h r (hsub r hr) r' (hsub r' hr')

theorem latestRecord_congr (hdistinct : DistinctTimes (·.ts) l) (h : ∀ r, r ∈ l ↔ r ∈ l') :
    latestRecord id l = latestRecord id l' := by
  unfold latestRecord
  simp only [latestBy_congr hdistinct h]

/-- One more record, not before the others. -/
theorem latestRecord_snoc {r : DownstreamRecord F} (hdistinct : DistinctTimes (·.ts) (l ++ [r]))
    (hlast : ∀ r' ∈ l, r'.ts ≤ r.ts) :
    latestRecord id (l ++ [r]) = (latestRecord id l).overlay r := by
  unfold latestRecord DownstreamRecord.overlay
  simp only [latestBy_snoc hdistinct hlast]
  congr 1
  unfold DownstreamRecord.known
  by_cases hr : r.confidence = .unknown
  · simp only [hr, if_true, Option.none_or, true_and]
    split
    · rfl
    · rename_i h
      simpa using h
  · simp [hr]

theorem latestRecord_singleton {r : DownstreamRecord F} (hid : r.downstreamEventId = id)
    (hattempt : r.IsAttempt) : latestRecord id [r] = r := by
  have hdistinct : DistinctTimes (·.ts) ([] ++ [r]) := by
    intro a ha b hb _
    rw [List.mem_singleton.mp ha, List.mem_singleton.mp hb]
  have hsnoc : ∀ {β : Type} (g : DownstreamRecord F → Option β), latestBy (·.ts) g [r] = g r := by
    intro β g
    refine (latestBy_snoc hdistinct (by simp)).trans ?_
    rw [latestBy_eq_none_iff.mpr (by simp), Option.or_none]
  obtain ⟨hkind, hschema⟩ := hattempt
  unfold latestRecord
  simp only [hsnoc]
  cases r
  simp only at hid hkind hschema
  subst hid hkind hschema
  simp only [DownstreamRecord.known, DownstreamRecord.mk.injEq, true_and]
  refine ⟨?_, rfl⟩
  split <;> simp_all

/-- Merging in the order of the timestamps makes the latest record. -/
theorem mergeAll_eq (hid : ∀ r ∈ l, r.downstreamEventId = id) (hattempt : ∀ r ∈ l, r.IsAttempt)
    (hsorted : l.Pairwise fun a b => a.ts ≤ b.ts) (hdistinct : DistinctTimes (·.ts) l)
    (hne : l ≠ []) : mergeAll l = some (latestRecord id l) := by
  induction l using List.reverseRecOn with
  | nil => exact absurd rfl hne
  | append_singleton l r ih =>
    obtain ⟨hsorted', -, hlast⟩ := List.pairwise_append.mp hsorted
    have hlast' : ∀ r' ∈ l, r'.ts ≤ r.ts := fun r' hr' =>
      hlast r' hr' r (List.mem_singleton_self r)
    have hstep : mergeAll (l ++ [r]) = some (mergeOne (mergeAll l) r) := by
      unfold mergeAll
      rw [List.foldl_append]
      rfl
    rw [hstep]
    by_cases hnil : l = []
    · subst hnil
      rw [List.nil_append, latestRecord_singleton (hid r (by simp)) (hattempt r (by simp))]
      rfl
    · rw [ih (fun r' hr' => hid r' (List.mem_append_left _ hr'))
        (fun r' hr' => hattempt r' (List.mem_append_left _ hr')) hsorted'
        (hdistinct.mono fun r' hr' => List.mem_append_left _ hr') hnil,
        latestRecord_snoc hdistinct hlast']
      rfl

theorem mergeAll_nil_iff : mergeAll l = none ↔ l = [] := by
  induction l using List.reverseRecOn with
  | nil => exact ⟨fun _ => rfl, fun _ => rfl⟩
  | append_singleton l r ih =>
    unfold mergeAll
    rw [List.foldl_append]
    simp

/-! ## 2. The reader -/

theorem sortByTs_perm (l : List (DownstreamRecord F)) : (sortByTs l).Perm l :=
  List.mergeSort_perm l _

theorem sortByTs_pairwise (l : List (DownstreamRecord F)) :
    (sortByTs l).Pairwise fun a b => a.ts ≤ b.ts := by
  have hsorted : (sortByTs l).Pairwise fun a b => decide (a.ts ≤ b.ts) = true := by
    refine List.pairwise_mergeSort ?_ ?_ l
    · intro a b c hab hbc
      simp only [decide_eq_true_eq] at hab hbc ⊢
      exact hab.trans hbc
    · intro a b
      simp only [Bool.or_eq_true, decide_eq_true_eq]
      exact le_total _ _
  exact hsorted.imp fun h => of_decide_eq_true h

/-- What is merged for an id. -/
theorem mergedAttempts_get? (hattempt : ∀ r ∈ l, r.IsAttempt) (id : EventId) :
    (mergedAttempts l).get? id = mergeAll (ofAttempt id l) := by
  have hall : (l.filter fun r => r.kind = .attempt) = l := by
    rw [List.filter_eq_self]
    intro r hr
    exact decide_eq_true (hattempt r hr).1
  unfold mergedAttempts
  rw [hall, Dict.get?_upsertEach_foldl, Dict.get?_empty, List.filter_map, List.foldl_map]
  rfl

theorem mergedAttempts_eq_some_iff (hattempt : ∀ r ∈ l, r.IsAttempt)
    (hsorted : l.Pairwise fun a b => a.ts ≤ b.ts) (hdistinct : DistinctStamps l)
    {m : DownstreamRecord F} : (mergedAttempts l).get? id = some m ↔
      ofAttempt id l ≠ [] ∧ m = latestRecord id (ofAttempt id l) := by
  rw [mergedAttempts_get? hattempt]
  by_cases hne : ofAttempt id l = []
  · rw [mergeAll_nil_iff.mpr hne]
    simp [hne]
  · have hmerge : mergeAll (ofAttempt id l) = some (latestRecord id (ofAttempt id l)) :=
      mergeAll_eq (fun r hr => (mem_ofAttempt.mp hr).2)
        (fun r hr => hattempt r (mem_ofAttempt.mp hr).1) (hsorted.filter _)
        (hdistinct.ofAttempt id) hne
    rw [hmerge]
    simp [hne, eq_comm]

/-- A ledger of attempts. -/
structure Ledger (shards : List (DownstreamShard F)) : Prop where
  attempts : ∀ r ∈ shardRecords shards, r.IsAttempt
  distinct : DistinctStamps (shardRecords shards)

/-- The filters that run before the merge. -/
def ReadFilter.Early (filter : ReadFilter) : Prop := filter.kind = none ∧ filter.backendId = none

/-- The records that match a filter. -/
def matching (filter : ReadFilter) (shards : List (DownstreamShard F)) :
    List (DownstreamRecord F) := (shardRecords shards).filter filter.passes

variable {filter : ReadFilter} {shards : List (DownstreamShard F)}

theorem Ledger.read_eq (h : Ledger shards) (hearly : filter.Early) :
    readDownstreamRecords filter shards
      = sortByTs ((mergedAttempts (sortByTs (matching filter shards))).entries.map Prod.snd) := by
  have hkept : ((shardRecords shards).filter fun r => (filter.kind.all fun k => k = r.kind) &&
      r.schemaVersion = downstreamSchemaVersion && filter.passes r) = matching filter shards := by
    unfold matching
    refine List.filter_congr fun r hr => ?_
    rw [hearly.1, (h.attempts r hr).2]
    simp
  have hnone : (sortByTs (matching filter shards)).filter (fun r => r.kind ≠ .attempt) = [] := by
    rw [List.filter_eq_nil_iff]
    intro r hr
    have hmem := (sortByTs_perm _).mem_iff.mp hr
    simp [(h.attempts r (List.mem_filter.mp hmem).1).1]
  unfold readDownstreamRecords mergeAttemptRecords
  simp only [hkept, hnone, List.append_nil, hearly.2]
  rw [List.filter_eq_self]
  exact fun _ _ => rfl

theorem Ledger.sorted (h : Ledger shards) (filter : ReadFilter) :
    (∀ r ∈ sortByTs (matching filter shards), r.IsAttempt) ∧
      DistinctStamps (sortByTs (matching filter shards)) := by
  have hsub : ∀ r ∈ sortByTs (matching filter shards), r ∈ shardRecords shards := fun r hr =>
    (List.mem_filter.mp ((sortByTs_perm _).mem_iff.mp hr)).1
  exact ⟨fun r hr => h.attempts r (hsub r hr), h.distinct.mono hsub⟩

theorem ofAttempt_sortByTs (hdistinct : DistinctStamps l) (id : EventId) :
    latestRecord id (ofAttempt id (sortByTs l)) = latestRecord id (ofAttempt id l) := by
  have hsub : ∀ r ∈ sortByTs l, r ∈ l := fun r hr => (sortByTs_perm l).mem_iff.mp hr
  refine latestRecord_congr ((hdistinct.mono hsub).ofAttempt id) fun r => ?_
  rw [mem_ofAttempt, mem_ofAttempt, (sortByTs_perm l).mem_iff]

theorem ofAttempt_sortByTs_ne (id : EventId) :
    ofAttempt id (sortByTs l) ≠ [] ↔ ofAttempt id l ≠ [] := by
  have hperm : (ofAttempt id (sortByTs l)).Perm (ofAttempt id l) := (sortByTs_perm l).filter _
  rw [not_iff_not]
  exact ⟨fun h => (h ▸ hperm).symm.eq_nil, fun h => (h ▸ hperm).eq_nil⟩

theorem Ledger.merged_iff (h : Ledger shards) (filter : ReadFilter) (id : EventId)
    {m : DownstreamRecord F} :
    (mergedAttempts (sortByTs (matching filter shards))).get? id = some m ↔
      ofAttempt id (matching filter shards) ≠ [] ∧
        m = latestRecord id (ofAttempt id (matching filter shards)) := by
  obtain ⟨hattempt, hdistinct⟩ := h.sorted filter
  have hmatching : DistinctStamps (matching filter shards) :=
    h.distinct.mono fun r hr => (List.mem_filter.mp hr).1
  rw [mergedAttempts_eq_some_iff hattempt (sortByTs_pairwise _) hdistinct,
    ofAttempt_sortByTs hmatching, ofAttempt_sortByTs_ne]

/-- The reader returns the latest record of every attempt. -/
theorem Ledger.mem_read (h : Ledger shards) (hearly : filter.Early) {m : DownstreamRecord F} :
    m ∈ readDownstreamRecords filter shards ↔
      ofAttempt m.downstreamEventId (matching filter shards) ≠ [] ∧
        m = latestRecord m.downstreamEventId
          (ofAttempt m.downstreamEventId (matching filter shards)) := by
  rw [h.read_eq hearly, (sortByTs_perm _).mem_iff, List.mem_map]
  constructor
  · rintro ⟨⟨id, m'⟩, hentry, rfl⟩
    have hget := (h.merged_iff filter id).mp (Dict.get?_eq_some_iff.mpr hentry)
    have hid : m'.downstreamEventId = id := by rw [hget.2]; rfl
    rw [hid]
    exact hget
  · intro hm
    exact ⟨(m.downstreamEventId, m), Dict.get?_eq_some_iff.mp ((h.merged_iff filter _).mpr hm), rfl⟩

/-- One record for each id. -/
theorem Ledger.read_nodup (h : Ledger shards) (hearly : filter.Early) :
    ((readDownstreamRecords filter shards).map (·.downstreamEventId)).Nodup := by
  rw [h.read_eq hearly, ((sortByTs_perm _).map _).nodup_iff, List.map_map]
  have hkeys : (mergedAttempts (sortByTs (matching filter shards))).entries.map
      ((·.downstreamEventId) ∘ Prod.snd)
      = (mergedAttempts (sortByTs (matching filter shards))).entries.map Prod.fst := by
    refine List.map_congr_left fun e he => ?_
    have hget := (h.merged_iff filter e.1).mp (Dict.get?_eq_some_iff.mpr he)
    show e.2.downstreamEventId = e.1
    rw [hget.2]
    rfl
  rw [hkeys]
  exact (mergedAttempts (sortByTs (matching filter shards))).nodup

/-! ## 3. Filters before the merge -/

/-- The records of an attempt that count for a filter have its latest
values: those that match, when there are any, and all when these match. -/
def Covers (filter : ReadFilter) (shards : List (DownstreamShard F)) (id : EventId) : Prop :=
  let all := ofAttempt id (shardRecords shards)
  let matched := ofAttempt id (matching filter shards)
  matched ≠ [] ∨ all ≠ [] ∧ filter.passes (latestRecord id all) = true →
    matched ≠ [] ∧ latestRecord id matched = latestRecord id all

theorem matching_none (shards : List (DownstreamShard F)) :
    matching {} shards = shardRecords shards := by
  unfold matching
  rw [List.filter_eq_self]
  exact fun _ _ => rfl

/-- The latest value of a field that all records have. -/
theorem latestBy_of_all {β : Type} {g : DownstreamRecord F → Option β} {b : β}
    (hdistinct : DistinctTimes (·.ts) l) (hne : l ≠ []) (h : ∀ r ∈ l, g r = some b) :
    latestBy (·.ts) g l = some b := by
  cases hlatest : latestBy (·.ts) g l with
  | none =>
    obtain ⟨r, hr⟩ := List.exists_mem_of_ne_nil l hne
    have hnone := latestBy_eq_none_iff.mp hlatest r hr
    rw [h r hr] at hnone
    cases hnone
  | some b' =>
    obtain ⟨r, hr, hg, -⟩ := (latestBy_eq_some_iff hdistinct).mp hlatest
    rw [h r hr] at hg
    exact hg.symm

theorem has_iff {r : DownstreamRecord F} {f : Field} {s : String} :
    r.has f s = true ↔ r.fields f = some (.str s) := by
  unfold DownstreamRecord.has
  split
  · rename_i t ht
    rw [ht]
    simp
  · rename_i h
    simp only [Bool.false_eq_true, false_iff]
    exact fun hs => h s hs

theorem matchesField_latest {f : Field} {value : Option String}
    (hdistinct : DistinctTimes (·.ts) l) (hne : l ≠ [])
    (h : ∀ r ∈ l, r.matchesField f value = true) :
    (latestRecord id l).matchesField f value = true := by
  unfold DownstreamRecord.matchesField at h ⊢
  cases value with
  | none => rfl
  | some s =>
    simp only [Bool.or_eq_true, beq_iff_eq] at h ⊢
    by_cases hs : s = ""
    · exact .inl hs
    · refine .inr (has_iff.mpr ?_)
      exact latestBy_of_all hdistinct hne fun r hr => has_iff.mp ((h r hr).resolve_left hs)

/-- Records that match have a latest record that matches. -/
theorem passes_latest (hdistinct : DistinctTimes (·.ts) l) (hne : l ≠ [])
    (h : ∀ r ∈ l, filter.passes r = true) : filter.passes (latestRecord id l) = true := by
  unfold ReadFilter.passes at h ⊢
  simp only [Bool.and_eq_true] at h ⊢
  exact ⟨⟨⟨⟨matchesField_latest hdistinct hne fun r hr => (h r hr).1.1.1.1,
    matchesField_latest hdistinct hne fun r hr => (h r hr).1.1.1.2⟩,
    matchesField_latest hdistinct hne fun r hr => (h r hr).1.1.2⟩,
    matchesField_latest hdistinct hne fun r hr => (h r hr).1.2⟩,
    matchesField_latest hdistinct hne fun r hr => (h r hr).2⟩

/-- **Filtered reads.** Filtering before the merge gives the merged records
that match exactly when every attempt that counts is covered. -/
theorem Ledger.read_filter_iff (h : Ledger shards) (hearly : filter.Early) :
    (readDownstreamRecords filter shards).Perm
        ((readDownstreamRecords {} shards).filter filter.passes) ↔
      ∀ id, Covers filter shards id := by
  have hall : (({} : ReadFilter)).Early := ⟨rfl, rfl⟩
  have hnodup := (h.read_nodup hearly).of_map
  have hnodup' := ((h.read_nodup hall).of_map).filter filter.passes
  rw [List.perm_ext_iff_of_nodup hnodup hnodup']
  have hmem : ∀ m, m ∈ (readDownstreamRecords {} shards).filter filter.passes ↔
      (ofAttempt m.downstreamEventId (shardRecords shards) ≠ [] ∧
        m = latestRecord m.downstreamEventId (ofAttempt m.downstreamEventId (shardRecords shards))) ∧
      filter.passes m = true := by
    intro m
    rw [List.mem_filter, h.mem_read hall, matching_none]
  constructor
  · intro hsame id
    rintro (hsome | ⟨hne, hpasses⟩)
    · have hm := (hsame (latestRecord id (ofAttempt id (matching filter shards)))).mp
        ((h.mem_read hearly).mpr ⟨hsome, rfl⟩)
      exact ⟨hsome, ((hmem _).mp hm).1.2⟩
    · have hm := (hsame (latestRecord id (ofAttempt id (shardRecords shards)))).mpr
        ((hmem _).mpr ⟨⟨hne, rfl⟩, hpasses⟩)
      obtain ⟨hsome, heq⟩ := (h.mem_read hearly).mp hm
      exact ⟨hsome, heq.symm⟩
  · intro hcovers m
    rw [h.mem_read hearly, hmem]
    constructor
    · rintro ⟨hsome, heq⟩
      obtain ⟨-, hlatest⟩ := hcovers m.downstreamEventId (.inl hsome)
      have hdistinct : DistinctTimes (·.ts)
          (ofAttempt m.downstreamEventId (matching filter shards)) :=
        (h.distinct.mono fun r hr => (List.mem_filter.mp hr).1).ofAttempt _
      have hpasses : filter.passes (latestRecord m.downstreamEventId
          (ofAttempt m.downstreamEventId (matching filter shards))) = true :=
        passes_latest hdistinct hsome fun r hr =>
          (List.mem_filter.mp (mem_ofAttempt.mp hr).1).2
      refine ⟨⟨?_, heq.trans hlatest⟩, ?_⟩
      · obtain ⟨r, hr⟩ := List.exists_mem_of_ne_nil _ hsome
        obtain ⟨hr, hid⟩ := mem_ofAttempt.mp hr
        exact List.ne_nil_of_mem (mem_ofAttempt.mpr ⟨(List.mem_filter.mp hr).1, hid⟩)
      · rw [heq]
        exact hpasses
    · rintro ⟨⟨hne, heq⟩, hpasses⟩
      have hlatest := hcovers m.downstreamEventId (.inr ⟨hne, heq ▸ hpasses⟩)
      exact ⟨hlatest.1, heq.trans hlatest.2.symm⟩

end MultiForge.Telemetry
