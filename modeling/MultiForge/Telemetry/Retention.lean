/-
MultiForge.Telemetry.Retention — `forge.core.state.retention`: pruning the
shards of a state plane by age and then by size.

The two passes share the list of shards and the memo of what the caller
wants preserved. Every call (the listing, a `stat`, an `unlink`, the
callback) may raise; an operation that raises has changed nothing. Calls
are numbered, and which of them raise is arbitrary.

The trace of a run says what the callback answered and what was unlinked
in which pass. `Inv` ties it to the memo, to the result and to what is on
disk; each pass is followed with it shard by shard.
-/
import Mathlib.Algebra.BigOperators.Group.List.Basic
import Mathlib.Algebra.Ring.Int.Defs
import Mathlib.Data.List.Nodup
import MultiForge.Lib.StableSort

namespace MultiForge.Telemetry.Retention

/-! ## 1. The calls -/

inductive Pass where
  | age
  | size
  deriving DecidableEq

inductive Event where
  | evaluated (shard : String) (answer : Except String Bool)
  | unlinked (pass : Pass) (shard : String)

/-- What the calls of one operation give. -/
structure Calls (T : Type) where
  mtime : String → T
  size : String → Nat
  /-- the text of the error that the call with this number raises -/
  fault : Nat → Option String
  /-- the text of the error for a shard that is gone -/
  notFound : String → String
  /-- the answer of the callback, or its error, at the call with this number -/
  preserve : Option (Nat → String → Except String Bool)
  /-- `str(directory)` -/
  directory : String
  /-- `str(directory / name)` -/
  path : String → String
  /-- `now - days * _SECONDS_PER_DAY`; `none` is an `OverflowError` -/
  cutoff : Int → Option T

/-- The shards that match the pattern. -/
structure Listing where
  names : List String
  nodup : names.Nodup

inductive Directory where
  | missing
  | unreadable (error : String)
  | notDirectory
  | listed (listing : Listing)

/-- The shards that are on disk. -/
def Directory.names : Directory → List String
  | .listed listing => listing.names
  | _ => []

/-! ## 2. A run -/

structure Run where
  clock : Nat := 0
  present : List String := []
  /-- `preserve_decisions` -/
  decisions : List (String × Bool) := []
  trace : List Event := []
  removed : List String := []
  errors : List String := []
  /-- an `OverflowError` went through -/
  raised : Bool := false

namespace Run

/-- After some more calls. -/
def later (n : Nat) (r : Run) : Run := { r with clock := r.clock + n }

/-- One more call. -/
def called (r : Run) : Run := r.later 1

def report (error : String) (r : Run) : Run := { r with errors := r.errors ++ [error] }

/-- An `unlink` that succeeds. -/
def unlink (pass : Pass) (shard : String) (r : Run) : Run :=
  { r.called with
    present := r.present.erase shard
    trace := r.trace ++ [.unlinked pass shard]
    removed := r.removed ++ [shard] }

end Run

variable {T : Type}

/-- The decision after an answer: an error preserves. -/
def decisionOf : Except String Bool → Bool
  | .ok decision => decision
  | .error _ => true

/-- The messages for an answer. -/
def answerErrors (c : Calls T) (shard : String) : Except String Bool → List String
  | .ok _ => []
  | .error e => ["could not evaluate preservation for " ++ c.path shard ++ ": " ++ e]

/-- The callback has answered. -/
def Run.evaluate (c : Calls T) (shard : String) (answer : Except String Bool) (r : Run) : Run :=
  { r.called with
    decisions := (shard, decisionOf answer) :: r.decisions
    trace := r.trace ++ [.evaluated shard answer]
    errors := r.errors ++ answerErrors c shard answer }

/-- `should_preserve` -/
def shouldPreserve (c : Calls T) (r : Run) (shard : String) : Run × Bool :=
  match r.decisions.lookup shard with
  | some decision => (r, decision)
  | none => match c.preserve with
    | none => (r, false)
    | some preserve =>
        let answer := preserve r.clock shard
        (r.evaluate c shard answer, decisionOf answer)

/-- The error of a `stat` or an `unlink`. -/
def callError (c : Calls T) (r : Run) (shard : String) : Option String :=
  match c.fault r.clock with
  | some e => some e
  | none => if shard ∈ r.present then none else some (c.notFound shard)

/-- The message for a shard that could not be pruned. -/
def pruneError (c : Calls T) (shard e : String) : Pass → String
  | .age => "could not age-prune " ++ c.path shard ++ ": " ++ e
  | .size => "could not size-prune " ++ c.path shard ++ ": " ++ e

/-- A `stat` of each shard, up to the first that raises. -/
def statEach (c : Calls T) : List String → Run → Run × Option String
  | [], r => (r, none)
  | shard :: rest, r => match callError c r shard with
    | some e => (r.called, some e)
    | none => statEach c rest r.called

/-- The body of the loop of the age pass, with the list of shards. -/
def ageStep [LinearOrder T] (c : Calls T) (cutoff : T) (state : Run × List String) (shard : String) :
    Run × List String :=
  let q := shouldPreserve c state.1 shard
  if q.2 then (q.1, state.2)
  else match callError c q.1 shard with
    | some e => (q.1.called.report (pruneError c shard e .age), state.2)
    | none =>
        let r := q.1.called
        if c.mtime shard < cutoff then
          match callError c r shard with
          | some e => (r.called.report (pruneError c shard e .age), state.2)
          | none => (r.unlink .age shard, state.2.erase shard)
        else (r, state.2)

/-- The loop of the size pass. -/
def sizePass (c : Calls T) (limit : Int) : List String → Int → Run → Run
  | [], _, r => r
  | shard :: rest, total, r =>
      if total ≤ limit then r
      else
        let q := shouldPreserve c r shard
        if q.2 then sizePass c limit rest total q.1
        else match callError c q.1 shard with
          | some e => sizePass c limit rest total (q.1.called.report (pruneError c shard e .size))
          | none =>
              let size := c.size shard
              let r := q.1.called
              match callError c r shard with
              | some e => sizePass c limit rest total (r.called.report (pruneError c shard e .size))
              | none => sizePass c limit rest (total - size) (r.unlink .size shard)

/-- `sum(size of p for p in shards)` -/
def totalSize (c : Calls T) (shards : List String) : Int := (shards.map fun s => (c.size s : Int)).sum

/-- `_BYTES_PER_MB` -/
def bytesPerMb : Int := 1024 * 1024

/-- The size pass with its measurement. -/
def sizePrune (c : Calls T) (maxTotalMb : Int) (state : Run × List String) : Run :=
  if 0 < maxTotalMb then
    let measured := statEach c state.2 state.1
    match measured.2 with
    | some e => measured.1.report ("could not measure " ++ c.directory ++ ": " ++ e)
    | none => sizePass c (maxTotalMb * bytesPerMb) state.2 (totalSize c state.2) measured.1
  else state.1

/-- The age pass; it ends the run if the cutoff cannot be computed. -/
def agePrune [LinearOrder T] (c : Calls T) (retentionDays : Int) (shards : List String) (r : Run) :
    Run × List String :=
  if 0 < retentionDays then
    match c.cutoff retentionDays with
    | none => ({ r with raised := true }, shards)
    | some cutoff => shards.foldl (ageStep c cutoff) (r, shards)
  else (r, shards)

/-- `prune_jsonl_shards` -/
def pruneJsonlShards [LinearOrder T] (c : Calls T) (directory : Directory)
    (retentionDays maxTotalMb : Int) : Run :=
  match directory with
  | .missing => {}
  | .unreadable e => { errors := ["could not inspect " ++ c.directory ++ ": " ++ e] }
  | .notDirectory => { errors := ["retention path is not a directory: " ++ c.directory] }
  | .listed listing =>
      let r : Run := { present := listing.names }
      match c.fault r.clock with
      | some e => r.called.report ("could not enumerate " ++ c.directory ++ ": " ++ e)
      | none =>
          let keyed := statEach c listing.names r.called
          match keyed.2 with
          | some e => keyed.1.report ("could not enumerate " ++ c.directory ++ ": " ++ e)
          | none =>
              let aged := agePrune c retentionDays (sortOn c.mtime listing.names) keyed.1
              if aged.1.raised then aged.1 else sizePrune c maxTotalMb aged

/-! ## 3. What a run has done -/

def Event.unlinkedShard : Event → Option String
  | .unlinked _ shard => some shard
  | .evaluated _ _ => none

def Event.evaluatedShard : Event → Option String
  | .evaluated shard _ => some shard
  | .unlinked _ _ => none

def unlinkedIn (trace : List Event) : List String := trace.filterMap Event.unlinkedShard

def evaluatedIn (trace : List Event) : List String := trace.filterMap Event.evaluatedShard

/-- The callback wanted a shard kept, or could not say. -/
def Preserved (trace : List Event) (shard : String) : Prop :=
  ∃ answer, Event.evaluated shard answer ∈ trace ∧ decisionOf answer = true

/-- The trace, the memo, the result and the disk agree. -/
structure Inv (c : Calls T) (names : List String) (r : Run) : Prop where
  present : r.present = names.filter (· ∉ r.removed)
  unlinked : unlinkedIn r.trace = r.removed
  once : (evaluatedIn r.trace).Nodup
  memo : ∀ s d, r.decisions.lookup s = some d
    ↔ ∃ answer, Event.evaluated s answer ∈ r.trace ∧ decisionOf answer = d
  asked : c.preserve.isSome → ∀ s ∈ r.removed, Event.evaluated s (.ok false) ∈ r.trace
  noted : ∀ s e, Event.evaluated s (.error e) ∈ r.trace → r.errors ≠ []
  heard : ∀ s answer, Event.evaluated s answer ∈ r.trace →
    ∃ preserve n, c.preserve = some preserve ∧ preserve n s = answer

/-- One run goes on from another. -/
structure Extends (r r' : Run) : Prop where
  trace : r.trace <+: r'.trace
  errors : r.errors <+: r'.errors
  removed : r.removed <+: r'.removed
  raised : r'.raised = r.raised

variable {c : Calls T} {names : List String} {r r' r'' : Run} {shard : String}

theorem Extends.refl (r : Run) : Extends r r :=
  ⟨List.prefix_refl _, List.prefix_refl _, List.prefix_refl _, rfl⟩

theorem Extends.trans (h : Extends r r') (h' : Extends r' r'') : Extends r r'' :=
  ⟨h.trace.trans h'.trace, h.errors.trans h'.errors, h.removed.trans h'.removed,
    h'.raised.trans h.raised⟩

theorem Extends.preserved (h : Extends r r') (hp : Preserved r.trace shard) :
    Preserved r'.trace shard := by
  obtain ⟨answer, hmem, hanswer⟩ := hp
  exact ⟨answer, h.trace.subset hmem, hanswer⟩

theorem extends_later (n : Nat) (r : Run) : Extends r (r.later n) :=
  ⟨List.prefix_refl _, List.prefix_refl _, List.prefix_refl _, rfl⟩

theorem extends_report (error : String) (r : Run) : Extends r (r.report error) :=
  ⟨List.prefix_refl _, List.prefix_append _ _, List.prefix_refl _, rfl⟩

theorem extends_unlink (pass : Pass) (shard : String) (r : Run) :
    Extends r (r.unlink pass shard) :=
  ⟨List.prefix_append _ _, List.prefix_refl _, List.prefix_append _ _, rfl⟩

theorem extends_evaluate (c : Calls T) (shard : String) (answer : Except String Bool) (r : Run) :
    Extends r (r.evaluate c shard answer) :=
  ⟨List.prefix_append _ _, List.prefix_append _ _, List.prefix_refl _, rfl⟩

theorem decisionOf_false {answer : Except String Bool} (h : decisionOf answer = false) :
    answer = .ok false := by
  cases answer with
  | error e => cases h
  | ok d =>
    cases d with
    | false => rfl
    | true => cases h

theorem Inv.later (h : Inv c names r) (n : Nat) : Inv c names (r.later n) :=
  ⟨h.present, h.unlinked, h.once, h.memo, h.asked, h.noted, h.heard⟩

theorem Inv.report (h : Inv c names r) (error : String) : Inv c names (r.report error) where
  present := h.present
  unlinked := h.unlinked
  once := h.once
  memo := h.memo
  asked := h.asked
  noted := fun _ _ _ hnil => absurd (List.append_eq_nil_iff.mp hnil).2 (List.cons_ne_nil _ _)
  heard := h.heard

/-- A shard that may go is unlinked. -/
theorem Inv.unlink (h : Inv c names r) (hnodup : names.Nodup) (pass : Pass)
    (hasked : c.preserve.isSome → Event.evaluated shard (.ok false) ∈ r.trace) :
    Inv c names (r.unlink pass shard) where
  present := by
    show r.present.erase shard = names.filter (· ∉ r.removed ++ [shard])
    have hsub : r.present.Nodup := by
      rw [h.present]
      exact hnodup.filter _
    rw [hsub.erase_eq_filter, h.present, List.filter_filter]
    refine List.filter_congr fun s _ => ?_
    by_cases hs : s = shard <;> simp [hs]
  unlinked := by
    show unlinkedIn (r.trace ++ [.unlinked pass shard]) = r.removed ++ [shard]
    rw [unlinkedIn, List.filterMap_append, ← h.unlinked]
    rfl
  once := by
    show (evaluatedIn (r.trace ++ [.unlinked pass shard])).Nodup
    have hsame : evaluatedIn (r.trace ++ [.unlinked pass shard]) = evaluatedIn r.trace := by
      rw [evaluatedIn, List.filterMap_append]
      exact List.append_nil _
    rw [hsame]
    exact h.once
  memo := by
    intro s d
    simp only [Run.unlink, List.mem_append, List.mem_singleton, reduceCtorEq, or_false]
    exact h.memo s d
  asked := by
    intro hsome s hs
    refine List.mem_append_left _ ?_
    rcases List.mem_append.mp hs with hs | hs
    · exact h.asked hsome s hs
    · rw [List.mem_singleton.mp hs]
      exact hasked hsome
  noted := by
    intro s e hs
    rcases List.mem_append.mp hs with hs | hs
    · exact h.noted s e hs
    · cases List.mem_singleton.mp hs
  heard := by
    intro s answer hs
    rcases List.mem_append.mp hs with hs | hs
    · exact h.heard s answer hs
    · cases List.mem_singleton.mp hs

theorem Inv.not_evaluated (h : Inv c names r) (hnone : r.decisions.lookup shard = none)
    (answer : Except String Bool) : Event.evaluated shard answer ∉ r.trace := by
  intro hmem
  have hsome := (h.memo shard (decisionOf answer)).mpr ⟨answer, hmem, rfl⟩
  rw [hnone] at hsome
  cases hsome

/-- The callback is asked about a shard for the first time. -/
theorem Inv.evaluate (h : Inv c names r) (hnone : r.decisions.lookup shard = none)
    {answer : Except String Bool}
    (hpreserve : ∃ preserve n, c.preserve = some preserve ∧ preserve n shard = answer) :
    Inv c names (r.evaluate c shard answer) where
  present := h.present
  unlinked := by
    show unlinkedIn (r.trace ++ [.evaluated shard answer]) = r.removed
    rw [unlinkedIn, List.filterMap_append, ← h.unlinked]
    exact List.append_nil _
  once := by
    show (evaluatedIn (r.trace ++ [.evaluated shard answer])).Nodup
    have hsame : evaluatedIn (r.trace ++ [.evaluated shard answer])
        = evaluatedIn r.trace ++ [shard] := by
      rw [evaluatedIn, List.filterMap_append]
      rfl
    rw [hsame]
    refine List.nodup_append.mpr ⟨h.once, List.nodup_singleton shard, ?_⟩
    rintro s hs t hshard rfl
    rw [List.mem_singleton.mp hshard] at hs
    obtain ⟨ev, hev, hevaluated⟩ := List.mem_filterMap.mp hs
    cases ev with
    | evaluated s' a =>
      cases hevaluated
      exact h.not_evaluated hnone a hev
    | unlinked _ _ => cases hevaluated
  memo := by
    intro s d
    show List.lookup s ((shard, decisionOf answer) :: r.decisions) = some d ↔ _
    by_cases hs : s = shard
    · subst hs
      rw [List.lookup_cons_self]
      constructor
      · rintro ⟨rfl⟩
        exact ⟨answer, List.mem_append_right _ (List.mem_singleton.mpr rfl), rfl⟩
      · rintro ⟨a, ha, rfl⟩
        rcases List.mem_append.mp ha with ha | ha
        · exact absurd ha (h.not_evaluated hnone a)
        · cases List.mem_singleton.mp ha
          rfl
    · have hlookup : List.lookup s ((shard, decisionOf answer) :: r.decisions)
          = r.decisions.lookup s := by
        have hbeq : (s == shard) = false := by simpa using hs
        rw [List.lookup_cons, hbeq]
      rw [hlookup, h.memo s d]
      simp [Run.evaluate, hs]
  asked := by
    intro hsome s hs
    exact List.mem_append_left _ (h.asked hsome s hs)
  noted := by
    intro s e hs hnil
    obtain ⟨hnil, hanswer⟩ := List.append_eq_nil_iff.mp hnil
    rcases List.mem_append.mp hs with hs | hs
    · exact h.noted s e hs hnil
    · cases List.mem_singleton.mp hs
      exact absurd hanswer (List.cons_ne_nil _ _)
  heard := by
    intro s a hs
    rcases List.mem_append.mp hs with hs | hs
    · exact h.heard s a hs
    · cases List.mem_singleton.mp hs
      exact hpreserve

theorem Inv.spared (h : Inv c names r) {answer : Except String Bool}
    (hmem : Event.evaluated shard answer ∈ r.trace) (hanswer : answer ≠ .ok false) :
    shard ∉ r.removed := by
  intro hgone
  obtain ⟨preserve, n, hpreserve, -⟩ := h.heard shard answer hmem
  have hsome : c.preserve.isSome := by
    rw [hpreserve]
    rfl
  have hfalse := (h.memo shard false).mpr ⟨_, h.asked hsome shard hgone, rfl⟩
  have htrue := (h.memo shard _).mpr ⟨answer, hmem, rfl⟩
  rw [hfalse] at htrue
  exact hanswer (decisionOf_false (Option.some.inj htrue).symm)

/-- Without an error what is preserved was wanted. -/
theorem Inv.wanted (h : Inv c names r) (herrors : r.errors = [])
    (hkept : Preserved r.trace shard) : Event.evaluated shard (.ok true) ∈ r.trace := by
  obtain ⟨answer, hmem, hanswer⟩ := hkept
  cases answer with
  | error e => exact absurd herrors (h.noted shard e hmem)
  | ok d =>
    cases d with
    | true => exact hmem
    | false => cases hanswer

theorem Inv.not_removed (h : Inv c names r) (hs : shard ∈ r.present) : shard ∉ r.removed := by
  rw [h.present] at hs
  simpa using (List.mem_filter.mp hs).2

/-! ## 4. One shard -/

/-- What is known of a run that has asked about a shard. -/
structure Asked (c : Calls T) (names : List String) (shard : String) (r : Run) (q : Run × Bool) :
    Prop where
  inv : Inv c names q.1
  extends_ : Extends r q.1
  present : q.1.present = r.present
  removed : q.1.removed = r.removed
  /-- nothing is unlinked -/
  events : ∀ pass s, Event.unlinked pass s ∈ q.1.trace → Event.unlinked pass s ∈ r.trace
  kept : q.2 = true → Preserved q.1.trace shard
  free : q.2 = false → c.preserve.isSome → Event.evaluated shard (.ok false) ∈ q.1.trace

theorem shouldPreserve_asked (h : Inv c names r) (shard : String) :
    Asked c names shard r (shouldPreserve c r shard) := by
  rw [shouldPreserve]
  cases hlookup : r.decisions.lookup shard with
  | some decision =>
    obtain ⟨answer, hmem, hanswer⟩ := (h.memo shard decision).mp hlookup
    refine ⟨h, .refl r, rfl, rfl, fun _ _ hs => hs, ?_, ?_⟩
    · intro htrue
      exact ⟨answer, hmem, hanswer.trans htrue⟩
    · intro hfalse _
      rwa [decisionOf_false (hanswer.trans hfalse)] at hmem
  | none =>
    cases hpreserve : c.preserve with
    | none =>
      refine ⟨h, .refl r, rfl, rfl, fun _ _ hs => hs, nofun, fun _ hsome => ?_⟩
      rw [hpreserve] at hsome
      cases hsome
    | some preserve =>
      have hmem : Event.evaluated shard (preserve r.clock shard)
          ∈ (r.evaluate c shard (preserve r.clock shard)).trace :=
        List.mem_append_right _ (List.mem_singleton.mpr rfl)
      refine ⟨h.evaluate hlookup ⟨preserve, r.clock, hpreserve, rfl⟩, extends_evaluate c shard _ r, rfl, rfl, ?_, ?_, ?_⟩
      · intro pass s hs
        rcases List.mem_append.mp hs with hs | hs
        · exact hs
        · cases List.mem_singleton.mp hs
      · exact fun htrue => ⟨_, hmem, htrue⟩
      · intro hfalse _
        rw [← decisionOf_false hfalse]
        exact hmem

theorem callError_none (h : callError c r shard = none) : shard ∈ r.present := by
  rw [callError] at h
  split at h
  · cases h
  · by_contra hmem
    rw [if_neg hmem] at h
    cases h

/-- The total after a shard is gone. -/
theorem totalSize_erase (c : Calls T) {shards : List String} (h : shard ∈ shards) :
    totalSize c (shards.erase shard) = totalSize c shards - c.size shard := by
  have hperm := ((List.perm_cons_erase h).map fun s => (c.size s : Int)).sum_eq
  rw [List.map_cons, List.sum_cons] at hperm
  rw [totalSize, totalSize, hperm]
  omega

/-- What the size pass owes a shard. -/
def SizeSettled (c : Calls T) (r : Run) (shard : String) : Prop :=
  shard ∈ r.removed ∨ Preserved r.trace shard ∨ ∃ e, pruneError c shard e .size ∈ r.errors

theorem Extends.sizeSettled (h : Extends r r') (hs : SizeSettled c r shard) :
    SizeSettled c r' shard := by
  rcases hs with hs | hs | ⟨e, hs⟩
  · exact Or.inl (h.removed.subset hs)
  · exact Or.inr (Or.inl (h.preserved hs))
  · exact Or.inr (Or.inr ⟨e, h.errors.subset hs⟩)

variable [LinearOrder T]

/-- What the age pass does with a shard. -/
theorem ageStep_cases {c : Calls T} {cutoff : T} {state : Run × List String} {shard : String}
    {q : Run × Bool} (hq : shouldPreserve c state.1 shard = q) :
    (q.2 = true ∧ ageStep c cutoff state shard = (q.1, state.2))
      ∨ q.2 = false
        ∧ ((∃ n e, ageStep c cutoff state shard
              = ((q.1.later n).report (pruneError c shard e .age), state.2))
          ∨ (¬ c.mtime shard < cutoff ∧ ∃ n, ageStep c cutoff state shard = (q.1.later n, state.2))
          ∨ (c.mtime shard < cutoff ∧ ∃ n, ageStep c cutoff state shard
              = ((q.1.later n).unlink .age shard, state.2.erase shard))) := by
  simp only [ageStep, hq]
  cases hkept : q.2 with
  | true => exact Or.inl ⟨rfl, if_pos rfl⟩
  | false =>
    refine Or.inr ⟨rfl, ?_⟩
    rw [if_neg nofun]
    cases hstat : callError c q.1 shard with
    | some e => exact Or.inl ⟨1, e, rfl⟩
    | none =>
      by_cases hold : c.mtime shard < cutoff
      · simp only [if_pos hold]
        cases hunlink : callError c q.1.called shard with
        | some e => exact Or.inl ⟨2, e, rfl⟩
        | none => exact Or.inr (Or.inr ⟨hold, 1, rfl⟩)
      · simp only [if_neg hold]
        exact Or.inr (Or.inl ⟨hold, 1, rfl⟩)

omit [LinearOrder T] in
/-- What the size pass does with a shard while the total is too large. -/
theorem sizePass_cases {c : Calls T} {limit total : Int} {rest : List String} {r : Run}
    {shard : String} (hlarge : ¬ total ≤ limit) {q : Run × Bool}
    (hq : shouldPreserve c r shard = q) :
    (q.2 = true ∧ sizePass c limit (shard :: rest) total r = sizePass c limit rest total q.1)
      ∨ q.2 = false
        ∧ ((∃ n e, sizePass c limit (shard :: rest) total r
              = sizePass c limit rest total ((q.1.later n).report (pruneError c shard e .size)))
          ∨ (shard ∈ q.1.present ∧ ∃ n, sizePass c limit (shard :: rest) total r
              = sizePass c limit rest (total - c.size shard)
                ((q.1.later n).unlink .size shard))) := by
  rw [sizePass, if_neg hlarge]
  simp only [hq]
  cases hkept : q.2 with
  | true => exact Or.inl ⟨rfl, if_pos rfl⟩
  | false =>
    refine Or.inr ⟨rfl, ?_⟩
    rw [if_neg nofun]
    cases hstat : callError c q.1 shard with
    | some e => exact Or.inl ⟨1, e, rfl⟩
    | none =>
      cases hunlink : callError c q.1.called shard with
      | some e => exact Or.inl ⟨2, e, rfl⟩
      | none => exact Or.inr ⟨callError_none hstat, 1, rfl⟩

/-! ## 5. The passes -/

/-- What the age pass owes a shard. -/
def AgeSettled (c : Calls T) (cutoff : T) (r : Run) (shard : String) : Prop :=
  shard ∈ r.removed ∨ ¬ c.mtime shard < cutoff ∨ Preserved r.trace shard ∨ r.errors ≠ []

theorem Extends.ageSettled {cutoff : T} (h : Extends r r') (hs : AgeSettled c cutoff r shard) :
    AgeSettled c cutoff r' shard := by
  rcases hs with hs | hs | hs | hs
  · exact Or.inl (h.removed.subset hs)
  · exact Or.inr (Or.inl hs)
  · exact Or.inr (Or.inr (Or.inl (h.preserved hs)))
  · refine Or.inr (Or.inr (Or.inr fun hnil => hs ?_))
    exact List.prefix_nil.mp (hnil ▸ h.errors)

/-- What the age pass keeps true of the run and the list of shards. -/
structure AgeInv (c : Calls T) (names : List String) (cutoff : T) (sorted : List String)
    (state : Run × List String) : Prop where
  inv : Inv c names state.1
  shards : state.2 = sorted.filter (· ∉ state.1.removed)
  old : ∀ s, Event.unlinked .age s ∈ state.1.trace → c.mtime s < cutoff
  fresh : ∀ s, Event.unlinked .size s ∉ state.1.trace

variable {cutoff : T} {sorted : List String} {state : Run × List String}

theorem ageStep_spec (hnodup : names.Nodup) (hsorted : sorted.Nodup)
    (h : AgeInv c names cutoff sorted state) (shard : String) :
    AgeInv c names cutoff sorted (ageStep c cutoff state shard)
      ∧ Extends state.1 (ageStep c cutoff state shard).1
      ∧ AgeSettled c cutoff (ageStep c cutoff state shard).1 shard := by
  have hasked := shouldPreserve_asked h.inv shard
  have hbase : AgeInv c names cutoff sorted ((shouldPreserve c state.1 shard).1, state.2) :=
    ⟨hasked.inv, by rw [hasked.removed]; exact h.shards,
      fun s hs => h.old s (hasked.events _ s hs), fun s hs => h.fresh s (hasked.events _ s hs)⟩
  have hcases := @ageStep_cases T _ c cutoff state shard _ rfl
  rcases hcases with
    ⟨hkept, hstep⟩ | ⟨hfree, ⟨n, e, hstep⟩ | ⟨hyoung, n, hstep⟩ | ⟨hold, n, hstep⟩⟩ <;> rw [hstep]
  · exact ⟨hbase, hasked.extends_, Or.inr (Or.inr (Or.inl (hasked.kept hkept)))⟩
  · refine ⟨⟨(hasked.inv.later n).report _, hbase.shards, hbase.old, hbase.fresh⟩,
      hasked.extends_.trans ((extends_later n _).trans (extends_report _ _)), ?_⟩
    refine Or.inr (Or.inr (Or.inr fun hnil => ?_))
    exact absurd (List.append_eq_nil_iff.mp hnil).2 (List.cons_ne_nil _ _)
  · exact ⟨⟨hasked.inv.later n, hbase.shards, hbase.old, hbase.fresh⟩,
      hasked.extends_.trans (extends_later n _), Or.inr (Or.inl hyoung)⟩
  · refine ⟨⟨(hasked.inv.later n).unlink hnodup .age (hasked.free hfree), ?_, ?_, ?_⟩,
      hasked.extends_.trans ((extends_later n _).trans (extends_unlink _ _ _)), ?_⟩
    · show state.2.erase shard = sorted.filter (· ∉ _ ++ [shard])
      have hsub : (sorted.filter (· ∉ state.1.removed)).Nodup := hsorted.filter _
      rw [h.shards, hsub.erase_eq_filter, List.filter_filter]
      refine List.filter_congr fun s _ => ?_
      have hremoved : ((shouldPreserve c state.1 shard).1.later n).removed = state.1.removed :=
        hasked.removed
      rw [hremoved]
      by_cases hs : s = shard <;> simp [hs]
    · intro s hs
      rcases List.mem_append.mp hs with hs | hs
      · exact hbase.old s hs
      · cases List.mem_singleton.mp hs
        exact hold
    · intro s hs
      rcases List.mem_append.mp hs with hs | hs
      · exact hbase.fresh s hs
      · cases List.mem_singleton.mp hs
    · exact Or.inl (List.mem_append_right _ (List.mem_singleton.mpr rfl))

theorem agePass_spec (hnodup : names.Nodup) (hsorted : sorted.Nodup) : ∀ (todo : List String)
    {state : Run × List String}, AgeInv c names cutoff sorted state →
      AgeInv c names cutoff sorted (todo.foldl (ageStep c cutoff) state)
        ∧ Extends state.1 (todo.foldl (ageStep c cutoff) state).1
        ∧ ∀ s ∈ todo, AgeSettled c cutoff (todo.foldl (ageStep c cutoff) state).1 s
  | [], _, h => ⟨h, .refl _, nofun⟩
  | shard :: todo, state, h => by
      obtain ⟨hstep, hext, hsettled⟩ := ageStep_spec hnodup hsorted h shard
      obtain ⟨hall, hext', hrest⟩ := agePass_spec hnodup hsorted todo hstep
      refine ⟨hall, hext.trans hext', ?_⟩
      intro s hs
      rcases List.mem_cons.mp hs with rfl | hs
      · exact hext'.ageSettled hsettled
      · exact hrest s hs

/-- A shard may be unlinked for its size: what is left is too much, and
whatever is older is gone, is preserved or could not be pruned. -/
structure Due (c : Calls T) (names : List String) (limit : Int) (errors : List String)
    (before : List Event) (shard : String) : Prop where
  large : limit < totalSize c (names.filter (· ∉ unlinkedIn before))
  oldest : ∀ t ∈ names, c.mtime t < c.mtime shard →
    t ∈ unlinkedIn before ∨ Preserved before t ∨ ∃ e, pruneError c t e .size ∈ errors

/-- Every shard that was unlinked for its size was due. -/
def AllDue (c : Calls T) (names : List String) (limit : Int) (r : Run) : Prop :=
  ∀ before shard after, r.trace = before ++ .unlinked .size shard :: after →
    Due c names limit r.errors before shard

variable {limit total : Int}

/-- One more event, which is no unlinking for size or a due one. -/
theorem AllDue.extend (h : AllDue c names limit r) (herrors : r.errors <+: r'.errors) {ev : Event}
    (htrace : r'.trace = r.trace ++ [ev])
    (hev : ∀ s, ev = .unlinked .size s → Due c names limit r'.errors r.trace s) :
    AllDue c names limit r' := by
  intro before s after hsplit
  rw [htrace] at hsplit
  rcases List.eq_nil_or_concat after with rfl | ⟨after, last, rfl⟩
  · obtain ⟨hbefore, hlast⟩ := List.append_inj' hsplit rfl
    rw [← hbefore]
    exact hev s (List.cons.inj hlast).1
  · rw [List.concat_eq_append, ← List.cons_append, ← List.append_assoc] at hsplit
    have hdue := h before s after (List.append_inj' hsplit rfl).1
    refine ⟨hdue.large, fun t ht hlt => ?_⟩
    rcases hdue.oldest t ht hlt with hgone | hkept | ⟨e, he⟩
    · exact Or.inl hgone
    · exact Or.inr (Or.inl hkept)
    · exact Or.inr (Or.inr ⟨e, herrors.subset he⟩)

omit [LinearOrder T] in
theorem shouldPreserve_trace (c : Calls T) (r : Run) (shard : String) :
    (shouldPreserve c r shard).1.trace = r.trace
      ∨ ∃ answer, (shouldPreserve c r shard).1.trace = r.trace ++ [.evaluated shard answer] := by
  rw [shouldPreserve]
  cases r.decisions.lookup shard with
  | some decision => exact Or.inl rfl
  | none =>
    cases c.preserve with
    | none => exact Or.inl rfl
    | some preserve => exact Or.inr ⟨_, rfl⟩

theorem AllDue.mono (h : AllDue c names limit r) (htrace : r'.trace = r.trace)
    (herrors : r.errors <+: r'.errors) : AllDue c names limit r' := by
  intro before s after hsplit
  have hdue := h before s after (htrace ▸ hsplit)
  refine ⟨hdue.large, fun t ht hlt => ?_⟩
  rcases hdue.oldest t ht hlt with hgone | hkept | ⟨e, he⟩
  · exact Or.inl hgone
  · exact Or.inr (Or.inl hkept)
  · exact Or.inr (Or.inr ⟨e, herrors.subset he⟩)

theorem AllDue.asked (h : AllDue c names limit r) {q : Run × Bool}
    (hq : Asked c names shard r q) (hcase : q.1.trace = r.trace
      ∨ ∃ answer, q.1.trace = r.trace ++ [.evaluated shard answer]) : AllDue c names limit q.1 := by
  rcases hcase with hsame | ⟨answer, hmore⟩
  · exact h.mono hsame hq.extends_.errors
  · exact h.extend hq.extends_.errors hmore nofun

/-- What the loop of the size pass keeps true: `done` are the shards that
were looked at. -/
structure SizeInv (c : Calls T) (names : List String) (limit total : Int)
    (done rest : List String) (r : Run) : Prop where
  inv : Inv c names r
  sorted : (done ++ rest).Pairwise fun s t => c.mtime s ≤ c.mtime t
  cover : ∀ t ∈ names, t ∈ r.removed ∨ t ∈ done ++ rest
  settled : ∀ t ∈ done, SizeSettled c r t
  total : total = totalSize c r.present
  due : AllDue c names limit r

/-- The loop goes on to the next shard. -/
theorem SizeInv.next {done rest : List String}
    (h : SizeInv c names limit total done (shard :: rest) r) {total' : Int}
    (hext : Extends r r') (hinv : Inv c names r') (hshard : SizeSettled c r' shard)
    (htotal : total' = totalSize c r'.present) (hdue : AllDue c names limit r') :
    SizeInv c names limit total' (done ++ [shard]) rest r' where
  inv := hinv
  sorted := by
    rw [List.append_assoc]
    exact h.sorted
  cover := by
    intro t ht
    rw [List.append_assoc]
    exact (h.cover t ht).imp_left fun hgone => hext.removed.subset hgone
  settled := by
    intro t ht
    rcases List.mem_append.mp ht with ht | ht
    · exact hext.sizeSettled (h.settled t ht)
    · rw [List.mem_singleton.mp ht]
      exact hshard
  total := htotal
  due := hdue

/-- The shard that the loop has come to is due. -/
theorem SizeInv.due_head {done rest : List String}
    (h : SizeInv c names limit total done (shard :: rest) r) (hlarge : ¬ total ≤ limit)
    {q : Run × Bool} (hq : Asked c names shard r q) {errors : List String}
    (herrors : q.1.errors <+: errors) : Due c names limit errors q.1.trace shard where
  large := by
    rw [hq.inv.unlinked, ← hq.inv.present, hq.present, ← h.total]
    omega
  oldest := by
    intro t ht hlt
    rw [hq.inv.unlinked, hq.removed]
    have hdone : t ∈ r.removed ∨ t ∈ done := by
      refine (h.cover t ht).imp_right fun hmem => ?_
      rcases List.mem_append.mp hmem with hmem | hmem
      · exact hmem
      · have hle : c.mtime shard ≤ c.mtime t := by
          rcases List.mem_cons.mp hmem with rfl | hmem
          · exact le_refl _
          · exact List.rel_of_pairwise_cons (List.pairwise_append.mp h.sorted).2.1 hmem
        exact absurd hlt (not_lt.mpr hle)
    rcases hdone with hgone | hdone
    · exact Or.inl hgone
    · rcases h.settled t hdone with hgone | hkept | ⟨e, he⟩
      · exact Or.inl hgone
      · exact Or.inr (Or.inl (hq.extends_.preserved hkept))
      · exact Or.inr (Or.inr ⟨e, herrors.subset (hq.extends_.errors.subset he)⟩)

/-- What the size pass has done. -/
structure SizePassed (c : Calls T) (names : List String) (limit : Int) (shards : List String)
    (r r' : Run) : Prop where
  inv : Inv c names r'
  extends_ : Extends r r'
  due : AllDue c names limit r'
  age : ∀ s, Event.unlinked .age s ∈ r'.trace → Event.unlinked .age s ∈ r.trace
  done : totalSize c r'.present ≤ limit ∨ ∀ s ∈ shards, SizeSettled c r' s

theorem SizePassed.after {shards : List String} (h : SizePassed c names limit shards r' r'')
    (hext : Extends r r')
    (hage : ∀ s, Event.unlinked .age s ∈ r'.trace → Event.unlinked .age s ∈ r.trace) :
    SizePassed c names limit shards r r'' :=
  ⟨h.inv, hext.trans h.extends_, h.due, fun s hs => hage s (h.age s hs), h.done⟩

theorem sizePass_spec (hnodup : names.Nodup) : ∀ (rest : List String) {done : List String}
    {total : Int} {r : Run}, SizeInv c names limit total done rest r →
      SizePassed c names limit (done ++ rest) r (sizePass c limit rest total r)
  | [], done, _, r, h => by
      refine ⟨h.inv, .refl r, h.due, fun _ hs => hs, Or.inr ?_⟩
      rw [List.append_nil]
      exact h.settled
  | shard :: rest, done, total, r, h => by
      by_cases hlarge : total ≤ limit
      · rw [sizePass, if_pos hlarge]
        exact ⟨h.inv, .refl r, h.due, fun _ hs => hs, Or.inl (h.total ▸ hlarge)⟩
      · have hasked := shouldPreserve_asked h.inv shard
        have hdue := h.due.asked hasked (shouldPreserve_trace c r shard)
        have hage : ∀ s, Event.unlinked .age s ∈ (shouldPreserve c r shard).1.trace →
            Event.unlinked .age s ∈ r.trace := fun s => hasked.events .age s
        have hassoc : done ++ shard :: rest = (done ++ [shard]) ++ rest := by simp
        rw [hassoc]
        have hcases := @sizePass_cases T c limit total rest r shard hlarge _ rfl
        rcases hcases with
          ⟨hkept, hstep⟩ | ⟨hfree, ⟨n, e, hstep⟩ | ⟨hpresent, n, hstep⟩⟩ <;> rw [hstep]
        · have hnext := h.next hasked.extends_ hasked.inv (Or.inr (Or.inl (hasked.kept hkept)))
            (h.total.trans (by rw [hasked.present])) hdue
          exact (sizePass_spec hnodup rest hnext).after hasked.extends_ hage
        · have hext := hasked.extends_.trans ((extends_later n _).trans
            (extends_report (pruneError c shard e .size) _))
          have hnext := h.next hext ((hasked.inv.later n).report _)
            (Or.inr (Or.inr ⟨e, List.mem_append_right _ (List.mem_singleton.mpr rfl)⟩))
            (h.total.trans (by rw [← hasked.present]; rfl))
            (hdue.mono rfl (List.prefix_append _ _))
          exact (sizePass_spec hnodup rest hnext).after hext hage
        · have hext := hasked.extends_.trans ((extends_later n _).trans
            (extends_unlink .size shard _))
          have hnext := h.next hext
            ((hasked.inv.later n).unlink hnodup .size (hasked.free hfree))
            (Or.inl (List.mem_append_right _ (List.mem_singleton.mpr rfl)))
            (by
              show total - c.size shard = totalSize c ((shouldPreserve c r shard).1.present.erase shard)
              rw [totalSize_erase c hpresent, hasked.present, h.total])
            (hdue.extend (List.prefix_refl _) rfl fun s hs => by
              cases hs
              exact h.due_head hlarge hasked (List.prefix_refl _))
          refine (sizePass_spec hnodup rest hnext).after hext fun s hs => ?_
          rcases List.mem_append.mp hs with hs | hs
          · exact hage s hs
          · cases List.mem_singleton.mp hs

/-! ## 6. The operation -/

omit [LinearOrder T] in
/-- Measuring changes nothing. -/
theorem statEach_later (c : Calls T) : ∀ (shards : List String) (r : Run),
    ∃ n, (statEach c shards r).1 = r.later n
  | [], r => ⟨0, rfl⟩
  | shard :: rest, r => by
      rw [statEach]
      cases callError c r shard with
      | some e => exact ⟨1, rfl⟩
      | none =>
        obtain ⟨n, hn⟩ := statEach_later c rest r.called
        refine ⟨1 + n, hn.trans ?_⟩
        simp only [Run.called, Run.later, Nat.add_assoc]

/-- What the size pass has done, with its measurement. -/
structure SizePruned (c : Calls T) (names : List String) (maxTotalMb : Int) (shards : List String)
    (r r' : Run) : Prop where
  inv : Inv c names r'
  extends_ : Extends r r'
  age : ∀ s, Event.unlinked .age s ∈ r'.trace → Event.unlinked .age s ∈ r.trace
  sized : ∀ before s after, r'.trace = before ++ .unlinked .size s :: after →
    0 < maxTotalMb ∧ Due c names (maxTotalMb * bytesPerMb) r'.errors before s
  done : 0 < maxTotalMb → r'.errors = [] →
    totalSize c r'.present ≤ maxTotalMb * bytesPerMb ∨ ∀ s ∈ shards, SizeSettled c r' s

theorem sizePrune_spec (hnodup : names.Nodup) (hperm : sorted.Perm names)
    (hsorted : sorted.Pairwise fun s t => c.mtime s ≤ c.mtime t) (hinv : Inv c names r)
    (hfresh : ∀ s, Event.unlinked .size s ∉ r.trace) (maxTotalMb : Int) :
    SizePruned c names maxTotalMb (sorted.filter (· ∉ r.removed)) r
      (sizePrune c maxTotalMb (r, sorted.filter (· ∉ r.removed))) := by
  have hnone : ∀ (q : Run), q.trace = r.trace → ∀ before s after,
      q.trace ≠ before ++ .unlinked .size s :: after := by
    intro q hq before s after hsplit
    rw [hq] at hsplit
    exact hfresh s (hsplit ▸ List.mem_append_right _ List.mem_cons_self)
  rw [sizePrune]
  by_cases hmb : 0 < maxTotalMb
  · rw [if_pos hmb]
    obtain ⟨n, hn⟩ := statEach_later c (sorted.filter (· ∉ r.removed)) r
    cases hmeasured : (statEach c (sorted.filter (· ∉ r.removed)) r).2 with
    | some e =>
      simp only [hmeasured, hn]
      refine ⟨(hinv.later n).report _, (extends_later n r).trans (extends_report _ _),
        fun _ hs => hs, fun before s after hsplit => absurd hsplit (hnone _ rfl before s after), ?_⟩
      intro _ hnil
      exact absurd (List.append_eq_nil_iff.mp hnil).2 (List.cons_ne_nil _ _)
    | none =>
      simp only [hmeasured, hn]
      have hstart : SizeInv c names (maxTotalMb * bytesPerMb)
          (totalSize c (sorted.filter (· ∉ r.removed))) [] (sorted.filter (· ∉ r.removed))
          (r.later n) := by
        refine ⟨hinv.later n, hsorted.filter _, ?_, nofun, ?_, ?_⟩
        · intro t ht
          by_cases hgone : t ∈ r.removed
          · exact Or.inl hgone
          · exact Or.inr (List.mem_filter.mpr ⟨hperm.mem_iff.mpr ht, by simpa using hgone⟩)
        · have hsum := ((hperm.filter (· ∉ r.removed)).map fun s => (c.size s : Int)).sum_eq
          rw [totalSize, hsum, ← hinv.present]
          rfl
        · exact fun before s after hsplit => absurd hsplit (hnone _ rfl before s after)
      have hpassed := sizePass_spec hnodup _ hstart
      exact ⟨hpassed.inv, (extends_later n r).trans hpassed.extends_, hpassed.age,
        fun before s after hsplit => ⟨hmb, hpassed.due before s after hsplit⟩,
        fun _ _ => hpassed.done⟩
  · rw [if_neg hmb]
    exact ⟨hinv, .refl r, fun _ hs => hs,
      fun before s after hsplit => absurd hsplit (hnone _ rfl before s after),
      fun h => absurd h hmb⟩

/-- What pruning promises, whatever raises. -/
structure Pruned (c : Calls T) (names : List String) (retentionDays maxTotalMb : Int) (r : Run) :
    Prop where
  /-- the result and the disk say what was unlinked -/
  unlinked : unlinkedIn r.trace = r.removed ∧ r.present = names.filter (· ∉ r.removed)
  once : (evaluatedIn r.trace).Nodup
  answers : ∀ s answer, Event.evaluated s answer ∈ r.trace →
    ∃ preserve n, c.preserve = some preserve ∧ preserve n s = answer
  spared : ∀ s answer, Event.evaluated s answer ∈ r.trace → answer ≠ .ok false → s ∉ r.removed
  asked : c.preserve.isSome → ∀ s ∈ r.removed, Event.evaluated s (.ok false) ∈ r.trace
  aged : ∀ s, Event.unlinked .age s ∈ r.trace →
    0 < retentionDays ∧ ∃ cutoff, c.cutoff retentionDays = some cutoff ∧ c.mtime s < cutoff
  sized : ∀ before s after, r.trace = before ++ .unlinked .size s :: after →
    0 < maxTotalMb ∧ Due c names (maxTotalMb * bytesPerMb) r.errors before s
  minimalAge : r.errors = [] → 0 < retentionDays → ∀ cutoff, c.cutoff retentionDays = some cutoff →
    ∀ s ∈ r.present, c.mtime s < cutoff → Event.evaluated s (.ok true) ∈ r.trace
  minimalSize : r.errors = [] → r.raised = false → 0 < maxTotalMb →
    totalSize c r.present ≤ maxTotalMb * bytesPerMb
      ∨ ∀ s ∈ r.present, Event.evaluated s (.ok true) ∈ r.trace

/-- A run that ends before the passes: it reports an error, there is no
shard, or the cutoff cannot be computed. -/
theorem Inv.untouched (h : Inv c names r) (hquiet : r.trace = []) {days : Int} (mb : Int)
    (hcause : r.errors ≠ [] ∨ names = [] ∨ r.raised = true ∧ c.cutoff days = none) :
    Pruned c names days mb r where
  unlinked := ⟨h.unlinked, h.present⟩
  once := h.once
  answers := h.heard
  spared := fun _ _ => h.spared
  asked := h.asked
  aged := by
    intro s hs
    rw [hquiet] at hs
    cases hs
  sized := by
    intro before s after hsplit
    rw [hquiet] at hsplit
    exact absurd hsplit.symm (by simp)
  minimalAge := by
    intro herrors hdays cutoff hcutoff s hs
    rcases hcause with hcause | rfl | ⟨-, hcause⟩
    · exact absurd herrors hcause
    · rw [h.present] at hs
      cases hs
    · rw [hcause] at hcutoff
      cases hcutoff
  minimalSize := by
    intro herrors hraised hmb
    rcases hcause with hcause | rfl | ⟨hcause, -⟩
    · exact absurd herrors hcause
    · refine Or.inr fun s hs => ?_
      rw [h.present] at hs
      cases hs
    · rw [hcause] at hraised
      cases hraised

omit [LinearOrder T] in
theorem inv_start (c : Calls T) (names : List String) : Inv c names { present := names } where
  present := by simp
  unlinked := rfl
  once := .nil
  memo := by simp
  asked := nofun
  noted := nofun
  heard := nofun

/-- The age pass, and that it ends with the cutoff only. -/
theorem agePrune_spec (hnodup : names.Nodup) (hperm : sorted.Perm names) (hinv : Inv c names r)
    (hquiet : r.trace = []) (hremoved : r.removed = []) (hraised : r.raised = false) (days : Int) :
    (c.cutoff days = none ∧ 0 < days ∧ agePrune c days sorted r = ({ r with raised := true }, sorted))
      ∨ ((agePrune c days sorted r).1.raised = false
        ∧ Inv c names (agePrune c days sorted r).1
        ∧ (agePrune c days sorted r).2 = sorted.filter (· ∉ (agePrune c days sorted r).1.removed)
        ∧ (∀ s, Event.unlinked .size s ∉ (agePrune c days sorted r).1.trace)
        ∧ (∀ s, Event.unlinked .age s ∈ (agePrune c days sorted r).1.trace →
            0 < days ∧ ∃ cutoff, c.cutoff days = some cutoff ∧ c.mtime s < cutoff)
        ∧ (0 < days → ∀ cutoff, c.cutoff days = some cutoff →
            ∀ s ∈ sorted, AgeSettled c cutoff (agePrune c days sorted r).1 s)) := by
  have hall : sorted.filter (· ∉ r.removed) = sorted := by simp [hremoved]
  by_cases hdays : 0 < days
  · cases hcutoff : c.cutoff days with
    | none =>
      refine Or.inl ⟨rfl, hdays, ?_⟩
      rw [agePrune, if_pos hdays, hcutoff]
    | some cutoff =>
      have hage : agePrune c days sorted r = sorted.foldl (ageStep c cutoff) (r, sorted) := by
        rw [agePrune, if_pos hdays, hcutoff]
      have hstart : AgeInv c names cutoff sorted (r, sorted) :=
        ⟨hinv, hall.symm, by simp [hquiet], by simp [hquiet]⟩
      obtain ⟨hpassed, hext, hsettled⟩ :=
        agePass_spec hnodup (hperm.nodup_iff.mpr hnodup) sorted hstart
      rw [hage]
      refine Or.inr ⟨hext.raised.trans hraised, hpassed.inv, hpassed.shards, hpassed.fresh, ?_, ?_⟩
      · exact fun s hs => ⟨hdays, cutoff, rfl, hpassed.old s hs⟩
      · intro _ cutoff' hcutoff'
        cases hcutoff'
        exact hsettled
  · have hage : agePrune c days sorted r = (r, sorted) := by rw [agePrune, if_neg hdays]
    rw [hage]
    exact Or.inr ⟨hraised, hinv, hall.symm, by simp [hquiet], by simp [hquiet],
      fun h => absurd h hdays⟩

/-- The two passes after each other. -/
theorem Pruned.of_passes {days mb : Int} (hperm : sorted.Perm names)
    (haged : ∀ s, Event.unlinked .age s ∈ r.trace →
      0 < days ∧ ∃ cutoff, c.cutoff days = some cutoff ∧ c.mtime s < cutoff)
    (hsettled : 0 < days → ∀ cutoff, c.cutoff days = some cutoff →
      ∀ s ∈ sorted, AgeSettled c cutoff r s)
    (h : SizePruned c names mb (sorted.filter (· ∉ r.removed)) r r') : Pruned c names days mb r' where
  unlinked := ⟨h.inv.unlinked, h.inv.present⟩
  once := h.inv.once
  answers := h.inv.heard
  spared := fun _ _ => h.inv.spared
  asked := h.inv.asked
  aged := fun s hs => haged s (h.age s hs)
  sized := h.sized
  minimalAge := by
    intro herrors hdays cutoff hcutoff s hs hold
    have hmem : s ∈ sorted := by
      rw [h.inv.present] at hs
      exact hperm.mem_iff.mpr (List.mem_filter.mp hs).1
    rcases h.extends_.ageSettled (hsettled hdays cutoff hcutoff s hmem) with
      hgone | hyoung | hkept | hfailed
    · exact absurd hgone (h.inv.not_removed hs)
    · exact absurd hold hyoung
    · exact h.inv.wanted herrors hkept
    · exact absurd herrors hfailed
  minimalSize := by
    intro herrors _ hmb
    refine (h.done hmb herrors).imp_right fun hall s hs => ?_
    have hgone := h.inv.not_removed hs
    have hmem : s ∈ sorted.filter (· ∉ r.removed) := by
      rw [h.inv.present] at hs
      have hbefore : s ∉ r.removed := fun hin => hgone (h.extends_.removed.subset hin)
      exact List.mem_filter.mpr ⟨hperm.mem_iff.mpr (List.mem_filter.mp hs).1, by simpa using hbefore⟩
    rcases hall s hmem with hin | hkept | ⟨e, he⟩
    · exact absurd hin hgone
    · exact h.inv.wanted herrors hkept
    · rw [herrors] at he
      cases he

theorem pruneJsonlShards_pruned (c : Calls T) (directory : Directory)
    (retentionDays maxTotalMb : Int) :
    Pruned c directory.names retentionDays maxTotalMb
      (pruneJsonlShards c directory retentionDays maxTotalMb) := by
  cases directory with
  | missing => exact (inv_start c []).untouched rfl _ (Or.inr (Or.inl rfl))
  | unreadable e =>
    exact ((inv_start c []).report _).untouched rfl _ (Or.inr (Or.inl rfl))
  | notDirectory => exact ((inv_start c []).report _).untouched rfl _ (Or.inr (Or.inl rfl))
  | listed listing =>
    have hnodup := listing.nodup
    have hstart : Inv c listing.names ({ present := listing.names } : Run).called :=
      (inv_start c listing.names).later 1
    rw [Directory.names, pruneJsonlShards]
    simp only
    cases hglob : c.fault 0 with
    | some e =>
      exact (hstart.report _).untouched rfl _ (Or.inl (List.cons_ne_nil _ _))
    | none =>
      simp only
      obtain ⟨n, hn⟩ := statEach_later c listing.names ({ present := listing.names } : Run).called
      have hinv := hstart.later n
      cases hkeyed : (statEach c listing.names ({ present := listing.names } : Run).called).2 with
      | some e =>
        simp only [hn]
        exact (hinv.report _).untouched rfl _ (Or.inl (List.cons_ne_nil _ _))
      | none =>
        simp only [hn]
        have hperm := sortOn_perm c.mtime listing.names
        rcases agePrune_spec hnodup hperm hinv rfl rfl rfl retentionDays with
          ⟨hnone, -, hage⟩ | ⟨hraised, hage, hshards, hfresh, haged, hsettled⟩
        · rw [hage, if_pos rfl]
          have hend : Inv c listing.names
              { ({ present := listing.names } : Run).called.later n with raised := true } :=
            ⟨hinv.present, hinv.unlinked, hinv.once, hinv.memo, hinv.asked, hinv.noted, hinv.heard⟩
          exact hend.untouched rfl _ (Or.inr (Or.inr ⟨rfl, hnone⟩))
        · rw [if_neg (by rw [hraised]; exact nofun)]
          have hsized := sizePrune_spec hnodup hperm
            (sortOn_stablySorted c.mtime listing.names).sorted hage hfresh maxTotalMb
          rw [← hshards] at hsized
          refine Pruned.of_passes hperm haged hsettled ?_
          rw [← hshards]
          exact hsized

/-! ## 7. The downstream records -/

/-- `Path(name).stem` -/
def stem (name : String) : String :=
  let suffix := (name.toList.reverse.takeWhile (· ≠ '.')).reverse
  let rest := name.toList.take (name.length - suffix.length - 1)
  if suffix.length < name.length ∧ rest ≠ [] ∧ suffix ≠ [] then String.ofList rest else name

/-- `shard.stem.split("_", 1)[0]` -/
def shardMonth (name : String) : String := String.ofList ((stem name).toList.takeWhile (· ≠ '_'))

/-- `preserve_current_month` -/
def preserveCurrentMonth (currentMonth : String) : Nat → String → Except String Bool :=
  fun _ shard => .ok (shardMonth shard == currentMonth)

/-- The calls of `prune_downstream_records`. -/
def Calls.downstream (c : Calls T) (currentMonth : String) : Calls T :=
  { c with preserve := some (preserveCurrentMonth currentMonth) }

/-- `prune_downstream_records` -/
def pruneDownstreamRecords (c : Calls T) (currentMonth : String) (directory : Directory)
    (retentionDays maxTotalMb : Int) : Run :=
  pruneJsonlShards (c.downstream currentMonth) directory retentionDays maxTotalMb

/-- The shards of the current month stay. -/
theorem pruneDownstreamRecords_month {currentMonth : String} {days mb : Int}
    (h : Pruned (c.downstream currentMonth) names days mb r) (hs : shard ∈ r.removed) :
    shardMonth shard ≠ currentMonth := by
  intro hmonth
  obtain ⟨preserve, n, hpreserve, hanswer⟩ := h.answers shard _ (h.asked rfl shard hs)
  cases hpreserve
  rw [preserveCurrentMonth, hmonth] at hanswer
  have hdecision := Except.ok.inj hanswer
  rw [beq_self_eq_true] at hdecision
  cases hdecision

/-- **Pruning is safe and minimal**, for any shards, bounds and callback and
whichever calls raise; the downstream records keep the current month. -/
theorem shard_pruning (c : Calls T) (directory : Directory) (retentionDays maxTotalMb : Int) :
    Pruned c directory.names retentionDays maxTotalMb
        (pruneJsonlShards c directory retentionDays maxTotalMb)
      ∧ ∀ currentMonth,
        Pruned (c.downstream currentMonth) directory.names retentionDays maxTotalMb
            (pruneDownstreamRecords c currentMonth directory retentionDays maxTotalMb)
          ∧ ∀ s ∈ (pruneDownstreamRecords c currentMonth directory retentionDays maxTotalMb).removed,
            shardMonth s ≠ currentMonth := by
  refine ⟨pruneJsonlShards_pruned c directory retentionDays maxTotalMb, fun currentMonth => ?_⟩
  have hpruned := pruneJsonlShards_pruned (c.downstream currentMonth) directory retentionDays
    maxTotalMb
  exact ⟨hpruned, fun s => pruneDownstreamRecords_month hpruned⟩

end MultiForge.Telemetry.Retention
