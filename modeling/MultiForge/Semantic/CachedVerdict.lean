/-
MultiForge.Semantic.CachedVerdict — `SemanticSupervisorPolicy`: verdicts
that are reused.

A run is any sequence of evaluations, of saving the cache's state, and of
new policies that start from a state saved before. Each evaluation has its
own configuration, lane, plan file and clock. The world keeps a log of what
was decided; every entry of a cache goes back to an evaluation in the log
that asked the supervisor (`World.Backed`).

A key holds the target path as the context has it. It is relative to the
working directory, which the key leaves out, so a verdict about one file is
served for another one with the same relative path
(`replayed_elsewhere`). Where a path stands for one file only, a verdict is
served for its own question (`served_justified`).
-/
import MultiForge.Semantic.Question
import MultiForge.Semantic.ThrottleCache

namespace MultiForge.Semantic

open MultiForge.Engine

variable {F : Type} [PyFloatText F] {sha : Sha256}

/-! ## 1. One evaluation -/

/-- What becomes of the record of a cached review. -/
inductive Evidence where
  | saved
  | unsaved
  | unavailable (error : String)

/-- An evaluation and what it meets: the files when the plan is read, the
clock when the cache is asked and when the answer is there, and the answer
of `invoke_supervisor`. -/
structure Occasion (F : Type) [PyFloatText F] (sha : Sha256) where
  config : SupervisorConfig
  lane : Option LaneRecord
  question : Question F sha
  files : String → Option PlanFile
  now : Int
  answer : Except String PolicyDecision
  done : Int
  evidence : Evidence

/-- What an evaluation comes to. -/
inductive Outcome where
  | unasked (decision : PolicyDecision)
  | served (decision : PolicyDecision)
  | unrecorded (decision : PolicyDecision)
  | asked (decision : PolicyDecision)
  | raised (error : String)

/-- An allow with no warning and no failure. -/
def cleanAllow (decision : PolicyDecision) : Bool :=
  decision.decision == .allow && decision.warnings.isEmpty && !decision.failOpen
    && !given decision.failureType

/-- A cached entry that says so. -/
def CacheEntry.clean (entry : CacheEntry) : Bool :=
  entry.verdict == some "aligned" && entry.confidence == some 1

def supervisorId : String := "semantic.supervisor"

def supervisorIntent : String :=
  "Ensure implementation stays aligned with the approved plan. The supervisor "
    ++ "checks that code changes match what was agreed upon, catching drift before "
    ++ "it compounds."

/-- `_supervisor_fail_open_decision` -/
def failOpenDecision (warning failureType : String) : PolicyDecision where
  decision := .allow
  policyId := supervisorId
  warnings := [warning]
  failOpen := true
  failureType := some failureType

/-- The intent of a finding. -/
def withIntent (decision : PolicyDecision) : PolicyDecision :=
  if decision.decision = .deny ∨ decision.decision = .warn then
    { decision with intent := some supervisorIntent } else decision

namespace Occasion

def snapshot (o : Occasion F sha) : PlanSnapshot := readPlan sha o.files o.config

/-- Whether a plan override is configured. -/
def overridden (o : Occasion F sha) : Bool := given o.config.planOverridePath

def planPart (o : Occasion F sha) : String :=
  if o.overridden then "|plan:" ++ o.snapshot.fingerprint else ""

/-- The key of a verdict. -/
def cacheKey (o : Occasion F sha) : String :=
  o.question.fingerprint ++ "|reviewer:" ++ reviewerCacheIdentity o.config o.lane ++ o.planPart

/-- The entry that the cache has for the key; native sources ask for none. -/
def cached (o : Occasion F sha) (cache : Cache) : Option CacheEntry :=
  if o.config.nativeSource.isSome then none
  else cache.check o.config.throttleSeconds o.now o.cacheKey

/-- The decision on a cached entry, and its record. -/
def serve (o : Occasion F sha) : Outcome :=
  match o.evidence with
  | .saved => .served { decision := .allow, policyId := supervisorId }
  | .unsaved => .served {
      decision := .allow
      policyId := supervisorId
      warnings := ["Supervisor evidence could not be saved; the review verdict is unchanged."] }
  | .unavailable error => .unrecorded
      (failOpenDecision s!"Review evidence unavailable: {error}" "evidence_unavailable")

/-- `SemanticSupervisorPolicy._evaluate` -/
def evaluate (o : Occasion F sha) (cache : Cache) : Outcome × Cache :=
  if ¬ o.config.configured then
    (.unasked {
      decision := .allow
      policyId := supervisorId
      warnings := ["Supervisor not configured"] }, cache)
  else if o.config.suspended then
    (.unasked { decision := .allow, policyId := supervisorId }, cache)
  else
    if (o.cached cache).any CacheEntry.clean then (o.serve, cache)
    else match o.answer with
      | .error error => (.raised error, cache)
      | .ok answer =>
          let decision := withIntent answer
          (.asked decision,
            if cleanAllow decision ∧ o.config.nativeSource.isNone then
              cache.update o.done o.cacheKey "aligned" 1
            else cache)

/-! ## 2. What an evaluation can do -/

theorem cached_eq_some {o : Occasion F sha} {cache : Cache} {entry : CacheEntry}
    (h : o.cached cache = some entry) :
    (o.cacheKey, entry) ∈ cache.entries
      ∧ ∃ t, entry.checkedAt = some t ∧ o.now - t < o.config.throttleSeconds * second := by
  unfold cached at h
  split at h
  · cases h
  · exact Cache.check_eq_some h

theorem serve_eq_served {o : Occasion F sha} {d : PolicyDecision} (h : o.serve = .served d) :
    d.decision = .allow := by
  unfold serve at h
  split at h
  · rw [← Outcome.served.inj h]
  · rw [← Outcome.served.inj h]
  · cases h

/-- A verdict is served from an entry that is not too old. -/
theorem evaluate_served {o : Occasion F sha} {cache : Cache} {d : PolicyDecision}
    (h : (o.evaluate cache).1 = .served d) :
    d.decision = .allow ∧ ∃ entry t, (o.cacheKey, entry) ∈ cache.entries
      ∧ entry.checkedAt = some t ∧ o.now - t < o.config.throttleSeconds * second := by
  unfold evaluate at h
  split at h
  · cases h
  · split at h
    · cases h
    · split at h
      · rename_i hclean
        obtain ⟨entry, hentry, -⟩ := (Option.any_eq_true _ _).mp hclean
        obtain ⟨hmem, t, ht, hage⟩ := cached_eq_some hentry
        exact ⟨serve_eq_served h, entry, t, hmem, ht, hage⟩
      · split at h <;> cases h

/-- An evaluation keeps the cache or puts its own clean verdict there. -/
theorem evaluate_cache (o : Occasion F sha) (cache : Cache) :
    (o.evaluate cache).2 = cache
      ∨ ∃ d, (o.evaluate cache).1 = .asked d ∧ cleanAllow d = true
        ∧ (o.evaluate cache).2 = cache.update o.done o.cacheKey "aligned" 1 := by
  unfold evaluate
  split
  · exact .inl rfl
  · split
    · exact .inl rfl
    · split
      · exact .inl rfl
      · split
        · exact .inl rfl
        · dsimp only
          split
          · rename_i hclean
            exact .inr ⟨_, rfl, hclean.1, rfl⟩
          · exact .inl rfl

end Occasion

/-! ## 3. Runs -/

/-- What happens to a session's supervisor. -/
inductive Event (F : Type) [PyFloatText F] (sha : Sha256) where
  | evaluate (o : Occasion F sha)
  | persist
  | restore (n : Nat)

/-- The cache of the policy that runs, what was saved, and what was decided. -/
structure World (F : Type) [PyFloatText F] (sha : Sha256) where
  cache : Cache := Dict.empty
  stored : List Cache := []
  log : List (Occasion F sha × Outcome) := []

namespace World

/-- A new policy has the `n`-th saved state, or none. -/
def step (w : World F sha) : Event F sha → World F sha
  | .evaluate o =>
      { w with
        cache := (o.evaluate w.cache).2
        log := w.log ++ [(o, (o.evaluate w.cache).1)] }
  | .persist => { w with stored := w.stored ++ [w.cache.getState] }
  | .restore n => { w with cache := (w.stored[n]?).getD Dict.empty }

def run (events : List (Event F sha)) : World F sha := events.foldl step {}

theorem run_snoc (events : List (Event F sha)) (e : Event F sha) :
    run (events ++ [e]) = (run events).step e := by
  rw [run, List.foldl_append]
  rfl

/-- An entry that an evaluation of the log put there. -/
def Backing (log : List (Occasion F sha × Outcome)) (e : String × CacheEntry) : Prop :=
  ∃ o d, (o, Outcome.asked d) ∈ log ∧ cleanAllow d = true
    ∧ e = (o.cacheKey, ⟨some (nowIso o.done), some "aligned", some 1⟩)

theorem Backing.mono {log log' : List (Occasion F sha × Outcome)} {e : String × CacheEntry}
    (h : Backing log e) (hsub : ∀ x ∈ log, x ∈ log') : Backing log' e := by
  obtain ⟨o, d, hmem, hclean, he⟩ := h
  exact ⟨o, d, hsub _ hmem, hclean, he⟩

/-- An evaluation of the log that a served verdict is due to. -/
def Source (log : List (Occasion F sha × Outcome)) (o : Occasion F sha) : Prop :=
  ∃ o' d', (o', Outcome.asked d') ∈ log ∧ cleanAllow d' = true ∧ o'.cacheKey = o.cacheKey
    ∧ o.now - nowIso o'.done < o.config.throttleSeconds * second

/-- Every entry is backed by the log, and so is every verdict that was
served by what was there before it. -/
structure Backed (w : World F sha) : Prop where
  cache : ∀ e ∈ w.cache.entries, Backing w.log e
  stored : ∀ c ∈ w.stored, ∀ e ∈ c.entries, Backing w.log e
  served : ∀ before o d after, w.log = before ++ (o, .served d) :: after →
    d.decision = .allow ∧ Source before o

/-- Where the last entry of a list is. -/
private theorem snoc_eq_append_cons {α : Type} {l before after : List α} {x y : α}
    (h : l ++ [x] = before ++ y :: after) :
    (after = [] ∧ before = l ∧ y = x) ∨ ∃ after', after = after' ++ [x] ∧ l = before ++ y :: after' := by
  rcases List.eq_nil_or_concat after with rfl | ⟨after', z, rfl⟩
  · obtain ⟨hl, hx⟩ := List.append_inj' h rfl
    exact .inl ⟨rfl, hl.symm, (List.singleton_inj.mp hx).symm⟩
  · rw [List.concat_eq_append, ← List.cons_append, ← List.append_assoc] at h
    obtain ⟨hl, hx⟩ := List.append_inj' h rfl
    refine .inr ⟨after', ?_, hl⟩
    rw [List.concat_eq_append, ← List.singleton_inj.mp hx]

theorem Backed.evaluate {w : World F sha} (h : w.Backed) (o : Occasion F sha) :
    (w.step (.evaluate o)).Backed where
  cache := by
    intro e he
    have hold : ∀ e ∈ w.cache.entries, Backing (w.step (.evaluate o)).log e := fun e he =>
      (h.cache e he).mono fun x hx => List.mem_append_left _ hx
    rcases o.evaluate_cache w.cache with hsame | ⟨d, hasked, hclean, hupdate⟩
    · have he' : e ∈ (o.evaluate w.cache).2.entries := he
      rw [hsame] at he'
      exact hold e he'
    · have he' : e ∈ (o.evaluate w.cache).2.entries := he
      rw [hupdate] at he'
      rcases Cache.mem_update he' with hmem | rfl
      · exact hold e hmem
      · refine ⟨o, d, ?_, hclean, rfl⟩
        rw [← hasked]
        exact List.mem_append_right _ (List.mem_singleton_self _)
  stored := by
    intro c hc e he
    exact (h.stored c hc e he).mono fun x hx => List.mem_append_left _ hx
  served := by
    intro before o' d after hlog
    rcases snoc_eq_append_cons hlog with ⟨-, rfl, hlast⟩ | ⟨after', -, hbefore⟩
    · obtain ⟨rfl, hserved⟩ := Prod.mk.inj hlast
      obtain ⟨hallow, entry, t, hmem, ht, hage⟩ := Occasion.evaluate_served hserved.symm
      obtain ⟨o', d', hlog', hclean, heq⟩ := h.cache _ hmem
      obtain ⟨hkey, rfl⟩ := Prod.mk.inj heq
      obtain rfl := Option.some.inj ht
      exact ⟨hallow, o', d', hlog', hclean, hkey.symm, hage⟩
    · exact h.served before o' d after' hbefore

theorem Backed.step {w : World F sha} (h : w.Backed) : ∀ e : Event F sha, (w.step e).Backed
  | .evaluate o => h.evaluate o
  | .persist => {
      cache := h.cache
      stored := by
        intro c hc e he
        rcases List.mem_append.mp hc with hc | hc
        · exact h.stored c hc e he
        · rw [List.mem_singleton.mp hc] at he
          exact h.cache e (Cache.mem_getState he)
      served := h.served }
  | .restore n => {
      cache := by
        intro e he
        have he' : e ∈ ((w.stored[n]?).getD Dict.empty).entries := he
        cases hstored : w.stored[n]? with
        | none =>
          rw [hstored] at he'
          cases he'
        | some c =>
          rw [hstored] at he'
          exact h.stored c (List.mem_of_getElem? hstored) e he'
      stored := h.stored
      served := h.served }

/-- **In every run every entry and every served verdict is backed.** -/
theorem backed_run (events : List (Event F sha)) : (run events).Backed := by
  induction events using List.reverseRecOn with
  | nil =>
    refine ⟨?_, ?_, ?_⟩
    · intro e he
      cases he
    · intro c hc
      cases hc
    · intro before o d after h
      have hlog : ([] : List (Occasion F sha × Outcome)) = before ++ (o, .served d) :: after := h
      simp at hlog
  | append_singleton events e ih =>
    rw [run_snoc]
    exact ih.step e

end World

/-! ## 4. What a key tells -/

namespace Occasion

variable {o o' : Occasion F sha}

theorem numEnd_planPart (o : Occasion F sha) : Json.NumEnd o.planPart.toList := by
  unfold planPart
  split
  · rw [String.toList_append]
    exact Json.NumEnd.cons (c := '|') (by decide)
  · exact Json.NumEnd.nil

/-- The parts of a key can be read off it. -/
theorem parts_of_cacheKey_eq (h : o.cacheKey = o'.cacheKey) :
    o.question.fingerprint = o'.question.fingerprint
      ∧ o.config.reviewer o.lane = o'.config.reviewer o'.lane ∧ o.planPart = o'.planPart := by
  have hlength : o.question.fingerprint.toList.length = o'.question.fingerprint.toList.length := by
    rw [Question.fingerprint_eq, Question.fingerprint_eq, sha.length, sha.length]
  have hlist := congrArg String.toList h
  simp only [cacheKey, String.toList_append, List.append_assoc] at hlist
  obtain ⟨hfingerprint, hrest⟩ := List.append_inj hlist hlength
  obtain ⟨hreviewer, hplan⟩ := reviewer_of_identity_append o.numEnd_planPart o'.numEnd_planPart
    (List.append_cancel_left hrest)
  exact ⟨String.toList_injective hfingerprint, hreviewer, String.toList_injective hplan⟩

theorem overridden_of_planPart_eq (h : o.planPart = o'.planPart) :
    o.overridden = o'.overridden
      ∧ (o.overridden = true → o.snapshot.fingerprint = o'.snapshot.fingerprint) := by
  have hne : ∀ s : String, "|plan:" ++ s ≠ "" := by
    intro s hs
    have hlist := congrArg String.toList hs
    rw [String.toList_append] at hlist
    cases hlist
  unfold planPart at h
  cases ho : o.overridden with
  | false =>
    cases ho' : o'.overridden with
    | false => simp
    | true =>
      simp only [ho, ho', Bool.false_eq_true, if_false, if_true] at h
      exact absurd h.symm (hne _)
  | true =>
    cases ho' : o'.overridden with
    | false =>
      simp only [ho, ho', Bool.false_eq_true, if_false, if_true] at h
      exact absurd h (hne _)
    | true =>
      simp only [ho, ho', if_true] at h
      exact ⟨rfl, fun _ => (String.append_right_inj _).mp h⟩

/-- Without an override there is no plan. -/
theorem snapshot_text_of_not_overridden (h : o.overridden = false) : o.snapshot.text = none := by
  have hgiven : ¬ given o.config.planOverridePath = true := by
    rw [← overridden, h]
    simp
  rw [snapshot, readPlan, if_neg hgiven]

end Occasion

/-! ## 5. Served verdicts -/

/-- The evaluations of a run. -/
def occasions (events : List (Event F sha)) : List (Occasion F sha) :=
  events.filterMap fun e => match e with
    | .evaluate o => some o
    | _ => none

theorem run_log (events : List (Event F sha)) :
    (World.run events).log.map Prod.fst = occasions events := by
  induction events using List.reverseRecOn with
  | nil => rfl
  | append_singleton events e ih =>
    rw [World.run_snoc, occasions, List.filterMap_append, ← occasions, ← ih]
    cases e <;> simp [World.step]

/-- The clock does not go back, and no two actions and no two plans of the
run have one digest. -/
structure Admissible (os : List (Occasion F sha)) : Prop where
  ordered : os.Pairwise fun o o' => o.done ≤ o'.now
  actions : sha.Distinct (os.map fun o => o.question.canonical)
  plans : sha.Distinct (os.filterMap fun o => o.snapshot.text)

/-- A target path stands for one file in all evaluations. -/
def OneFilePerPath (os : List (Occasion F sha)) : Prop :=
  ∀ o ∈ os, ∀ o' ∈ os, o.question.ctx.targetPath = o'.question.ctx.targetPath →
    o.question.file = o'.question.file

/-- The evaluation `o'` answered the question of `o`, and not too long
before. -/
structure Answers (o' o : Occasion F sha) : Prop where
  recent : o'.done ≤ o.now ∧ o.now - o'.done ≤ o.config.throttleSeconds * second
  tool : o'.question.ctx.toolName = o.question.ctx.toolName
  file : o'.question.file = o.question.file
  change : o'.question.change = o.question.change
  plan : o'.overridden = o.overridden ∧ o'.snapshot.text = o.snapshot.text
  reviewer : o'.config.reviewer o'.lane = o.config.reviewer o.lane

/-- Every verdict that was served is a clean allow that an earlier
evaluation got for the same question. -/
def ServedJustly (events : List (Event F sha)) : Prop :=
  ∀ before o d after, (World.run events).log = before ++ (o, .served d) :: after →
    d.decision = .allow
      ∧ ∃ o' d', (o', Outcome.asked d') ∈ before ∧ cleanAllow d' = true ∧ Answers o' o

/-- **Where a path stands for one file**, a verdict is served for the
question it answered only. -/
theorem served_justified (events : List (Event F sha)) (h : Admissible (occasions events))
    (hfile : OneFilePerPath (occasions events)) : ServedJustly events := by
  intro before o d after hlog
  obtain ⟨hallow, o', d', hmem, hclean, hkey, hage⟩ :=
    (World.backed_run events).served before o d after hlog
  have hos : occasions events = before.map Prod.fst ++ o :: after.map Prod.fst := by
    rw [← run_log, hlog, List.map_append, List.map_cons]
  have ho' : o' ∈ before.map Prod.fst := List.mem_map.mpr ⟨_, hmem, rfl⟩
  have ho'mem : o' ∈ occasions events := by
    rw [hos]
    exact List.mem_append_left _ ho'
  have homem : o ∈ occasions events := by
    rw [hos]
    exact List.mem_append_right _ List.mem_cons_self
  have hbefore : o'.done ≤ o.now := by
    have hordered := h.ordered
    rw [hos, List.pairwise_append] at hordered
    exact hordered.2.2 o' ho' o List.mem_cons_self
  obtain ⟨hfingerprint, hreviewer, hplan⟩ := Occasion.parts_of_cacheKey_eq hkey
  rw [Question.fingerprint_eq, Question.fingerprint_eq] at hfingerprint
  have hcanonical := h.actions _ (List.mem_map.mpr ⟨o', ho'mem, rfl⟩) _
    (List.mem_map.mpr ⟨o, homem, rfl⟩) hfingerprint
  obtain ⟨htool, htarget, hchange⟩ := Question.eq_of_canonical_eq hcanonical
  obtain ⟨hoverridden, hfingerprints⟩ := Occasion.overridden_of_planPart_eq hplan
  have htext : o'.snapshot.text = o.snapshot.text := by
    cases hov : o'.overridden with
    | false =>
      rw [Occasion.snapshot_text_of_not_overridden hov,
        Occasion.snapshot_text_of_not_overridden (hoverridden ▸ hov)]
    | true =>
      refine text_eq_of_fingerprint_eq ?_ (hfingerprints hov)
      have hread : ∀ p ∈ occasions events, ∀ t ∈ p.snapshot.text.toList,
          t ∈ (occasions events).filterMap fun o => o.snapshot.text := by
        intro p hp t ht
        exact List.mem_filterMap.mpr ⟨p, hp, Option.mem_toList.mp ht⟩
      intro a ha b hb
      refine h.plans a ?_ b ?_
      · rcases List.mem_append.mp ha with ha | ha
        · exact hread o' ho'mem a ha
        · exact hread o homem a ha
      · rcases List.mem_append.mp hb with hb | hb
        · exact hread o' ho'mem b hb
        · exact hread o homem b hb
  have hwhole := nowIso_le o'.done
  exact ⟨hallow, o', d', hmem, hclean, {
    recent := ⟨hbefore, by omega⟩
    tool := htool
    file := hfile o' ho'mem o homem htarget
    change := hchange
    plan := ⟨hoverridden, htext⟩
    reviewer := hreviewer }⟩

/-! ## 6. One verdict, asked for once and served once -/

/-- An allow of the supervisor. -/
def alignedDecision : PolicyDecision where
  decision := .allow
  policyId := supervisorId

/-- The log when the second of two evaluations with one key comes soon
after a clean allow. -/
theorem log_of_soon {o o' : Occasion F sha} (hconfig : o'.config = o.config)
    (hconfigured : o.config.configured = true) (hactive : o.config.suspended = false)
    (hnative : o.config.nativeSource = none) (hanswer : o.answer = .ok alignedDecision)
    (hkey : o'.cacheKey = o.cacheKey) (hevidence : o'.evidence = .saved)
    (hsoon : o'.now - nowIso o.done < o.config.throttleSeconds * second) :
    (World.run [.evaluate o, .persist, .restore 0, .evaluate o']).log
      = [(o, .asked alignedDecision), (o', .served alignedDecision)] := by
  have hfirst : o.evaluate Dict.empty = (.asked alignedDecision,
      Cache.update Dict.empty o.done o.cacheKey "aligned" 1) := by
    have hnone : (o.cached Dict.empty).any CacheEntry.clean = false := by
      simp [Occasion.cached, hnative, Cache.check]
    have hclean : cleanAllow (withIntent alignedDecision) = true := by decide
    simp [Occasion.evaluate, hconfigured, hactive, hnone, hanswer, hclean, hnative]
    rfl
  have hstate : (Cache.update Dict.empty o.done o.cacheKey "aligned" 1).getState
      = Cache.update Dict.empty o.done o.cacheKey "aligned" 1 :=
    Cache.getState_of_le (Nat.le_add_left 1 49)
  have hcached : o'.cached (Cache.update Dict.empty o.done o.cacheKey "aligned" 1)
      = some ⟨some (nowIso o.done), some "aligned", some 1⟩ := by
    have hget : (Cache.update Dict.empty o.done o.cacheKey "aligned" 1).get? o'.cacheKey
        = some ⟨some (nowIso o.done), some "aligned", some 1⟩ := by
      rw [Cache.update, Dict.get?_set, if_pos hkey]
    rw [Occasion.cached, hconfig, hnative, Cache.check, hget]
    exact if_pos hsoon
  have hsecond : (o'.evaluate (Cache.update Dict.empty o.done o.cacheKey "aligned" 1)).1
      = .served alignedDecision := by
    simp [Occasion.evaluate, hconfig, hconfigured, hactive, hcached, CacheEntry.clean,
      Occasion.serve, hevidence]
    rfl
  simp [World.run, World.step, hfirst, hstate, hsecond]

/-- SHA-256 on the one text that the runs below hash. -/
def editSha : Sha256 where
  hexdigest text :=
    if text = "\x7b\"content\":\x7b\"kind\":\"edit_fragments\",\"new_string\":\"debug = True\","
      ++ "\"old_string\":\"debug = False\",\"replace_all\":false\x7d,"
      ++ "\"schema\":\"forge-policy-action-v1\",\"target_path\":\"config.py\","
      ++ "\"tool_name\":\"Edit\"\x7d"
    then "01271803ed5b3dd3b5d5044225e9f4cc6a413d933faa6e5267f410cc1967360b"
    else "0000000000000000000000000000000000000000000000000000000000000000"
  isSha256 := by
    intro text
    split
    · decide +kernel
    · decide +kernel

def editArgs (cwd : String) : List (String × Json FloatText) :=
  [("file_path", .str (cwd ++ "/config.py")), ("old_string", .str "debug = False"),
    ("new_string", .str "debug = True")]

/-- Editing `config.py` in a working directory. -/
def editIn (cwd : String) : Question FloatText editSha where
  ctx := {
    origin := "claude_code"
    event := "PreToolUse.Edit"
    toolName := "Edit"
    repoRoot := cwd
    sessionName := "work"
    targetPath := some "config.py"
    newContent := some "debug = True"
    actionFingerprint := some (computeActionFingerprint editSha.hexdigest "Edit" (some "config.py")
      (editArgs cwd) (some "debug = True") none) }
  toolArgs := editArgs cwd
  newContent := some "debug = True"
  rawDiff := none
  complete := actionFingerprint_of_some rfl (editSha.isSha256 _)

/-- The supervisor allows the edit at once, `start` seconds after the epoch. -/
def reviewIn (cwd : String) (start : Int) : Occasion FloatText editSha where
  config := { resumeId := some "planner" }
  lane := none
  question := editIn cwd
  files := fun _ => none
  now := start * second
  answer := .ok alignedDecision
  done := (start + 1) * second
  evidence := .saved

/-- The action's text does not have the working directory. -/
theorem canonical_editIn (cwd cwd' : String) : (editIn cwd).canonical = (editIn cwd').canonical := by
  have hpayload : ∀ cwd, (editIn cwd).canonical
      = canonicalText (actionPayload "Edit" (some "config.py")
          [("old_string", .str "debug = False"), ("new_string", .str "debug = True")]
          (some "debug = True") none : Json FloatText) := by
    intro cwd
    rfl
  rw [hpayload cwd, hpayload cwd']

theorem cacheKey_reviewIn (cwd cwd' : String) (start start' : Int) :
    (reviewIn cwd start).cacheKey = (reviewIn cwd' start').cacheKey := by
  have hfingerprint : (editIn cwd).fingerprint = (editIn cwd').fingerprint := by
    rw [Question.fingerprint_eq, Question.fingerprint_eq, canonical_editIn cwd cwd']
  show (editIn cwd).fingerprint ++ _ ++ _ ++ _ = (editIn cwd').fingerprint ++ _ ++ _ ++ _
  rw [hfingerprint]
  rfl

/-- Two edits ten seconds apart, with the state saved and read between. -/
def twice (cwd cwd' : String) : List (Event FloatText editSha) :=
  [.evaluate (reviewIn cwd 0), .persist, .restore 0, .evaluate (reviewIn cwd' 10)]

theorem log_twice (cwd cwd' : String) : (World.run (twice cwd cwd')).log
    = [(reviewIn cwd 0, .asked alignedDecision), (reviewIn cwd' 10, .served alignedDecision)] :=
  log_of_soon rfl rfl rfl rfl rfl (cacheKey_reviewIn _ _ _ _) rfl (by
    show 10 * second - nowIso ((0 + 1) * second) < 30 * second
    decide)

theorem admissible_twice (cwd cwd' : String) : Admissible (occasions (twice cwd cwd')) where
  ordered := by
    refine List.Pairwise.cons ?_ (List.pairwise_singleton _ _)
    intro o ho
    obtain rfl := List.mem_singleton.mp ho
    show (0 + 1) * second ≤ 10 * second
    decide
  actions := by
    intro a ha b hb _
    have hone : ∀ c ∈ (occasions (twice cwd cwd')).map fun o => o.question.canonical,
        c = (editIn cwd).canonical := by
      intro c hc
      simp only [twice, occasions, List.filterMap_cons, List.filterMap_nil, List.map_cons,
        List.map_nil, List.mem_cons, List.not_mem_nil, or_false] at hc
      rcases hc with rfl | rfl
      · rfl
      · exact canonical_editIn _ _
    rw [hone a ha, hone b hb]
  plans := by
    intro a ha
    cases ha

/-- The same edit twice in one directory: the second is served justly. -/
theorem served_justified_twice : ServedJustly (twice "/repo" "/repo") :=
  served_justified (twice "/repo" "/repo") (admissible_twice _ _) (by
    intro o ho o' ho' _
    have hone : ∀ p ∈ occasions (twice "/repo" "/repo"), p.question = editIn "/repo" := by
      intro p hp
      simp only [twice, occasions, List.filterMap_cons, List.filterMap_nil, List.mem_cons,
        List.not_mem_nil, or_false] at hp
      rcases hp with rfl | rfl <;> rfl
    rw [hone o ho, hone o' ho'])

/-- The verdict on one checkout's file is served for another's. -/
theorem replayed_elsewhere : Admissible (occasions (twice "/repo/api" "/repo/web"))
    ∧ ¬ ServedJustly (twice "/repo/api" "/repo/web") := by
  refine ⟨admissible_twice _ _, ?_⟩
  intro h
  obtain ⟨-, o', d', hmem, -, hanswers⟩ :=
    h [(reviewIn "/repo/api" 0, .asked alignedDecision)] (reviewIn "/repo/web" 10) alignedDecision
      [] (log_twice _ _)
  obtain rfl := (Prod.mk.inj (List.mem_singleton.mp hmem)).1
  have hfile : some (joinPath "/repo/api" "config.py") = some (joinPath "/repo/web" "config.py") :=
    hanswers.file
  revert hfile
  decide +kernel

end MultiForge.Semantic
