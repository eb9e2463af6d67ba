/-
MultiForge.Telemetry.MigrationRuns — the migration of retention settings,
cut short any number of times.

Between two writes some proxies are settled and the others are as they
were, under a global file that already says what they said (`Midway`). What
the configuration resolves to does not change, and a run that is not cut
short gets to the same files whatever went before it.
-/
import MultiForge.Telemetry.MigratedFiles

namespace MultiForge.Telemetry.RetentionMigration

/-! ## 1. Directories -/

section Directory

variable {paths : Paths}

/-- A directory with some of its files settled. -/
def settleSome (paths : Paths) (done : String → Bool) : ProxyDir → ProxyDir
  | .listed ids file => .listed ids (mixed paths ids file done)
  | other => other

theorem settleSome_none (d : ProxyDir) : settleSome paths (fun _ => false) d = d := by
  cases d <;> rfl

theorem readable_listed {ids : List String} {file : String → ProxyFile} :
    (readLegacyRetention paths (.listed ids file)).2 = [] ↔
      ∀ id ∈ ids, (readLegacyProxy paths file id).2 = [] :=
  collect_errors.trans (forall_congr' fun _ => imp_congr_left mem_sortedTexts)

/-- Settling makes no file unreadable. -/
theorem readable_settleSome {d : ProxyDir} (h : (readLegacyRetention paths d).2 = [])
    (done : String → Bool) : (readLegacyRetention paths (settleSome paths done d)).2 = [] := by
  cases d with
  | missing | invalid => exact h
  | listed ids file =>
    rw [readable_listed] at h
    show (readLegacyRetention paths (.listed ids (mixed paths ids file done))).2 = []
    refine readable_listed.mpr fun id hid => ?_
    rw [readLegacyProxy_mixed hid (h id hid)]
    split
    · rfl
    · exact h id hid

/-- No setting is negative. -/
theorem bound_of_mem {d : ProxyDir} {item : DeprecatedKey}
    (h : item ∈ (readLegacyRetention paths d).1) : 0 ≤ item.value := by
  cases d with
  | missing | invalid => cases h
  | listed ids file =>
    obtain ⟨id, -, hid⟩ := mem_allKeys.mp h
    unfold readLegacyProxy at hid
    split at hid
    · cases hid
    · obtain ⟨sect, -, hs⟩ := collect_keys.mp hid
      unfold readLegacySection at hs
      split at hs
      · cases hs
      · obtain ⟨field, -, hf⟩ := collect_keys.mp hs
        exact (readLegacyField_keys hf).bound
      · cases hs
    · cases hid

/-- Nothing is left in a settled directory. -/
theorem settleSome_all {d : ProxyDir} (h : (readLegacyRetention paths d).2 = []) :
    (readLegacyRetention paths (settleSome paths (fun _ => true) d)).1 = [] := by
  cases d with
  | missing | invalid => rfl
  | listed ids file =>
    rw [readable_listed] at h
    refine List.eq_nil_iff_forall_not_mem.mpr fun item hitem => ?_
    obtain ⟨id, hid, hmem⟩ := mem_allKeys.mp hitem
    rw [readLegacyProxy_mixed hid (h id hid)] at hmem
    cases hmem

/-- The proxies of a plan, all of them or the first few. -/
theorem performAll_settleSome {d : ProxyDir} (h : (readLegacyRetention paths d).2 = [])
    (done : String → Bool) (g : GlobalFile) (n : Nat) : ∃ done' : String → Bool,
      performAll paths (((migrationTargets
          (readLegacyRetention paths (settleSome paths done d)).1).map Write.proxy).take n)
        ⟨g, settleSome paths done d⟩ = .ok ⟨g, settleSome paths done' d⟩ ∧
      ((migrationTargets (readLegacyRetention paths (settleSome paths done d)).1).length ≤ n →
        settleSome paths done' d = settleSome paths (fun _ => true) d) := by
  cases d with
  | missing =>
    refine ⟨done, ?_, fun _ => rfl⟩
    have hnil : migrationTargets
        (readLegacyRetention paths (settleSome paths done .missing)).1 = [] := migrationTargets_nil
    rw [hnil, List.map_nil, List.take_nil]
    rfl
  | invalid => cases h
  | listed ids file =>
    rw [readable_listed] at h
    obtain ⟨tids, hnodup, hmem, htargets⟩ :=
      migrationTargets_eq paths ids (mixed paths ids file done)
    have hpending : ∀ id ∈ tids, id ∈ ids ∧ done id = false := by
      intro id hid
      obtain ⟨hlisted, hne⟩ := (hmem id).mp hid
      refine ⟨hlisted, Bool.eq_false_iff.mpr fun hdone => hne ?_⟩
      rw [readLegacyProxy_mixed hlisted (h id hlisted), hdone]
      rfl
    have hsame : ∀ id ∈ tids, targetOf (allKeys paths ids (mixed paths ids file done))
        (id, paths.proxy id) = targetOf (allKeys paths ids file) (id, paths.proxy id) := by
      intro id hid
      refine targetOf_congr ?_
      rw [mixed, (hpending id hid).2, if_neg Bool.false_ne_true]
    have hplan : migrationTargets
        (readLegacyRetention paths (settleSome paths done (.listed ids file))).1 =
        tids.map fun id => targetOf (allKeys paths ids file) (id, paths.proxy id) :=
      htargets.trans (List.map_congr_left hsame)
    refine ⟨fun i => done i || decide (i ∈ tids.take n), ?_, fun hlen => ?_⟩
    · rw [hplan, ← List.map_take, ← List.map_take]
      exact performAll_targets h (hnodup.sublist (List.take_sublist n tids)) fun id hid =>
        hpending id (List.mem_of_mem_take hid)
    · rw [hplan, List.length_map] at hlen
      rw [List.take_of_length_le hlen]
      refine congrArg (ProxyDir.listed ids) (funext fun id => ?_)
      show (if _ then _ else _) = settle paths ids file id
      split
      · rfl
      · rename_i hleft
        rw [Bool.or_eq_true, decide_eq_true_eq, not_or, Bool.not_eq_true] at hleft
        refine (settle_of_bare fun hid => ?_).symm
        by_contra hne
        refine hleft.2 ((hmem id).mpr ⟨hid, ?_⟩)
        rwa [readLegacyProxy_mixed hid (h id hid), hleft.1, if_neg Bool.false_ne_true]

/-- A directory without settings is settled. -/
theorem settleSome_bare {d : ProxyDir} (h : (readLegacyRetention paths d).1 = [])
    (done : String → Bool) : settleSome paths done d = d := by
  cases d with
  | missing | invalid => rfl
  | listed ids file =>
    refine congrArg (ProxyDir.listed ids) (funext fun id => ?_)
    have hbare : settle paths ids file id = file id := by
      refine settle_of_bare fun hid => List.eq_nil_iff_forall_not_mem.mpr fun item hitem => ?_
      have hall : item ∈ allKeys paths ids file := mem_allKeys.mpr ⟨id, hid, hitem⟩
      rw [show allKeys paths ids file = [] from h] at hall
      cases hall
    unfold mixed
    rw [hbare, ite_self]

end Directory

/-! ## 2. What a migration goes by -/

section Runs

variable {paths : Paths} {c c₀ : Config}

/-- The policy that the proxies agree on. -/
def consensusPolicy (deprecated : List DeprecatedKey) : Policy :=
  ⟨consensus deprecated .retentionDays defaultPolicy.retentionDays,
    consensus deprecated .maxTotalMb defaultPolicy.maxTotalMb⟩

theorem consensus_bound {deprecated : List DeprecatedKey} {field : Field} {default : Int}
    (hdefault : 0 ≤ default) (h : ∀ item ∈ deprecated, 0 ≤ item.value) :
    0 ≤ consensus deprecated field default := by
  unfold consensus
  cases hlast : ((deprecated.filter fun item => item.field = field).map
      DeprecatedKey.value).getLast? with
  | none => exact hdefault
  | some value =>
    obtain ⟨item, hitem, rfl⟩ := List.mem_map.mp (List.mem_of_getLast? hlast)
    exact h item (List.mem_of_mem_filter hitem)

theorem consensusPolicy_bound (paths : Paths) (d : ProxyDir) :
    0 ≤ (consensusPolicy (readLegacyRetention paths d).1).retentionDays ∧
    0 ≤ (consensusPolicy (readLegacyRetention paths d).1).maxTotalMb :=
  ⟨consensus_bound (by decide) fun _ => bound_of_mem,
    consensus_bound (by decide) fun _ => bound_of_mem⟩

theorem resolve_global {configured : Configured} {policy : Policy}
    (h : (readGlobalRetention paths.config c.global).1 = some (configured, policy)) :
    resolveRetention paths c = {
      configured := some configured
      effective := some policy
      source := some .global
      deprecatedKeys := (readLegacyRetention paths c.proxies).1
      errors := (readLegacyRetention paths c.proxies).2 } := by
  unfold resolveRetention
  simp only [h]

/-- What decides the policy, when nothing is wrong. -/
inductive Ground (paths : Paths) (c : Config) : Prop where
  | global (configured : Configured) (policy : Policy)
      (read : (readGlobalRetention paths.config c.global).1 = some (configured, policy))
  | consensus (read : readGlobalRetention paths.config c.global = (none, []))
      (resolved : resolveRetention paths c = {
        effective := some (consensusPolicy (readLegacyRetention paths c.proxies).1)
        source := some .legacyConsensus
        deprecatedKeys := (readLegacyRetention paths c.proxies).1 })
  | default (bare : (readLegacyRetention paths c.proxies).1 = [])
      (resolved : resolveRetention paths c =
        { effective := some defaultPolicy, source := some .default })

/-- Nothing blocks the migration. -/
def Ready (paths : Paths) (c : Config) : Prop := (planMigration paths c).blocked = false

theorem ready_iff : Ready paths c ↔ (resolveRetention paths c).pruningEnabled = true ∧
    (resolveRetention paths c).errors = [] := by
  unfold Ready Plan.blocked planMigration
  rw [Bool.or_eq_false_iff, Bool.not_eq_false']
  refine and_congr_right fun _ => ?_
  cases (resolveRetention paths c).errors <;> simp

theorem Ready.ground (h : Ready paths c) :
    (readLegacyRetention paths c.proxies).2 = [] ∧ Ground paths c := by
  obtain ⟨henabled, herrors⟩ := ready_iff.mp h
  cases hread : (readGlobalRetention paths.config c.global).1 with
  | some found =>
    rw [resolve_global hread] at herrors
    exact ⟨herrors, .global _ _ hread⟩
  | none =>
    have hresolve : resolveRetention paths c = resolveRetention paths c := rfl
    conv at hresolve => rhs; unfold resolveRetention
    simp only [hread] at hresolve
    split at hresolve
    · rw [hresolve] at henabled
      cases henabled
    · rename_i hclear
      rw [not_or, not_not, not_not, List.append_eq_nil_iff] at hclear
      refine ⟨hclear.1.2, ?_⟩
      split at hresolve
      · exact .consensus (Prod.ext hread hclear.1.1) hresolve
      · rename_i hbare
        exact .default (not_not.mp hbare) hresolve

theorem plan_keys (h : Ground paths c) :
    (resolveRetention paths c).deprecatedKeys = (readLegacyRetention paths c.proxies).1 := by
  cases h with
  | global _ _ read => rw [resolve_global read]
  | consensus _ resolved => rw [resolved]
  | default bare resolved => rw [resolved, bare]

/-! ## 3. Between two writes -/

/-- The global file with what the proxies said, if that was what counted. -/
def migratedGlobal (paths : Paths) (c₀ : Config) : GlobalFile :=
  if (planMigration paths c₀).writeGlobalPolicy then
    settledGlobal (consensusPolicy (readLegacyRetention paths c₀.proxies).1) c₀.global
  else c₀.global

/-- What a whole migration leaves. -/
def migrated (paths : Paths) (c₀ : Config) : Config :=
  ⟨migratedGlobal paths c₀, settleSome paths (fun _ => true) c₀.proxies⟩

/-- Nothing is written yet, or the global file is and some of the proxies. -/
def Midway (paths : Paths) (c₀ c : Config) : Prop :=
  c = c₀ ∨ ∃ done, c = ⟨migratedGlobal paths c₀, settleSome paths done c₀.proxies⟩

/-- Under a global policy only the proxies are written. -/
theorem take_after {g : GlobalFile} {configured : Configured} {policy : Policy}
    (hread : (readGlobalRetention paths.config g).1 = some (configured, policy))
    (h : (readLegacyRetention paths c₀.proxies).2 = []) (done : String → Bool) (n : Nat) :
    ∃ done', performAll paths ((planMigration paths ⟨g, settleSome paths done c₀.proxies⟩).writes.take n)
        ⟨g, settleSome paths done c₀.proxies⟩ = .ok ⟨g, settleSome paths done' c₀.proxies⟩ ∧
      ((planMigration paths ⟨g, settleSome paths done c₀.proxies⟩).writes.length ≤ n →
        settleSome paths done' c₀.proxies = settleSome paths (fun _ => true) c₀.proxies) := by
  have hwrites : (planMigration paths ⟨g, settleSome paths done c₀.proxies⟩).writes =
      (migrationTargets (readLegacyRetention paths (settleSome paths done c₀.proxies)).1).map
        .proxy := by
    simp only [Plan.writes, planMigration, resolve_global
      (c := ⟨g, settleSome paths done c₀.proxies⟩) hread]
    rfl
  rw [hwrites, List.length_map]
  exact performAll_settleSome h done g n

theorem ready_after {g : GlobalFile} {configured : Configured} {policy : Policy}
    (hread : (readGlobalRetention paths.config g).1 = some (configured, policy))
    (h : (readLegacyRetention paths c₀.proxies).2 = []) (done : String → Bool) :
    Ready paths ⟨g, settleSome paths done c₀.proxies⟩ := by
  rw [ready_iff, resolve_global (c := ⟨g, settleSome paths done c₀.proxies⟩) hread]
  exact ⟨rfl, readable_settleSome h done⟩

/-- The global file of a migration has the policy that counted before it. -/
theorem read_migratedGlobal (hground : Ground paths c₀)
    (hsource : (resolveRetention paths c₀).source ≠ some .default) : ∃ configured policy,
      (readGlobalRetention paths.config (migratedGlobal paths c₀)).1 = some (configured, policy) ∧
      (resolveRetention paths c₀).effective = some policy := by
  cases hground with
  | global configured policy read =>
    refine ⟨configured, policy, ?_, by rw [resolve_global read]⟩
    have hkeep : migratedGlobal paths c₀ = c₀.global := by
      simp [migratedGlobal, planMigration, resolve_global read]
    rw [hkeep]
    exact read
  | consensus read resolved =>
    have hwrite : migratedGlobal paths c₀ = settledGlobal
        (consensusPolicy (readLegacyRetention paths c₀.proxies).1) c₀.global := by
      simp [migratedGlobal, planMigration, resolved]
    obtain ⟨hdays, hsize⟩ := consensusPolicy_bound paths c₀.proxies
    have hsettled := readGlobal_settled paths.config c₀.global hdays hsize
    refine ⟨_, _, congrArg Prod.fst ((congrArg _ hwrite).trans hsettled), by rw [resolved]⟩
  | default bare resolved => exact absurd (by rw [resolved]) hsource

/-- With neither a policy nor settings there is nothing to write. -/
theorem writes_default (bare : (readLegacyRetention paths c₀.proxies).1 = [])
    (resolved : resolveRetention paths c₀ =
      { effective := some defaultPolicy, source := some .default }) :
    (planMigration paths c₀).writes = [] ∧ ∀ done,
      ⟨migratedGlobal paths c₀, settleSome paths done c₀.proxies⟩ = c₀ := by
  refine ⟨?_, fun done => ?_⟩
  · simp [Plan.writes, planMigration, resolved, migrationTargets_nil]
  · rw [settleSome_bare bare]
    simp [migratedGlobal, planMigration, resolved]

/-- Before the global file is written, it is the first to be. -/
theorem writes_consensus (read : readGlobalRetention paths.config c₀.global = (none, []))
    (resolved : resolveRetention paths c₀ = {
      effective := some (consensusPolicy (readLegacyRetention paths c₀.proxies).1)
      source := some .legacyConsensus
      deprecatedKeys := (readLegacyRetention paths c₀.proxies).1 }) :
    ∃ policy, (planMigration paths c₀).writes = .global policy ::
        (migrationTargets (readLegacyRetention paths c₀.proxies).1).map .proxy ∧
      (Write.global policy).perform paths c₀ = .ok ⟨migratedGlobal paths c₀, c₀.proxies⟩ := by
  refine ⟨consensusPolicy (readLegacyRetention paths c₀.proxies).1, ?_, ?_⟩
  · simp [Plan.writes, planMigration, resolved]
  · show writeGlobalPolicy paths _ c₀ = _
    rw [writeGlobalPolicy_ok read]
    simp [migratedGlobal, planMigration, resolved]

/-- A migration goes on from where another was cut short. -/
theorem Midway.take (h : Ready paths c₀) (hm : Midway paths c₀ c) (n : Nat) :
    ∃ c', performAll paths ((planMigration paths c).writes.take n) c = .ok c' ∧
      Midway paths c₀ c' ∧
      ((planMigration paths c).writes.length ≤ n → c' = migrated paths c₀) := by
  obtain ⟨hreadable, hground⟩ := h.ground
  have hafter : (resolveRetention paths c₀).source ≠ some .default → ∀ done,
      ∃ c', performAll paths ((planMigration paths
          ⟨migratedGlobal paths c₀, settleSome paths done c₀.proxies⟩).writes.take n)
          ⟨migratedGlobal paths c₀, settleSome paths done c₀.proxies⟩ = .ok c' ∧
        Midway paths c₀ c' ∧
        ((planMigration paths ⟨migratedGlobal paths c₀,
          settleSome paths done c₀.proxies⟩).writes.length ≤ n → c' = migrated paths c₀) := by
    intro hsource done
    obtain ⟨configured, policy, hread, -⟩ := read_migratedGlobal hground hsource
    obtain ⟨done', hrun, hall⟩ := take_after hread hreadable done n
    exact ⟨_, hrun, .inr ⟨done', rfl⟩, fun hlen => congrArg (Config.mk _) (hall hlen)⟩
  cases hground with
  | global configured policy read =>
    have hsource : (resolveRetention paths c₀).source ≠ some .default := by
      rw [resolve_global read]
      simp
    rcases hm with rfl | ⟨done, rfl⟩
    · have hstart := hafter hsource fun _ => false
      have hkeep : migratedGlobal paths c = c.global := by
        simp [migratedGlobal, planMigration, resolve_global read]
      rw [settleSome_none, hkeep] at hstart
      exact hstart
    · exact hafter hsource done
  | consensus read resolved =>
    rcases hm with rfl | ⟨done, rfl⟩
    · obtain ⟨policy, hwrites, hfirst⟩ := writes_consensus read resolved
      rw [hwrites]
      cases n with
      | zero => exact ⟨c, rfl, .inl rfl, fun hlen => absurd hlen (Nat.not_succ_le_zero _)⟩
      | succ n =>
        obtain ⟨done', hrun, hall⟩ :=
          performAll_settleSome hreadable (fun _ => false) (migratedGlobal paths c) n
        rw [settleSome_none] at hrun hall
        refine ⟨_, ?_, .inr ⟨done', rfl⟩, fun hlen => congrArg (Config.mk _) (hall ?_)⟩
        · rw [List.take_succ_cons, performAll, hfirst]
          exact hrun
        · rw [List.length_cons, List.length_map] at hlen
          exact Nat.le_of_succ_le_succ hlen
    · exact hafter (by rw [resolved]; simp) done
  | default bare resolved =>
    obtain ⟨hwrites, hsame⟩ := writes_default bare resolved
    obtain rfl : c = c₀ := by
      rcases hm with rfl | ⟨done, rfl⟩
      · rfl
      · exact hsame done
    rw [hwrites, List.take_nil]
    exact ⟨c, rfl, .inl rfl, fun _ => (hsame _).symm⟩

/-- Between two writes the policy is what it was. -/
theorem Midway.resolved (h : Ready paths c₀) (hm : Midway paths c₀ c) : Ready paths c ∧
    (resolveRetention paths c).effective = (resolveRetention paths c₀).effective := by
  obtain ⟨hreadable, hground⟩ := h.ground
  rcases hm with rfl | ⟨done, rfl⟩
  · exact ⟨h, rfl⟩
  · by_cases hsource : (resolveRetention paths c₀).source = some .default
    · cases hground with
      | default bare resolved =>
        rw [(writes_default bare resolved).2 done]
        exact ⟨h, rfl⟩
      | global _ _ read =>
        rw [resolve_global read] at hsource
        cases hsource
      | consensus _ resolved =>
        rw [resolved] at hsource
        cases hsource
    · obtain ⟨configured, policy, hread, heffective⟩ := read_migratedGlobal hground hsource
      refine ⟨ready_after hread hreadable done, ?_⟩
      rw [resolve_global (c := ⟨migratedGlobal paths c₀, settleSome paths done c₀.proxies⟩) hread,
        heffective]

/-! ## 4. What is kept -/

/-- The same file, or a document that has lost nothing but settings. -/
def SameSettings (file file' : ProxyFile) : Prop :=
  file' = file ∨ ∃ data data', file = .document (.mapping data) ∧
    file' = .document (.mapping data') ∧ Untouched data data'

/-- The same directory, of files that have lost nothing but settings. -/
def SameDirectory (d d' : ProxyDir) : Prop :=
  d' = d ∨ ∃ ids file file', d = .listed ids file ∧ d' = .listed ids file' ∧
    ∀ id, SameSettings (file id) (file' id)

/-- Only retention settings differ. -/
structure Preserved (c c' : Config) : Prop where
  root : Yaml.others ["telemetry"] (globalData c'.global) =
    Yaml.others ["telemetry"] (globalData c.global)
  telemetry : Yaml.others ["downstream"] (mappingAt "telemetry" (globalData c'.global)) =
    Yaml.others ["downstream"] (mappingAt "telemetry" (globalData c.global))
  proxies : SameDirectory c.proxies c'.proxies

theorem sameSettings_mixed {ids : List String} {file : String → ProxyFile} {done : String → Bool}
    (id : String) : SameSettings (file id) (mixed paths ids file done id) := by
  unfold mixed
  split
  · unfold settle
    split
    · rename_i data heq
      rw [heq]
      exact .inr ⟨data, _, rfl, rfl, untouched_foldl _ data⟩
    · exact .inl rfl
  · exact .inl rfl

theorem sameDirectory_settleSome (d : ProxyDir) (done : String → Bool) :
    SameDirectory d (settleSome paths done d) := by
  cases d with
  | missing | invalid => exact .inl rfl
  | listed ids file => exact .inr ⟨ids, file, _, rfl, rfl, sameSettings_mixed⟩

theorem Midway.preserved (hm : Midway paths c₀ c) : Preserved c₀ c := by
  rcases hm with rfl | ⟨done, rfl⟩
  · exact ⟨rfl, rfl, .inl rfl⟩
  · refine ⟨?_, ?_, sameDirectory_settleSome c₀.proxies done⟩
    · show Yaml.others _ (globalData (migratedGlobal paths c₀)) = _
      unfold migratedGlobal
      split
      · exact Yaml.others_insert (List.mem_singleton_self _) _ _
      · rfl
    · show Yaml.others _ (mappingAt _ (globalData (migratedGlobal paths c₀))) = _
      unfold migratedGlobal
      split
      · have hat : mappingAt "telemetry" (globalData (settledGlobal
            (consensusPolicy (readLegacyRetention paths c₀.proxies).1) c₀.global)) =
            Yaml.insert "downstream" (.mapping (consensusPolicy
              (readLegacyRetention paths c₀.proxies).1).items)
              (mappingAt "telemetry" (globalData c₀.global)) := by
          simp only [settledGlobal, globalData, mappingAt, Yaml.get_insert, if_true]
        rw [hat]
        exact Yaml.others_insert (List.mem_singleton_self _) _ _
      · rfl

/-! ## 5. Migrations cut short -/

/-- What migrations leave that were cut short, each after some of its writes. -/
inductive Attempts (paths : Paths) (c₀ : Config) : Config → Prop where
  | start : Attempts paths c₀ c₀
  | interrupted {c c' : Config} (n : Nat) (before : Attempts paths c₀ c) (ready : Ready paths c)
      (run : performAll paths ((planMigration paths c).writes.take n) c = .ok c') :
      Attempts paths c₀ c'

theorem Attempts.midway (h : Ready paths c₀) (ha : Attempts paths c₀ c) : Midway paths c₀ c := by
  induction ha with
  | start => exact .inl rfl
  | interrupted n _ _ run ih =>
    obtain ⟨c'', hrun, hm, -⟩ := ih.take h n
    rw [run] at hrun
    cases hrun
    exact hm

theorem migrated_midway : Midway paths c₀ (migrated paths c₀) := .inr ⟨_, rfl⟩

/-- A migration that is not cut short ends in the same files. -/
theorem Midway.apply (h : Ready paths c₀) (hm : Midway paths c₀ c) :
    applyMigration paths c = .ok (migrated paths c₀) := by
  have hready : (planMigration paths c).blocked = false := (hm.resolved h).1
  obtain ⟨c', hrun, -, hend⟩ := hm.take h (planMigration paths c).writes.length
  rw [List.take_length, hend (Nat.le_refl _)] at hrun
  unfold applyMigration
  simp only [hready, Bool.false_eq_true, if_false]
  exact hrun

theorem no_changes (h : Ready paths c₀) :
    (planMigration paths (migrated paths c₀)).hasChanges = false := by
  obtain ⟨hreadable, hground⟩ := h.ground
  have hkeys : (resolveRetention paths (migrated paths c₀)).deprecatedKeys = [] := by
    have hready := (migrated_midway.resolved h).1
    rw [plan_keys hready.ground.2]
    exact settleSome_all hreadable
  have hsource : (resolveRetention paths (migrated paths c₀)).source ≠ some .legacyConsensus := by
    by_cases hdefault : (resolveRetention paths c₀).source = some .default
    · cases hground with
      | default bare resolved =>
        have hsame : migrated paths c₀ = c₀ := (writes_default bare resolved).2 _
        rw [hsame, hdefault]
        simp
      | global _ _ read =>
        rw [resolve_global read] at hdefault
        cases hdefault
      | consensus _ resolved =>
        rw [resolved] at hdefault
        cases hdefault
    · obtain ⟨configured, policy, hread, -⟩ := read_migratedGlobal hground hdefault
      rw [resolve_global (c := migrated paths c₀) hread]
      simp
  simp only [Plan.hasChanges, planMigration, hkeys, migrationTargets_nil, hsource]
  rfl

end Runs

/-! ## 6. Results -/

/-- One proxy with a setting of its own, and no global policy. -/
def legacySetup : Config where
  global := .document (.mapping [(.str "proxy_mode", .other "host" true)])
  proxies := .listed ["claude"] fun _ => .document (.mapping [
    (.str "port", .int 8082),
    (.str "audit", .mapping [(.str "enabled", .bool true), (.str "retention_days", .int 7)])])

def homePaths : Paths := ⟨"config.yaml", "proxies"⟩

theorem legacySetup_keys : readLegacyRetention homePaths legacySetup.proxies =
    ([⟨"claude", "proxies/claude/proxy.yaml", .audit, .retentionDays, 7⟩], []) := by
  simp only [legacySetup, readLegacyRetention, sortedTexts, List.mergeSort_singleton]
  decide

theorem legacySetup_resolved : resolveRetention homePaths legacySetup = {
    effective := some ⟨7, 512⟩
    source := some .legacyConsensus
    deprecatedKeys := [⟨"claude", "proxies/claude/proxy.yaml", .audit, .retentionDays, 7⟩] } := by
  simp only [resolveRetention, legacySetup_keys]
  decide

theorem legacySetup_ready : Ready homePaths legacySetup := by
  rw [ready_iff, legacySetup_resolved]
  exact ⟨rfl, rfl⟩

/-- The global file is written, and the proxy is not. -/
def halfway : Config := { legacySetup with global := settledGlobal ⟨7, 512⟩ legacySetup.global }

theorem halfway_attempt : Attempts homePaths legacySetup halfway := by
  refine .interrupted 1 .start legacySetup_ready ?_
  simp only [Plan.writes, planMigration, legacySetup_resolved]
  rfl

end MultiForge.Telemetry.RetentionMigration
