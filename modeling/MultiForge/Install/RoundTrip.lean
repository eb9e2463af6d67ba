/-
MultiForge.Install.RoundTrip — installing and uninstalling leaves the
user's settings as they were.

Settings are compared by what they hold (`SameSettings`), so that an empty
section and a missing one are the same. `Managed` is the invariant of
installs: the file holds what the user had and the tracked entries, and
nothing else. Uninstalling then gives the user's settings back, except
where an empty value is taken for no value (`StepOk`, `UninstallOk`).
-/
import MultiForge.Install.MergeSpec

set_option linter.unusedSectionVars false

namespace MultiForge.Install

open Json KeyedUnion

variable {F : Type} [PyFloatText F]

/-- Two settings hold the same hooks, permissions, variables and other
keys. -/
structure SameSettings (a b : Settings F) : Prop where
  hooks : ∀ event, a.hooksAt event = b.hooksAt event
  permissions : ∀ type, a.permissionsAt type = b.permissionsAt type
  env : ∀ key, a.envAt key = b.envAt key
  other : ∀ key, a.other.get? key = b.other.get? key

/-! ## 1. What taking out leaves -/

/-- A loop over added lists, read at a key: where nothing was added, or
nothing is there, it changes nothing. -/
theorem alterEach_lists {α β : Type} (remove : List β → List α → List α)
    (hnone : ∀ l, remove [] l = l) (hnil : ∀ a, remove a [] = [])
    (added : Dict String (List β)) (current : Option (Dict String (List α))) (k : String) :
    (((current.map (Dict.alterEach (fun _ a c => some (remove a c)) added.entries)).getD
      .empty).get? k).getD []
      = remove ((added.get? k).getD []) (((current.getD .empty).get? k).getD []) := by
  cases current with
  | none => exact (hnil _).symm
  | some d =>
    show ((Dict.alterEach (fun _ a c => some (remove a c)) added.entries d).get? k).getD [] = _
    rw [Dict.get?_alterEach _ k added.nodup]
    show _ = remove ((Dict.find k added.entries).getD []) ((d.get? k).getD [])
    cases Dict.find k added.entries with
    | none => exact (hnone _).symm
    | some b => cases d.get? k with
      | none => exact (hnil b).symm
      | some c => rfl

theorem without_none {α κ : Type} [DecidableEq κ] (id : α → κ) (l : List α) :
    without id [] l = l := by
  simp [without]

theorem smartUnmerge_hooksAt (current backup : Settings F) (entries : List (SettingsEntry F))
    (event : String) :
    (smartUnmerge current backup (entriesToAddedStructure entries)).hooksAt event
      = without canonicalJson ((trackedHooks entries event).map canonicalJson)
        (current.hooksAt event) := by
  rw [← added_hooks]
  exact alterEach_lists removeHooks (fun l => without_none _ l) (fun _ => rfl) _ _ event

theorem smartUnmerge_permissionsAt (current backup : Settings F)
    (entries : List (SettingsEntry F)) (type : String) :
    (smartUnmerge current backup (entriesToAddedStructure entries)).permissionsAt type
      = without (fun p => p) (trackedPermissions entries type) (current.permissionsAt type) := by
  rw [← added_permissions]
  exact alterEach_lists removePermissions (fun l => without_none _ l) (fun _ => rfl) _ _ type

theorem smartUnmerge_envAt (current backup : Settings F) (entries : List (SettingsEntry F))
    (k : String) :
    (smartUnmerge current backup (entriesToAddedStructure entries)).envAt k
      = match trackedEnv entries k with
        | none => current.envAt k
        | some v => (current.envAt k).bind (restoreEnv backup k v) := by
  rw [← added_env, Settings.envAt, Settings.envAt]
  show (((current.env.map (Dict.alterEach (restoreEnv backup)
    (entriesToAddedStructure entries).env.entries)).getD .empty).get? k) = _
  cases current.env with
  | none => cases (entriesToAddedStructure entries).env.get? k <;> rfl
  | some d =>
    refine (Dict.get?_alterEach _ k (entriesToAddedStructure entries).env.nodup d).trans ?_
    unfold Dict.get?
    cases Dict.find k (entriesToAddedStructure entries).env.entries <;> rfl

theorem smartUnmerge_other (current backup : Settings F) (entries : List (SettingsEntry F))
    (k : String) :
    (smartUnmerge current backup (entriesToAddedStructure entries)).other.get? k
      = match trackedScalar entries k with
        | none => current.other.get? k
        | some v => (current.other.get? k).bind (restoreScalar backup k v) := by
  rw [← added_scalars]
  refine (Dict.get?_alterEach _ k (entriesToAddedStructure entries).scalars.nodup
    current.other).trans ?_
  unfold Dict.get?
  cases Dict.find k (entriesToAddedStructure entries).scalars.entries <;> rfl

theorem cleanSection_get? {α : Type} (truthy : α → Bool) (d : Option (Dict String α))
    (k : String) :
    ((d.bind (cleanSection truthy)).getD .empty).get? k
      = ((d.getD .empty).get? k).filter truthy := by
  cases d with
  | none => rfl
  | some d =>
    show (((cleanSection truthy d)).getD .empty).get? k = (d.get? k).filter truthy
    rw [← Dict.get?_filter d (fun _ v => truthy v) k]
    unfold cleanSection
    simp only
    split
    · rename_i hempty
      exact (Dict.get?_of_isEmpty hempty k).symm
    · rfl

/-- An entry list that is dropped when it is empty reads the same. -/
theorem filter_nonempty_getD {α : Type} (l : Option (List α)) :
    (l.filter fun l => !l.isEmpty).getD [] = l.getD [] := by
  rcases l with _ | _ | ⟨a, l⟩ <;> rfl

theorem cleanup_hooksAt (s : Settings F) (event : String) :
    (cleanupEmptySettings s).hooksAt event = s.hooksAt event := by
  rw [Settings.hooksAt, cleanupEmptySettings, cleanSection_get?]
  exact filter_nonempty_getD _

theorem cleanup_permissionsAt (s : Settings F) (type : String) :
    (cleanupEmptySettings s).permissionsAt type = s.permissionsAt type := by
  rw [Settings.permissionsAt, cleanupEmptySettings, cleanSection_get?]
  exact filter_nonempty_getD _

/-- The cleanup drops the variables that are empty. -/
theorem cleanup_envAt (s : Settings F) (k : String) :
    (cleanupEmptySettings s).envAt k = (s.envAt k).filter fun v => v ≠ "" := by
  rw [Settings.envAt, cleanupEmptySettings, cleanSection_get?]
  rfl

/-- Cleaning up settings without empty variables. -/
theorem cleanup_same {s s' : Settings F} (h : SameSettings s s')
    (henv : ∀ k, s'.envAt k ≠ some "") : SameSettings (cleanupEmptySettings s) s' where
  hooks event := (cleanup_hooksAt s event).trans (h.hooks event)
  permissions type := (cleanup_permissionsAt s type).trans (h.permissions type)
  env k := by
    rw [cleanup_envAt, h.env]
    cases hk : s'.envAt k with
    | none => rfl
    | some v =>
      have hv : v ≠ "" := fun e => henv k (e ▸ hk)
      simp [Option.filter_some, hv]
  other := h.other

/-! ## 2. The settings an install merges into -/

/-- Hook entries other than `{}` are taken out by their canonical form. -/
theorem unmerge_hooksAt (s : Settings F) (entries : List (SettingsEntry F)) (event : String) :
    (unmerge s entries).hooksAt event
      = without canonicalJson (canonicalToRemove (trackedHooks entries event))
        (s.hooksAt event) := by
  rw [← added_hooks]
  exact alterEach_lists (fun a c => without canonicalJson (canonicalToRemove a) c)
    (fun l => without_none _ l) (fun _ => rfl) _ _ event

theorem unmerge_permissionsAt (s : Settings F) (entries : List (SettingsEntry F))
    (type : String) :
    (unmerge s entries).permissionsAt type
      = without (fun p => p) (trackedPermissions entries type) (s.permissionsAt type) := by
  rw [← added_permissions]
  exact alterEach_lists removePermissions (fun l => without_none _ l) (fun _ => rfl) _ _ type

/-- A section that keeps every entry may be dropped when it is empty. -/
theorem get?_kept {β : Type} (d : Dict String β) {keep : String → β → Bool}
    (h : ∀ k v, keep k v = true) (k : String) :
    ((if (d.filter keep).isEmpty then none else some (d.filter keep)).getD Dict.empty).get? k
      = d.get? k := by
  split
  · rename_i hempty
    rw [Option.getD_none, ← Dict.get?_filter_true (d := d) h k]
    exact (Dict.get?_of_isEmpty hempty k).symm
  · exact Dict.get?_filter_true h k

/-- Taking out hook entries changes hooks only. -/
theorem unmerge_hooks_only {s : Settings F} {entries : List (SettingsEntry F)}
    (h : OfKind .hook entries) :
    (∀ ty, (unmerge s entries).permissionsAt ty = s.permissionsAt ty) ∧
    (∀ k, (unmerge s entries).envAt k = s.envAt k) ∧
    (∀ k, (unmerge s entries).other.get? k = s.other.get? k) := by
  have hany : ∀ p : SettingsEntry F → Bool, (∀ e, e.kind = .hook → p e = false) →
      (!entries.any p) = true := fun p hp => by
    rw [Bool.not_eq_true', List.any_eq_false]
    exact fun e he => by simp [hp e (h e he)]
  refine ⟨fun ty => ?_, fun k => ?_, fun k => ?_⟩
  · rw [unmerge_permissionsAt, h.trackedPermissions_nil (by decide), without_none]
  · rw [Settings.envAt, Settings.envAt, unmerge]
    cases s.env with
    | none => rfl
    | some d =>
      refine get?_kept d (fun k v => hany _ fun e he => ?_) k
      cases e <;> first | rfl | cases he
  · refine Dict.get?_filter_true (fun k v => hany _ ?_) k
    intro e he
    cases e <;> first | rfl | cases he

theorem removeLegacy_hooksAt (legacy : String → HookEntry F → Bool) (s : Settings F)
    (event : String) :
    (removeKnownLegacyHookEntries legacy s).hooksAt event
      = (s.hooksAt event).filter fun e => !legacy event e := by
  unfold removeKnownLegacyHookEntries
  split
  · rename_i hnone
    simp [Settings.hooksAt, hnone]
  · rename_i hooks hsome
    rw [cleanup_hooksAt, Settings.hooksAt, Settings.hooksAt, hsome]
    show ((Dict.alterEach _ hooks.entries hooks).get? event).getD [] = _
    rw [Dict.get?_alterEach _ event hooks.nodup]
    show _ = ((Dict.find event hooks.entries).getD []).filter _
    unfold Dict.get?
    cases Dict.find event hooks.entries <;> rfl

/-- Without hooks nothing is cleaned up. -/
theorem removeLegacy_envAt (legacy : String → HookEntry F → Bool) (s : Settings F) (k : String) :
    (removeKnownLegacyHookEntries legacy s).envAt k
      = if s.hooks.isSome then (s.envAt k).filter fun v => v ≠ "" else s.envAt k := by
  unfold removeKnownLegacyHookEntries
  split
  · rename_i hnone
    simp [hnone]
  · rename_i hooks hsome
    rw [cleanup_envAt, hsome]
    rfl

theorem removeLegacy_rest (legacy : String → HookEntry F → Bool) (s : Settings F) :
    (∀ ty, (removeKnownLegacyHookEntries legacy s).permissionsAt ty = s.permissionsAt ty) ∧
    (removeKnownLegacyHookEntries legacy s).other = s.other := by
  unfold removeKnownLegacyHookEntries
  split
  · exact ⟨fun _ => rfl, rfl⟩
  · exact ⟨fun ty => cleanup_permissionsAt _ ty, rfl⟩

/-- The settings after the old hook entries are taken out. -/
def withoutOldHooks (user : Bool) (st : InstallState F) (o : MergeOptions) : Settings F :=
  if (oldHookEntries user st o).isEmpty then st.file.getD {}
  else unmerge (st.file.getD {}) (oldHookEntries user st o)

theorem oldHookEntries_kind (user : Bool) (st : InstallState F) (o : MergeOptions) :
    OfKind .hook (oldHookEntries user st o) := by
  intro e he
  unfold oldHookEntries at he
  split at he
  · have hhook := (List.mem_filter.mp he).2
    cases e <;> first | rfl | cases hhook
  · cases he

theorem withoutOldHooks_spec (user : Bool) (st : InstallState F) (o : MergeOptions) :
    (∀ ev, (withoutOldHooks user st o).hooksAt ev
      = without canonicalJson (canonicalToRemove (trackedHooks (oldHookEntries user st o) ev))
        ((st.file.getD {}).hooksAt ev)) ∧
    (∀ ty, (withoutOldHooks user st o).permissionsAt ty = (st.file.getD {}).permissionsAt ty) ∧
    (∀ k, (withoutOldHooks user st o).envAt k = (st.file.getD {}).envAt k) ∧
    (∀ k, (withoutOldHooks user st o).other.get? k = (st.file.getD {}).other.get? k) ∧
    (withoutOldHooks user st o).hooks.isSome = (st.file.getD {}).hooks.isSome := by
  unfold withoutOldHooks
  split
  · rename_i hempty
    rw [List.isEmpty_iff.mp hempty]
    exact ⟨fun ev => (without_none canonicalJson _).symm, fun _ => rfl, fun _ => rfl, fun _ => rfl,
      rfl⟩
  · obtain ⟨hp, he, ho⟩ := unmerge_hooks_only (s := st.file.getD {})
      (oldHookEntries_kind user st o)
    exact ⟨fun ev => unmerge_hooksAt _ _ ev, hp, he, ho, Option.isSome_map⟩

theorem preparedSettings_eq (user : Bool) (legacy : String → HookEntry F → Bool)
    (st : InstallState F) (o : MergeOptions) :
    preparedSettings user legacy st o
      = if user ∧ o.hooks then removeKnownLegacyHookEntries legacy (withoutOldHooks user st o)
        else st.file.getD {} := by
  unfold preparedSettings withoutOldHooks
  simp only
  by_cases h : user = true ∧ o.hooks = true
  · rw [if_pos h, if_pos h]
  · rw [if_neg h, if_neg h, oldHookEntries, if_neg h]
    rfl

/-! ## 3. The entries that are carried over -/

theorem mem_trackedHooks {entries : List (SettingsEntry F)} {event c : String} :
    c ∈ (trackedHooks entries event).map canonicalJson
      ↔ .hook event c ∈ entries.map SettingsEntry.id := by
  simp only [trackedHooks, List.mem_map, List.mem_filterMap]
  constructor
  · rintro ⟨v, ⟨e, he, hv⟩, rfl⟩
    refine ⟨e, he, ?_⟩
    cases e with
    | hook ev w =>
      obtain ⟨rfl, hw⟩ := Option.ite_none_right_eq_some.mp hv
      cases hw
      rfl
    | _ => cases hv
  · rintro ⟨e, he, hid⟩
    cases e with
    | hook ev v =>
      simp only [SettingsEntry.id, EntryId.hook.injEq] at hid
      obtain ⟨rfl, rfl⟩ := hid
      exact ⟨v, ⟨_, he, if_pos rfl⟩, rfl⟩
    | _ => cases hid

theorem mem_trackedPermissions {entries : List (SettingsEntry F)} {type v : String} :
    v ∈ trackedPermissions entries type
      ↔ .permission type v ∈ entries.map SettingsEntry.id := by
  simp only [trackedPermissions, List.mem_map, List.mem_filterMap]
  constructor
  · rintro ⟨e, he, hv⟩
    refine ⟨e, he, ?_⟩
    cases e with
    | permission ty w =>
      obtain ⟨rfl, hw⟩ := Option.ite_none_right_eq_some.mp hv
      cases hw
      rfl
    | _ => cases hv
  · rintro ⟨e, he, hid⟩
    cases e with
    | permission ty w =>
      simp only [SettingsEntry.id, EntryId.permission.injEq] at hid
      obtain ⟨rfl, rfl⟩ := hid
      exact ⟨_, he, if_pos rfl⟩
    | _ => cases hid

/-- An id stays tracked, unless it was taken out before the merge. -/
theorem mem_carried_ids {i : EntryId} {entries old existing : List (SettingsEntry F)} :
    i ∈ (entries ++ carriedEntries entries old existing).map SettingsEntry.id
      ↔ i ∈ entries.map SettingsEntry.id ∨
        (i ∈ existing.map SettingsEntry.id ∧ i ∉ old.map SettingsEntry.id) := by
  rw [List.map_append, List.mem_append]
  constructor
  · rintro (h | h)
    · exact .inl h
    · obtain ⟨e, he, rfl⟩ := List.mem_map.mp h
      obtain ⟨hmem, hp⟩ := List.mem_filter.mp he
      have hp := of_decide_eq_true hp
      exact .inr ⟨List.mem_map.mpr ⟨e, hmem, rfl⟩, hp.2⟩
  · rintro (h | ⟨h, hold⟩)
    · exact .inl h
    · by_cases hnew : i ∈ entries.map SettingsEntry.id
      · exact .inl hnew
      · obtain ⟨e, he, rfl⟩ := List.mem_map.mp h
        exact .inr (List.mem_map.mpr ⟨e, List.mem_filter.mpr ⟨he, decide_eq_true ⟨hnew, hold⟩⟩, rfl⟩)

/-- The entries that an id selects, when an install carries some over. -/
theorem carriedEntries_filterMap {α : Type} {f : SettingsEntry F → Option α} {i : EntryId}
    {entries old existing : List (SettingsEntry F)}
    (hf : ∀ e, (f e).isSome ↔ e.id = i) (hold : i ∉ old.map SettingsEntry.id) :
    (carriedEntries entries old existing).filterMap f
      = if i ∈ entries.map SettingsEntry.id then [] else existing.filterMap f := by
  induction existing with
  | nil => simp [carriedEntries]
  | cons e es ih =>
    unfold carriedEntries at ih ⊢
    rw [List.filter_cons, List.filterMap_cons]
    cases hfe : f e with
    | none =>
      split
      · rw [List.filterMap_cons, hfe]; exact ih
      · exact ih
    | some v =>
      have hi : e.id = i := (hf e).mp (by rw [hfe]; rfl)
      by_cases hmem : i ∈ entries.map SettingsEntry.id
      · rw [if_neg (by simp only [hi]; simp [hmem]), ih, if_pos hmem, if_pos hmem]
      · rw [if_pos (by simp only [hi]; simp only [hmem, hold]; rfl), List.filterMap_cons, hfe, ih,
          if_neg hmem, if_neg hmem]

/-- What is tracked last under an id: the new entries go first, and the
carried ones are only those they do not have. -/
theorem carriedEntries_getLast? {α : Type} {f : SettingsEntry F → Option α} {i : EntryId}
    {entries old existing : List (SettingsEntry F)}
    (hf : ∀ e, (f e).isSome ↔ e.id = i) (hold : i ∉ old.map SettingsEntry.id) :
    ((entries ++ carriedEntries entries old existing).filterMap f).getLast?
      = ((entries.filterMap f).getLast?).or (existing.filterMap f).getLast? := by
  rw [List.filterMap_append, List.getLast?_append, carriedEntries_filterMap hf hold]
  by_cases hmem : i ∈ entries.map SettingsEntry.id
  · obtain ⟨e, he, hi⟩ := List.mem_map.mp hmem
    obtain ⟨v, hv⟩ := Option.isSome_iff_exists.mp ((hf e).mpr hi)
    have hne : entries.filterMap f ≠ [] := List.ne_nil_of_mem (List.mem_filterMap.mpr ⟨e, he, hv⟩)
    rw [if_pos hmem, List.getLast?_nil, Option.none_or, List.getLast?_eq_some_getLast hne]
    rfl
  · have hnil : entries.filterMap f = [] := List.filterMap_eq_nil_iff.mpr fun e he => by
      rw [← Option.not_isSome_iff_eq_none, hf]
      exact fun hi => hmem (List.mem_map.mpr ⟨e, he, hi⟩)
    rw [if_neg hmem, hnil, List.getLast?_nil, Option.or_none, Option.none_or]

theorem env?_isSome (k : String) (e : SettingsEntry F) :
    (SettingsEntry.env? k e).isSome ↔ e.id = .env k := by
  cases e <;> simp [SettingsEntry.env?, SettingsEntry.id]

theorem scalar?_isSome (k : String) (e : SettingsEntry F) :
    (SettingsEntry.scalar? k e).isSome ↔ e.id = .scalar k := by
  cases e <;> simp [SettingsEntry.scalar?, SettingsEntry.id]

/-- Hook entries have ids of hooks only. -/
theorem OfKind.id_not_mem {entries : List (SettingsEntry F)} (h : OfKind .hook entries)
    {i : EntryId} (hi : ∀ ev c, i ≠ .hook ev c) : i ∉ entries.map SettingsEntry.id := by
  intro hmem
  obtain ⟨e, he, rfl⟩ := List.mem_map.mp hmem
  cases e with
  | hook ev v => exact hi ev _ rfl
  | _ => cases h _ he

theorem trackedEnv_carried (user : Bool) (st : InstallState F) (o : MergeOptions)
    (entries : List (SettingsEntry F)) (k : String) :
    trackedEnv (entries ++ carriedEntries entries (oldHookEntries user st o) st.entries) k
      = (trackedEnv entries k).or (trackedEnv st.entries k) :=
  carriedEntries_getLast? (env?_isSome k)
    ((oldHookEntries_kind user st o).id_not_mem fun _ _ => nofun)

theorem trackedScalar_carried (user : Bool) (st : InstallState F) (o : MergeOptions)
    (entries : List (SettingsEntry F)) (k : String) :
    trackedScalar (entries ++ carriedEntries entries (oldHookEntries user st o) st.entries) k
      = (trackedScalar entries k).or (trackedScalar st.entries k) :=
  carriedEntries_getLast? (scalar?_isSome k)
    ((oldHookEntries_kind user st o).id_not_mem fun _ _ => nofun)

/-- The hook entries that stay tracked after the old ones are taken out. -/
theorem hook_carried (user : Bool) (st : InstallState F) (o : MergeOptions)
    (entries : List (SettingsEntry F)) (event c : String) :
    c ∈ (trackedHooks (entries ++ carriedEntries entries (oldHookEntries user st o) st.entries)
        event).map canonicalJson
      ↔ c ∈ (trackedHooks entries event).map canonicalJson ++
        if user ∧ o.hooks then [] else (trackedHooks st.entries event).map canonicalJson := by
  rw [mem_trackedHooks, mem_carried_ids, List.mem_append, mem_trackedHooks]
  refine or_congr_right ?_
  unfold oldHookEntries
  by_cases h : user = true ∧ o.hooks = true
  · rw [if_pos h, if_pos h]
    refine ⟨fun ⟨hmem, hnot⟩ => absurd ?_ hnot, nofun⟩
    obtain ⟨e, he, hid⟩ := List.mem_map.mp hmem
    refine List.mem_map.mpr ⟨e, List.mem_filter.mpr ⟨he, ?_⟩, hid⟩
    cases e <;> first | rfl | cases hid
  · rw [if_neg h, if_neg h, mem_trackedHooks]
    exact and_iff_left nofun

/-! ## 4. The invariant of installs -/

/-- The settings hold what the user had, with the tracked entries added. -/
structure Managed (S cur : Settings F) (entries : List (SettingsEntry F)) : Prop where
  hooks : ∀ event, Grown canonicalJson (S.hooksAt event) (cur.hooksAt event)
    ((trackedHooks entries event).map canonicalJson)
  permissions : ∀ type, Grown (fun p => p) (S.permissionsAt type) (cur.permissionsAt type)
    (trackedPermissions entries type)
  env : ∀ k, trackedEnv entries k = none → cur.envAt k = S.envAt k
  /-- a tracked variable is set as tracked, or was dropped by a cleanup -/
  trackedEnv : ∀ k v, trackedEnv entries k = some v → cur.envAt k = some v ∨ cur.envAt k = none
  other : ∀ k, trackedScalar entries k = none → cur.other.get? k = S.other.get? k
  trackedOther : ∀ k v, trackedScalar entries k = some v →
    cur.other.get? k = some v ∧ S.other.get? k ≠ some .null

theorem Managed.refl (S : Settings F) : Managed S S [] where
  hooks event := Grown.refl _ _
  permissions type := Grown.refl _ _
  env _ _ := rfl
  trackedEnv _ _ h := by cases h
  other _ _ := rfl
  trackedOther _ _ h := by cases h

/-- With nothing tracked the settings are the user's. -/
theorem Managed.same {S cur : Settings F} (h : Managed S cur []) : SameSettings cur S where
  hooks event := (h.hooks event).eq_base
  permissions type := (h.permissions type).eq_base
  env k := h.env k rfl
  other k := h.other k rfl

/-- Settings that read the same are managed the same. -/
theorem Managed.congr {S cur cur' : Settings F} {entries : List (SettingsEntry F)}
    (h : Managed S cur entries) (hsame : SameSettings cur' cur) : Managed S cur' entries where
  hooks event := hsame.hooks event ▸ h.hooks event
  permissions type := hsame.permissions type ▸ h.permissions type
  env k hk := (hsame.env k).trans (h.env k hk)
  trackedEnv k v hk := hsame.env k ▸ h.trackedEnv k v hk
  other k hk := (hsame.other k).trans (h.other k hk)
  trackedOther k v hk := hsame.other k ▸ h.trackedOther k v hk

/-- An install that loses nothing of the user's settings `S`: a user-scope
install of hooks cleans up settings without empty variables of the user
and has no `{}` hook entry to take out, and a status line does not replace
a `null`. -/
structure StepOk (S : Settings F) (user : Bool) (st : InstallState F) (step : InstallStep F) :
    Prop where
  env : user = true → step.options.hooks = true → (st.file.getD {}).hooks.isSome →
    ∀ k, S.envAt k ≠ some ""
  hooks : user = true → step.options.hooks = true → ∀ event, .hook event [] ∉ st.entries
  statusLine : step.options.statusLine = true → ∀ v, step.template.statusLine = some v →
    v ≠ .null → S.other.get? "statusLine" ≠ some .null

theorem trackedHooks_filter (entries : List (SettingsEntry F)) (event : String) :
    trackedHooks (entries.filter SettingsEntry.isHook) event = trackedHooks entries event := by
  induction entries with
  | nil => rfl
  | cons e es ih =>
    unfold trackedHooks at ih ⊢
    cases e with
    | hook ev v => rw [List.filter_cons_of_pos rfl, List.filterMap_cons, List.filterMap_cons, ih]
    | _ => simpa [SettingsEntry.isHook, List.filterMap_cons, SettingsEntry.hook?] using ih

/-- Without `{}` entries everything tracked is taken out. -/
theorem canonicalToRemove_eq {entries : List (SettingsEntry F)} {event : String}
    (h : .hook event [] ∉ entries) :
    canonicalToRemove (trackedHooks entries event)
      = (trackedHooks entries event).map canonicalJson := by
  unfold canonicalToRemove
  rw [List.filter_eq_self.mpr]
  intro v hv
  obtain ⟨e, he, hev⟩ := List.mem_filterMap.mp hv
  cases e with
  | hook ev w =>
    obtain ⟨rfl, hw⟩ := Option.ite_none_right_eq_some.mp hev
    cases hw
    cases v with
    | nil => exact absurd he h
    | cons _ _ => rfl
  | _ => cases hev

section Step

variable {S : Settings F} {user : Bool} {legacy : String → HookEntry F → Bool}
  {st : InstallState F} {step : InstallStep F}

/-- An install of hooks at user scope merges into the user's own hooks,
any other one into those of the file. -/
theorem prepared_hooks (hlegacy : ∀ event, ∀ e ∈ S.hooksAt event, legacy event e = false)
    (hm : Managed S (st.file.getD {}) st.entries) (hok : StepOk S user st step) (event : String) :
    Grown canonicalJson (S.hooksAt event)
      ((preparedSettings user legacy st step.options).hooksAt event)
      (if user ∧ step.options.hooks then []
        else (trackedHooks st.entries event).map canonicalJson) := by
  rw [preparedSettings_eq]
  by_cases h : user = true ∧ step.options.hooks = true
  · have hold : (withoutOldHooks user st step.options).hooksAt event = S.hooksAt event := by
      rw [(withoutOldHooks_spec user st step.options).1, oldHookEntries, if_pos h,
        trackedHooks_filter, canonicalToRemove_eq (hok.hooks h.1 h.2 event)]
      exact (hm.hooks event).without_eq
    have hkeep : (S.hooksAt event).filter (fun e => !legacy event e) = S.hooksAt event :=
      List.filter_eq_self.mpr fun e he => by rw [hlegacy event e he]; rfl
    rw [if_pos h, if_pos h, removeLegacy_hooksAt, hold, hkeep]
    exact Grown.refl _ _
  · rw [if_neg h, if_neg h]
    exact hm.hooks event

theorem prepared_permissions (type : String) :
    (preparedSettings user legacy st step.options).permissionsAt type
      = (st.file.getD {}).permissionsAt type := by
  rw [preparedSettings_eq]
  split
  · exact ((removeLegacy_rest legacy _).1 type).trans
      ((withoutOldHooks_spec user st step.options).2.1 type)
  · rfl

theorem prepared_other (k : String) :
    (preparedSettings user legacy st step.options).other.get? k
      = (st.file.getD {}).other.get? k := by
  rw [preparedSettings_eq]
  split
  · rw [(removeLegacy_rest legacy _).2]
    exact (withoutOldHooks_spec user st step.options).2.2.2.1 k
  · rfl

/-- Only variables that are empty are dropped, and none of the user's. -/
theorem prepared_env (hok : StepOk S user st step) (k : String) :
    (preparedSettings user legacy st step.options).envAt k = (st.file.getD {}).envAt k ∨
    ((st.file.getD {}).envAt k = some "" ∧ S.envAt k ≠ some "" ∧
      (preparedSettings user legacy st step.options).envAt k = none) := by
  rw [preparedSettings_eq]
  by_cases h : user = true ∧ step.options.hooks = true
  · obtain ⟨-, -, henv, -, hsome⟩ := withoutOldHooks_spec user st step.options
    rw [if_pos h, removeLegacy_envAt, henv, hsome]
    by_cases hhooks : (st.file.getD {}).hooks.isSome = true
    · rw [if_pos hhooks]
      cases hv : (st.file.getD {}).envAt k with
      | none => exact .inl rfl
      | some v =>
        by_cases hempty : v = ""
        · subst hempty
          exact .inr ⟨rfl, hok.env h.1 h.2 hhooks k, rfl⟩
        · exact .inl (by simp [Option.filter_some, hempty])
    · rw [if_neg hhooks]
      exact .inl rfl
  · rw [if_neg h]
    exact .inl rfl

/-- **One merge keeps the settings managed.** -/
theorem Managed.merge (hlegacy : ∀ event, ∀ e ∈ S.hooksAt event, legacy event e = false)
    (hm : Managed S (st.file.getD {}) st.entries) (hok : StepOk S user st step)
    {s' : Settings F} {entries : List (SettingsEntry F)}
    (hmerge : Install.merge (preparedSettings user legacy st step.options) step.template
      step.options = .ok (s', entries)) :
    Managed S s'
      (entries ++ carriedEntries entries (oldHookEntries user st step.options) st.entries) := by
  have spec := merge_spec hmerge
  refine ⟨fun event => ?_, fun type => ?_, fun k hk => ?_, fun k v hk => ?_, fun k hk => ?_,
    fun k v hk => ?_⟩
  · have hgrown := (prepared_hooks hlegacy hm hok event).union
      (if step.options.hooks then (step.template.hooks.get? event).getD [] else [])
    rw [← spec.newHooks, ← spec.hooks] at hgrown
    exact hgrown.congr (hook_carried user st step.options entries event)
  · have hgrown := (hm.permissions type).union (wantedPermissions step.template step.options type)
    have hprep : (preparedSettings user legacy st step.options).permissionsAt type
        = (st.file.getD {}).permissionsAt type := prepared_permissions type
    have hperm := spec.permissions type
    have hnew := spec.newPermissions type
    rw [hprep] at hperm hnew
    rw [List.map_id', List.map_id', ← hnew, ← hperm] at hgrown
    refine hgrown.congr fun v => ?_
    rw [mem_trackedPermissions, mem_carried_ids, List.mem_append, mem_trackedPermissions,
      mem_trackedPermissions]
    exact or_congr_right (and_iff_left ((oldHookEntries_kind user st step.options).id_not_mem
      fun _ _ => nofun))
  · rw [trackedEnv_carried, Option.or_eq_none_iff] at hk
    rw [spec.env, hk.1, Option.none_or]
    have hcur := hm.env k hk.2
    rcases @prepared_env _ _ _ _ legacy _ _ hok k with h | ⟨hempty, hS, -⟩
    · rw [h, hcur]
    · exact absurd (hcur.symm.trans hempty) hS
  · rw [trackedEnv_carried] at hk
    rw [spec.env]
    cases hnew : MultiForge.Install.trackedEnv entries k with
    | some w =>
      rw [hnew] at hk
      exact .inl hk
    | none =>
      rw [hnew, Option.none_or] at hk
      rw [Option.none_or]
      rcases @prepared_env _ _ _ _ legacy _ _ hok k with h | ⟨-, -, h⟩
      · rw [h]
        exact hm.trackedEnv k v hk
      · exact .inr h
  · rw [trackedScalar_carried, Option.or_eq_none_iff] at hk
    rw [spec.other, hk.1, Option.none_or, prepared_other, hm.other k hk.2]
  · rw [trackedScalar_carried] at hk
    rw [spec.other]
    cases hnew : trackedScalar entries k with
    | none =>
      rw [hnew, Option.none_or] at hk
      rw [Option.none_or, prepared_other]
      exact hm.trackedOther k v hk
    | some w =>
      rw [hnew] at hk
      cases hk
      obtain ⟨rfl, ho, ht, hne⟩ := spec.scalar k v hnew
      refine ⟨rfl, ?_⟩
      by_cases hv : v = .null
      · -- a `null` status line is set over another value only
        intro hS
        rw [prepared_other] at hne
        cases hold : trackedScalar st.entries "statusLine" with
        | some u => exact (hm.trackedOther _ u hold).2 hS
        | none =>
          rw [hm.other _ hold, hS, hv] at hne
          cases hne
      · exact hok.statusLine ho v ht hv

end Step

/-! ## 5. Runs of installs -/

/-- An install, or nothing when it is refused. -/
def install (user : Bool) (legacy : String → HookEntry F → Bool) (st : InstallState F)
    (step : InstallStep F) : InstallState F :=
  match applyInstallSettings user legacy st step with
  | .ok st' => st'
  | .error _ => st

/-- Installs and syncs, one after another. -/
def installAll (user : Bool) (legacy : String → HookEntry F → Bool) :
    InstallState F → List (InstallStep F) → InstallState F
  | st, [] => st
  | st, step :: rest => installAll user legacy (install user legacy st step) rest

/-- Every install of a run loses nothing. -/
def RunOk (S : Settings F) (user : Bool) (legacy : String → HookEntry F → Bool) :
    InstallState F → List (InstallStep F) → Prop
  | _, [] => True
  | st, step :: rest =>
      StepOk S user st step ∧ RunOk S user legacy (install user legacy st step) rest

/-- What is recorded about the settings `S` of a user. -/
structure Recorded (S : Settings F) (st : InstallState F) : Prop where
  managed : Managed S (st.file.getD {}) st.entries
  addedFile : st.addedFile = some (entriesToAddedStructure st.entries) ∨
    (st.addedFile = none ∧ st.entries = [])
  baseline : ∀ b, st.baseline = some b → b.getD {} = S
  noBaseline : st.baseline = none → st.entries = [] ∧ st.file.getD {} = S

theorem Recorded.start (file : Option (Settings F)) :
    Recorded (file.getD {}) ({ file := file } : InstallState F) :=
  ⟨Managed.refl _, .inr ⟨rfl, rfl⟩, fun _ h => by (cases h), fun _ => ⟨rfl, rfl⟩⟩

variable {S : Settings F} {user : Bool} {legacy : String → HookEntry F → Bool}

/-- **One install keeps the record.** -/
theorem Recorded.install {st : InstallState F} {step : InstallStep F}
    (hlegacy : ∀ event, ∀ e ∈ S.hooksAt event, legacy event e = false)
    (h : Recorded S st) (hok : StepOk S user st step) :
    Recorded S (Install.install user legacy st step) := by
  unfold Install.install applyInstallSettings
  simp only
  by_cases hmodules : step.options.hooks = true ∨ step.options.statusLine = true ∨
      step.options.permissions = true
  · rw [if_pos hmodules]
    cases hmerge : merge (preparedSettings user legacy st step.options) step.template
        step.options with
    | error c => exact h
    | ok r =>
      obtain ⟨s', entries⟩ := r
      refine ⟨h.managed.merge hlegacy hok hmerge, .inl rfl, fun b hb => ?_, nofun⟩
      cases hb
      cases hbase : st.baseline with
      | none => exact (h.noBaseline hbase).2
      | some b => exact h.baseline b hbase
  · rw [if_neg hmodules]
    refine ⟨h.managed, ?_, h.baseline, h.noBaseline⟩
    simp only
    split
    · exact h.addedFile
    · exact .inl rfl

/-- **A run of installs keeps the record.** -/
theorem Recorded.installAll (hlegacy : ∀ event, ∀ e ∈ S.hooksAt event, legacy event e = false) :
    ∀ {steps : List (InstallStep F)} {st : InstallState F}, Recorded S st →
      RunOk S user legacy st steps → Recorded S (Install.installAll user legacy st steps)
  | [], _, h, _ => h
  | _ :: _, _, h, hok => (h.install hlegacy hok.1).installAll hlegacy hok.2

/-! ## 6. Uninstalling -/

/-- An uninstall that loses nothing: unless nothing was added, the user has
no empty variables, every variable of the user's that was set is still
there to be restored, and the status line that was set equals itself. -/
structure UninstallOk (S : Settings F) (st : InstallState F) : Prop where
  env : st.entries ≠ [] → ∀ k, S.envAt k ≠ some ""
  trackedEnv : ∀ k, trackedEnv st.entries k ≠ none → S.envAt k ≠ none →
    (st.file.getD {}).envAt k ≠ none
  scalar : ∀ k v, trackedScalar st.entries k = some v → deepEquals v v

/-- **Taking the tracked entries out of managed settings gives the user's.** -/
theorem Managed.smartUnmerge {cur : Settings F} {entries : List (SettingsEntry F)}
    (hm : Managed S cur entries)
    (henv : ∀ k, Install.trackedEnv entries k ≠ none → S.envAt k ≠ none → cur.envAt k ≠ none)
    (hscalar : ∀ k v, trackedScalar entries k = some v → deepEquals v v) :
    SameSettings (Install.smartUnmerge cur S (entriesToAddedStructure entries)) S := by
  refine ⟨fun event => ?_, fun type => ?_, fun k => ?_, fun k => ?_⟩
  · rw [smartUnmerge_hooksAt]
    exact (hm.hooks event).without_eq
  · rw [smartUnmerge_permissionsAt]
    exact (hm.permissions type).without_eq
  · rw [smartUnmerge_envAt]
    cases htracked : Install.trackedEnv entries k with
    | none => exact hm.env k htracked
    | some v =>
      rcases hm.trackedEnv k v htracked with hcur | hcur
      · simp [hcur, restoreEnv]
      · -- the variable was dropped, so it is not the user's
        have hS : S.envAt k = none := by
          by_contra hS
          exact henv k (by simp [htracked]) hS hcur
        rw [hcur, hS]
        rfl
  · rw [smartUnmerge_other]
    cases htracked : trackedScalar entries k with
    | none => exact hm.other k htracked
    | some v =>
      obtain ⟨hcur, hnull⟩ := hm.trackedOther k v htracked
      simp only [hcur, Option.bind_some, restoreScalar, hscalar k v htracked, if_true]

/-- Taking out nothing. -/
theorem unmerge_nil (s : Settings F) : SameSettings (unmerge s []) s := by
  obtain ⟨hp, he, ho⟩ := unmerge_hooks_only (s := s) (show OfKind .hook [] by simp [OfKind])
  exact ⟨fun event => (unmerge_hooksAt s [] event).trans (without_none _ _), hp, he, ho⟩

/-- Nothing was added when no entries are tracked, and only then. -/
theorem added_isEmpty {entries : List (SettingsEntry F)}
    (h : (entriesToAddedStructure entries).isEmpty = true) : entries = [] := by
  simp only [Added.isEmpty, Bool.and_eq_true] at h
  obtain ⟨⟨⟨hhooks, hperms⟩, henv⟩, hscalars⟩ := h
  refine List.eq_nil_iff_forall_not_mem.mpr fun e he => ?_
  have hid : e.id ∈ entries.map SettingsEntry.id := List.mem_map.mpr ⟨e, he, rfl⟩
  cases e with
  | hook ev v =>
    have hnone := added_hooks ev entries
    rw [Dict.get?_of_isEmpty hhooks] at hnone
    have hmem := mem_trackedHooks.mpr hid
    rw [← hnone] at hmem
    cases hmem
  | permission ty v =>
    have hnone := added_permissions ty entries
    rw [Dict.get?_of_isEmpty hperms] at hnone
    have hmem := mem_trackedPermissions.mpr hid
    rw [← hnone] at hmem
    cases hmem
  | env k v =>
    have hnone := added_env k entries
    rw [Dict.get?_of_isEmpty henv, eq_comm, trackedEnv, List.getLast?_eq_none_iff] at hnone
    exact List.ne_nil_of_mem (List.mem_filterMap.mpr ⟨_, he, if_pos rfl⟩) hnone
  | scalar k v =>
    have hnone := added_scalars k entries
    rw [Dict.get?_of_isEmpty hscalars, eq_comm, trackedScalar, List.getLast?_eq_none_iff] at hnone
    exact List.ne_nil_of_mem (List.mem_filterMap.mpr ⟨_, he, if_pos rfl⟩) hnone

theorem isEmpty_same {s : Settings F} (h : s.isEmpty = true) : SameSettings {} s := by
  simp only [Settings.isEmpty, Bool.and_eq_true, Option.isNone_iff_eq_none] at h
  obtain ⟨⟨⟨hh, hp⟩, he⟩, ho⟩ := h
  refine ⟨fun _ => ?_, fun _ => ?_, fun _ => ?_, fun k => (Dict.get?_of_isEmpty ho k).symm⟩
  · simp [Settings.hooksAt, hh]
  · simp [Settings.permissionsAt, hp]
  · simp [Settings.envAt, he]

theorem SameSettings.refl (s : Settings F) : SameSettings s s :=
  ⟨fun _ => rfl, fun _ => rfl, fun _ => rfl, fun _ => rfl⟩

theorem SameSettings.trans {a b c : Settings F} (h : SameSettings a b) (h' : SameSettings b c) :
    SameSettings a c :=
  ⟨fun e => (h.hooks e).trans (h'.hooks e), fun t => (h.permissions t).trans (h'.permissions t),
    fun k => (h.env k).trans (h'.env k), fun k => (h.other k).trans (h'.other k)⟩

/-- **Uninstalling recorded settings gives the user's.** -/
theorem Recorded.uninstall {st : InstallState F} (h : Recorded S st) (hok : UninstallOk S st) :
    SameSettings ((uninstallSettings st).getD {}) S := by
  unfold uninstallSettings
  simp only
  split
  · rename_i hnothing
    have hentries := List.isEmpty_iff.mp hnothing.1
    have hm := h.managed
    rw [hentries] at hm
    exact hm.same
  · split
    · rename_i hempty
      have hentries : st.entries = [] := by
        rcases h.addedFile with hadded | ⟨-, hnil⟩
        · rw [hadded] at hempty
          exact added_isEmpty hempty
        · exact hnil
      have hm := h.managed
      rw [hentries] at hm ⊢
      exact (unmerge_nil _).trans hm.same
    · rename_i hadded
      have hfile : st.addedFile = some (entriesToAddedStructure st.entries) := by
        rcases h.addedFile with hadd | ⟨hnone, -⟩
        · exact hadd
        · rw [hnone] at hadded
          exact absurd rfl hadded
      have hentries : st.entries ≠ [] := by
        intro hnil
        rw [hfile, hnil] at hadded
        exact hadded rfl
      obtain ⟨b, hb⟩ : ∃ b, st.baseline = some b := by
        cases hbase : st.baseline with
        | none => exact absurd (h.noBaseline hbase).1 hentries
        | some b => exact ⟨b, rfl⟩
      have hS := h.baseline b hb
      rw [hfile, hb, Option.getD_some, Option.getD_some, hS]
      have hresult := cleanup_same (h.managed.smartUnmerge hok.trackedEnv hok.scalar)
        (hok.env hentries)
      have hbackup := cleanup_same (SameSettings.refl S) (hok.env hentries)
      split
      · split
        · exact hbackup
        · rename_i hnofile
          cases b with
          | none => exact hS ▸ SameSettings.refl _
          | some s =>
            have hempty : (cleanupEmptySettings S).isEmpty = true := by
              simpa using hnofile
            exact (isEmpty_same hempty).trans hbackup
      · exact hresult

/-- **Installs, syncs and an uninstall give the user's settings back**, when
every step of the run loses nothing. -/
theorem uninstall_restores (user : Bool) (legacy : String → HookEntry F → Bool)
    (file : Option (Settings F)) (steps : List (InstallStep F))
    (hlegacy : ∀ event, ∀ e ∈ (file.getD {}).hooksAt event, legacy event e = false)
    (hrun : RunOk (file.getD {}) user legacy { file := file } steps)
    (hlast : UninstallOk (file.getD {}) (installAll user legacy { file := file } steps)) :
    SameSettings ((uninstallSettings (installAll user legacy { file := file } steps)).getD {})
      (file.getD {}) :=
  ((Recorded.start file).installAll hlegacy hrun).uninstall hlast

/-- A user's settings and two installs: hooks and permissions, then other
permissions and a status line. -/
def userSettings : Settings FloatText :=
  { hooks := some ⟨[("Stop", [[("command", .str "mine")]])], by decide⟩
    permissions := some ⟨[("allow", ["Read"])], by decide⟩
    env := some ⟨[("MODE", "mine")], by decide⟩ }

def hooksInstall : InstallStep FloatText where
  template :=
    { hooks := ⟨[("Stop", [[("command", .str "forge")]])], by decide⟩
      allow := ["Read", "Bash"]
      env := ⟨[("MODE", "forge")], by decide⟩ }
  options := ⟨true, false, true, false⟩

def statusLineSync : InstallStep FloatText where
  template := { deny := ["Write"], statusLine := some (.str "forge") }
  options := ⟨false, true, true, false⟩

theorem twoInstalls_restored :
    SameSettings ((uninstallSettings (installAll true (fun _ _ => false)
      { file := some userSettings } [hooksInstall, statusLineSync])).getD {}) userSettings := by
  have hfull : ∀ k, userSettings.envAt k ≠ some "" := fun k => by
    by_cases h : "MODE" = k <;>
      simp [userSettings, Settings.envAt, Dict.get?, Dict.find, h]
  have hentries : (installAll true (fun _ _ => false) { file := some userSettings }
      [hooksInstall, statusLineSync]).entries
      = [.permission "deny" "Write", .scalar "statusLine" (.str "forge"),
        .hook "Stop" [("command", .str "forge")], .permission "allow" "Bash",
        .env "MODE" "forge"] := by decide +kernel
  refine uninstall_restores true (fun _ _ => false) (some userSettings)
    [hooksInstall, statusLineSync] (fun _ _ _ => rfl) ⟨⟨fun _ _ _ => hfull, ?_, ?_⟩,
      ⟨⟨?_, ?_, fun _ _ _ _ => ?_⟩, trivial⟩⟩ ⟨fun _ => hfull, fun k _ hS => ?_, fun k v hv => ?_⟩
  · rintro _ _ _ ⟨⟩
  · rintro ⟨⟩
  · rintro _ ⟨⟩
  · rintro _ ⟨⟩
  · rintro ⟨⟩
  · by_cases hk : "MODE" = k
    · subst hk; decide +kernel
    · exact absurd (by simp [userSettings, Settings.envAt, Dict.get?, Dict.find, hk]) hS
  · rw [hentries] at hv
    by_cases hk : "statusLine" = k
    · subst hk
      have hv : some (.str "forge") = some v := hv
      cases hv
      decide +kernel
    · simp [trackedScalar, SettingsEntry.scalar?, List.findSome?_cons, hk] at hv

/-- A user's variable that is set to nothing is lost. -/
theorem emptyVariable_lost :
    ¬ SameSettings ((uninstallSettings (installAll false (fun _ _ => false)
        { file := some { env := some ⟨[("PAGER", "")], by decide⟩ } }
        [{ template := { allow := ["Read"] }, options := ⟨false, false, true, false⟩ }])).getD {})
      ({ env := some ⟨[("PAGER", "")], by decide⟩ } : Settings FloatText) := by
  intro h
  exact absurd (h.env "PAGER") (by decide +kernel)

end MultiForge.Install
