/-
MultiForge.Install.MergeSpec — what a merge of settings does, key by key.

Settings are read by key: the hook entries of an event, the permissions of
a type, a variable and every other key. Tracking entries are read the same
way (`trackedHooks` and the like). `merge_spec` says what a merge leaves
under each key and what it tracks there; `added_hooks` and the like say
that the `.forge.added` structure holds the tracked entries.
-/
import Mathlib.Data.List.Induction
import MultiForge.Install.SettingsMerge

set_option linter.unusedSectionVars false

namespace MultiForge.Install

open Json KeyedUnion

variable {F : Type} [PyFloatText F]

/-! ## 1. Entries by key -/

def SettingsEntry.env? (key : String) : SettingsEntry F → Option String
  | .env k v => if k = key then some v else none
  | _ => none

def SettingsEntry.scalar? (key : String) : SettingsEntry F → Option (Json F)
  | .scalar k v => if k = key then some v else none
  | _ => none

/-- The tracked hook entries of an event. -/
def trackedHooks (entries : List (SettingsEntry F)) (event : String) : List (HookEntry F) :=
  entries.filterMap (SettingsEntry.hook? event)

def trackedPermissions (entries : List (SettingsEntry F)) (type : String) : List String :=
  entries.filterMap (SettingsEntry.permission? type)

/-- The tracked value of a variable. -/
def trackedEnv (entries : List (SettingsEntry F)) (key : String) : Option String :=
  (entries.filterMap (SettingsEntry.env? key)).getLast?

def trackedScalar (entries : List (SettingsEntry F)) (key : String) : Option (Json F) :=
  (entries.filterMap (SettingsEntry.scalar? key)).getLast?

/-- The four kinds of entries. -/
inductive EntryKind where
  | hook
  | permission
  | env
  | scalar
  deriving DecidableEq

def SettingsEntry.kind : SettingsEntry F → EntryKind
  | .hook _ _ => .hook
  | .permission _ _ => .permission
  | .env _ _ => .env
  | .scalar _ _ => .scalar

/-- Every entry of a list has a kind. -/
def OfKind (k : EntryKind) (es : List (SettingsEntry F)) : Prop := ∀ e ∈ es, e.kind = k

theorem trackedHooks_append (as bs : List (SettingsEntry F)) (event : String) :
    trackedHooks (as ++ bs) event = trackedHooks as event ++ trackedHooks bs event :=
  List.filterMap_append

theorem trackedPermissions_append (as bs : List (SettingsEntry F)) (type : String) :
    trackedPermissions (as ++ bs) type = trackedPermissions as type ++ trackedPermissions bs type :=
  List.filterMap_append

theorem trackedEnv_append (as bs : List (SettingsEntry F)) (key : String) :
    trackedEnv (as ++ bs) key = (trackedEnv bs key).or (trackedEnv as key) := by
  simp [trackedEnv, List.filterMap_append, List.getLast?_append]

theorem trackedScalar_append (as bs : List (SettingsEntry F)) (key : String) :
    trackedScalar (as ++ bs) key = (trackedScalar bs key).or (trackedScalar as key) := by
  simp [trackedScalar, List.filterMap_append, List.getLast?_append]

/-- Entries of one kind are tracked under no other. -/
theorem OfKind.filterMap_nil {α : Type} {k : EntryKind} {es : List (SettingsEntry F)}
    (h : OfKind k es) {f : SettingsEntry F → Option α} (hf : ∀ e, e.kind = k → f e = none) :
    es.filterMap f = [] :=
  List.filterMap_eq_nil_iff.mpr fun e he => hf e (h e he)

theorem OfKind.trackedHooks_nil {k : EntryKind} {es : List (SettingsEntry F)} (h : OfKind k es)
    (hk : k ≠ .hook) (event : String) : trackedHooks es event = [] :=
  h.filterMap_nil fun e he => by cases e <;> simp_all [SettingsEntry.kind, SettingsEntry.hook?]

theorem OfKind.trackedPermissions_nil {k : EntryKind} {es : List (SettingsEntry F)}
    (h : OfKind k es) (hk : k ≠ .permission) (type : String) : trackedPermissions es type = [] :=
  h.filterMap_nil fun e he => by
    cases e <;> simp_all [SettingsEntry.kind, SettingsEntry.permission?]

theorem OfKind.trackedEnv_none {k : EntryKind} {es : List (SettingsEntry F)} (h : OfKind k es)
    (hk : k ≠ .env) (key : String) : trackedEnv es key = none := by
  have hnil : es.filterMap (SettingsEntry.env? key) = [] := h.filterMap_nil fun e he => by
    cases e <;> simp_all [SettingsEntry.kind, SettingsEntry.env?]
  rw [trackedEnv, hnil]
  rfl

theorem OfKind.trackedScalar_none {k : EntryKind} {es : List (SettingsEntry F)} (h : OfKind k es)
    (hk : k ≠ .scalar) (key : String) : trackedScalar es key = none := by
  have hnil : es.filterMap (SettingsEntry.scalar? key) = [] := h.filterMap_nil fun e he => by
    cases e <;> simp_all [SettingsEntry.kind, SettingsEntry.scalar?]
  rw [trackedScalar, hnil]
  rfl

theorem added_hooks (event : String) (entries : List (SettingsEntry F)) :
    ((entriesToAddedStructure entries).hooks.get? event).getD [] = trackedHooks entries event := by
  induction entries using List.reverseRecOn with
  | nil => rfl
  | append_singleton entries e ih =>
    unfold entriesToAddedStructure trackedHooks at ih ⊢
    rw [List.foldl_append, List.filterMap_append, ← ih]
    cases e with
    | hook ev v =>
      by_cases h : ev = event
      · simp [Added.add, SettingsEntry.hook?, Dict.get?_set, h]
      · have h' : ¬ event = ev := fun e => h e.symm
        simp [Added.add, SettingsEntry.hook?, Dict.get?_set, h, h']
    | _ => simp [Added.add, SettingsEntry.hook?]

theorem added_permissions (type : String) (entries : List (SettingsEntry F)) :
    ((entriesToAddedStructure entries).permissions.get? type).getD []
      = trackedPermissions entries type := by
  induction entries using List.reverseRecOn with
  | nil => rfl
  | append_singleton entries e ih =>
    unfold entriesToAddedStructure trackedPermissions at ih ⊢
    rw [List.foldl_append, List.filterMap_append, ← ih]
    cases e with
    | permission t v =>
      by_cases h : t = type
      · simp [Added.add, SettingsEntry.permission?, Dict.get?_set, h]
      · have h' : ¬ type = t := fun e => h e.symm
        simp [Added.add, SettingsEntry.permission?, Dict.get?_set, h, h']
    | _ => simp [Added.add, SettingsEntry.permission?]

theorem added_env (key : String) (entries : List (SettingsEntry F)) :
    (entriesToAddedStructure entries).env.get? key = trackedEnv entries key := by
  induction entries using List.reverseRecOn with
  | nil => rfl
  | append_singleton entries e ih =>
    unfold entriesToAddedStructure trackedEnv at ih ⊢
    rw [List.foldl_append, List.filterMap_append]
    cases e with
    | env k v =>
      by_cases h : k = key
      · simp [Added.add, SettingsEntry.env?, Dict.get?_set, h]
      · have h' : ¬ key = k := fun e => h e.symm
        simp [Added.add, SettingsEntry.env?, Dict.get?_set, h, h', ih]
    | _ => simp [Added.add, SettingsEntry.env?, ih]

theorem added_scalars (key : String) (entries : List (SettingsEntry F)) :
    (entriesToAddedStructure entries).scalars.get? key = trackedScalar entries key := by
  induction entries using List.reverseRecOn with
  | nil => rfl
  | append_singleton entries e ih =>
    unfold entriesToAddedStructure trackedScalar at ih ⊢
    rw [List.foldl_append, List.filterMap_append]
    cases e with
    | scalar k v =>
      by_cases h : k = key
      · simp [Added.add, SettingsEntry.scalar?, Dict.get?_set, h]
      · have h' : ¬ key = k := fun e => h e.symm
        simp [Added.add, SettingsEntry.scalar?, Dict.get?_set, h, h', ih]
    | _ => simp [Added.add, SettingsEntry.scalar?, ih]

/-! ## 2. What merging holds -/

theorem find_sortedItems {α : Type} (d : Dict String α) (k : String) :
    Dict.find k (sortedItems d) = d.get? k := by
  have hperm : (sortedItems d).Perm d.entries := List.perm_insertionSort _ _
  have hnd : ((sortedItems d).map Prod.fst).Nodup := (hperm.map Prod.fst).nodup_iff.mpr d.nodup
  refine Option.ext fun a => ?_
  rw [Dict.find_eq_some_iff hnd, Dict.get?_eq_some_iff]
  exact hperm.mem_iff

theorem sortedItems_nodup {α : Type} (d : Dict String α) :
    ((sortedItems d).map Prod.fst).Nodup := by
  have hperm : (sortedItems d).Perm d.entries := List.perm_insertionSort _ _
  exact (hperm.map Prod.fst).nodup_iff.mpr d.nodup

theorem mergeHooks_hooksAt (s : Settings F) (event : String) (entries : List (HookEntry F))
    (e : String) :
    (mergeHooks s event entries).1.hooksAt e = s.hooksAt e ++ (if e = event then
      fresh canonicalJson ((s.hooksAt event).map canonicalJson) entries else []) := by
  by_cases h : e = event
  · subst h; simp [mergeHooks, Settings.hooksAt, Dict.get?_set]
  · simp [mergeHooks, Settings.hooksAt, Dict.get?_set, h]

theorem mergeHooks_tracked (s : Settings F) (event : String) (entries : List (HookEntry F))
    (e : String) :
    trackedHooks (mergeHooks s event entries).2 e = if e = event then
      fresh canonicalJson ((s.hooksAt event).map canonicalJson) entries else [] := by
  unfold trackedHooks mergeHooks
  by_cases he : e = event
  · subst he; simp [List.filterMap_map, Function.comp_def, SettingsEntry.hook?]
  · have he' : ¬ event = e := fun h => he h.symm
    simp [List.filterMap_map, Function.comp_def, SettingsEntry.hook?, he, he']

/-- Merging the hooks changes the hooks only. -/
structure OnlyHooks (s s' : Settings F) (entries : List (SettingsEntry F)) : Prop where
  permissions : s'.permissions = s.permissions
  env : s'.env = s.env
  other : s'.other = s.other
  kind : OfKind .hook entries

theorem mergeHookTypes_spec : ∀ {l : List (String × List (HookEntry F))} (s : Settings F),
    (l.map Prod.fst).Nodup →
    OnlyHooks s (mergeHookTypes l s).1 (mergeHookTypes l s).2 ∧
    ∀ e, trackedHooks (mergeHookTypes l s).2 e
        = fresh canonicalJson ((s.hooksAt e).map canonicalJson) ((Dict.find e l).getD []) ∧
      (mergeHookTypes l s).1.hooksAt e
        = s.hooksAt e ++ trackedHooks (mergeHookTypes l s).2 e
  | [], s, _ => ⟨⟨rfl, rfl, rfl, by simp [mergeHookTypes, OfKind]⟩, fun e => by
      simp [mergeHookTypes, trackedHooks, Dict.find, fresh]⟩
  | (event, entries) :: rest, s, h => by
      obtain ⟨hevent, hrest⟩ := List.nodup_cons.mp h
      obtain ⟨honly, hspec⟩ := mergeHookTypes_spec (mergeHooks s event entries).1 hrest
      refine ⟨⟨honly.permissions, honly.env, honly.other, ?_⟩, fun e => ?_⟩
      · intro x hx
        rcases List.mem_append.mp hx with hx | hx
        · obtain ⟨v, -, rfl⟩ := List.mem_map.mp hx
          rfl
        · exact honly.kind x hx
      · obtain ⟨htracked, hat⟩ := hspec e
        have hsplit : trackedHooks (mergeHookTypes ((event, entries) :: rest) s).2 e
            = trackedHooks (mergeHooks s event entries).2 e
              ++ trackedHooks (mergeHookTypes rest (mergeHooks s event entries).1).2 e :=
          List.filterMap_append
        have hone := mergeHooks_hooksAt s event entries e
        rw [hsplit, mergeHooks_tracked]
        by_cases he : e = event
        · subst he
          have hnone : Dict.find e rest = none := Dict.find_eq_none_iff.mpr hevent
          rw [hnone, Option.getD_none, fresh] at htracked
          rw [if_pos rfl] at hone ⊢
          rw [htracked, List.append_nil] at hat ⊢
          exact ⟨by simp [Dict.find], hat.trans hone⟩
        · have he' : ¬ event = e := fun h => he h.symm
          rw [if_neg he, List.append_nil] at hone
          rw [if_neg he, List.nil_append, Dict.find, if_neg he', ← hone]
          exact ⟨htracked, hat⟩

/-- The permissions of a type, for `merge_permissions` on an empty list
too. -/
theorem mergePermissions_spec (s : Settings F) (type : String) (entries : List String) :
    (mergePermissions s type entries).1.hooks = s.hooks ∧
    (mergePermissions s type entries).1.env = s.env ∧
    (mergePermissions s type entries).1.other = s.other ∧
    (mergePermissions s type entries).2
      = (fresh (fun p => p) (s.permissionsAt type) entries).map (.permission type) ∧
    ∀ t, (mergePermissions s type entries).1.permissionsAt t = s.permissionsAt t
      ++ (if t = type then fresh (fun p => p) (s.permissionsAt type) entries else []) := by
  unfold mergePermissions
  split
  · rename_i hempty
    rw [List.isEmpty_iff.mp hempty]
    exact ⟨rfl, rfl, rfl, rfl, fun t => by simp [fresh]⟩
  · refine ⟨rfl, rfl, rfl, rfl, fun t => ?_⟩
    by_cases h : t = type
    · subst h; simp [Settings.permissionsAt, Dict.get?_set]
    · simp [Settings.permissionsAt, Dict.get?_set, h]

theorem mergeEnv_spec (s : Settings F) (forgeEnv : Dict String String) :
    (mergeEnv s forgeEnv).1.hooks = s.hooks ∧
    (mergeEnv s forgeEnv).1.permissions = s.permissions ∧
    (mergeEnv s forgeEnv).1.other = s.other ∧
    (mergeEnv s forgeEnv).2 = (sortedItems forgeEnv).map (fun kv => .env kv.1 kv.2) ∧
    ∀ k, (mergeEnv s forgeEnv).1.envAt k = (forgeEnv.get? k).or (s.envAt k) := by
  unfold mergeEnv
  split
  · rename_i hempty
    have hnil : sortedItems forgeEnv = [] := by
      rw [sortedItems, List.isEmpty_iff.mp hempty]
      rfl
    refine ⟨rfl, rfl, rfl, by rw [hnil]; rfl, fun k => ?_⟩
    rw [Dict.get?_of_isEmpty hempty]
    rfl
  · refine ⟨rfl, rfl, rfl, rfl, fun k => ?_⟩
    show (Dict.upsertEach (fun _ v => v) (sortedItems forgeEnv) (s.env.getD .empty)).get? k = _
    rw [Dict.get?_upsertEach _ k (sortedItems_nodup forgeEnv), find_sortedItems]
    cases forgeEnv.get? k <;> rfl

theorem trackedEnv_sortedItems (d : Dict String String) (k : String) :
    trackedEnv (F := F) ((sortedItems d).map fun kv => .env kv.1 kv.2) k = d.get? k := by
  rw [← find_sortedItems d k]
  have key : ∀ {l : List (String × String)}, (l.map Prod.fst).Nodup →
      trackedEnv (F := F) (l.map fun kv => .env kv.1 kv.2) k = Dict.find k l := by
    intro l
    induction l with
    | nil => exact fun _ => rfl
    | cons kv l ih =>
      intro h
      obtain ⟨hk, hrest⟩ := List.nodup_cons.mp h
      have ih := ih hrest
      unfold trackedEnv at ih ⊢
      rw [List.map_cons, List.filterMap_cons]
      by_cases hkk : kv.1 = k
      · have hnone : Dict.find k l = none := Dict.find_eq_none_iff.mpr (hkk ▸ hk)
        rw [hnone, List.getLast?_eq_none_iff] at ih
        simp [SettingsEntry.env?, hkk, Dict.find, ih]
      · have hskip : SettingsEntry.env? (F := F) k (.env kv.1 kv.2) = none := if_neg hkk
        simp only [hskip]
        rw [ih, Dict.find, if_neg hkk]
  exact key (sortedItems_nodup d)

/-- The status line changes one key only, and only to another value. -/
theorem mergeStatusLine_spec {s s' : Settings F} {t : Template F} {o : MergeOptions}
    {entries : List (SettingsEntry F)} (h : mergeStatusLine s t o = .ok (s', entries)) :
    (s' = s ∧ entries = []) ∨
    ∃ v, o.statusLine = true ∧ t.statusLine = some v ∧
      ((s.other.get? "statusLine").getD .null).pyEq v = false ∧
      s' = { s with other := s.other.set "statusLine" v } ∧ entries = [.scalar "statusLine" v] := by
  unfold mergeStatusLine at h
  split at h
  · rename_i v hv
    split at h
    · rename_i ho
      unfold setScalar at h
      simp only at h
      split at h
      · cases h
      · split at h
        · cases h; exact .inl ⟨rfl, rfl⟩
        · rename_i hne
          cases h
          exact .inr ⟨v, ho, hv, by simpa using hne, rfl, rfl⟩
    · cases h; exact .inl ⟨rfl, rfl⟩
  · cases h; exact .inl ⟨rfl, rfl⟩

/-- The permissions an install asks for. -/
def wantedPermissions (t : Template F) (o : MergeOptions) (type : String) : List String :=
  if o.permissions then
    if type = "allow" then t.allow else if type = "deny" then t.deny else []
  else []

theorem mergeHookSection_spec (s : Settings F) (t : Template F) (o : MergeOptions) :
    OnlyHooks s (mergeHookSection s t o).1 (mergeHookSection s t o).2 ∧
    ∀ e, trackedHooks (mergeHookSection s t o).2 e
        = fresh canonicalJson ((s.hooksAt e).map canonicalJson)
            (if o.hooks then (t.hooks.get? e).getD [] else []) ∧
      (mergeHookSection s t o).1.hooksAt e
        = s.hooksAt e ++ trackedHooks (mergeHookSection s t o).2 e := by
  unfold mergeHookSection
  split
  · obtain ⟨honly, hspec⟩ := mergeHookTypes_spec s (sortedItems_nodup t.hooks)
    refine ⟨honly, fun e => ?_⟩
    rw [← find_sortedItems]
    exact hspec e
  · refine ⟨⟨rfl, rfl, rfl, by simp [OfKind]⟩, fun e => ?_⟩
    simp [fresh, trackedHooks]

theorem trackedPermissions_map (type ty : String) (l : List String) :
    trackedPermissions (F := F) (l.map (.permission type)) ty = if ty = type then l else [] := by
  unfold trackedPermissions
  by_cases h : ty = type
  · subst h; simp [List.filterMap_map, Function.comp_def, SettingsEntry.permission?]
  · have h' : ¬ type = ty := fun e => h e.symm
    simp [List.filterMap_map, Function.comp_def, SettingsEntry.permission?, h, h']

theorem mergePermissionSection_spec (s : Settings F) (t : Template F) (o : MergeOptions) :
    (mergePermissionSection s t o).1.hooks = s.hooks ∧
    (mergePermissionSection s t o).1.env = s.env ∧
    (mergePermissionSection s t o).1.other = s.other ∧
    OfKind .permission (mergePermissionSection s t o).2 ∧
    ∀ ty, trackedPermissions (mergePermissionSection s t o).2 ty
        = fresh (fun p => p) (s.permissionsAt ty) (wantedPermissions t o ty) ∧
      (mergePermissionSection s t o).1.permissionsAt ty
        = s.permissionsAt ty ++ trackedPermissions (mergePermissionSection s t o).2 ty := by
  unfold mergePermissionSection wantedPermissions
  split
  · obtain ⟨hh, he, ho, hes, hat⟩ := mergePermissions_spec s "allow" t.allow
    obtain ⟨hh', he', ho', hes', hat'⟩ :=
      mergePermissions_spec (mergePermissions s "allow" t.allow).1 "deny" t.deny
    refine ⟨hh'.trans hh, he'.trans he, ho'.trans ho, ?_, fun ty => ?_⟩
    · intro e hmem
      simp only [hes, hes'] at hmem
      rcases List.mem_append.mp hmem with hmem | hmem
      · obtain ⟨v, -, rfl⟩ := List.mem_map.mp hmem
        rfl
      · obtain ⟨v, -, rfl⟩ := List.mem_map.mp hmem
        rfl
    · have htracked : trackedPermissions ((mergePermissions s "allow" t.allow).2
          ++ (mergePermissions (mergePermissions s "allow" t.allow).1 "deny" t.deny).2) ty
          = (if ty = "allow" then fresh (fun p => p) (s.permissionsAt "allow") t.allow else [])
            ++ (if ty = "deny" then fresh (fun p => p)
              ((mergePermissions s "allow" t.allow).1.permissionsAt "deny") t.deny else []) := by
        rw [trackedPermissions_append, hes, hes', trackedPermissions_map, trackedPermissions_map]
      simp only [htracked, hat', hat]
      by_cases hallow : ty = "allow"
      · subst hallow; simp
      · by_cases hdeny : ty = "deny"
        · subst hdeny; simp
        · simp [hallow, hdeny, fresh]
  · exact ⟨rfl, rfl, rfl, by simp [OfKind], fun ty => by simp [fresh, trackedPermissions]⟩

theorem mergeEnvSection_spec (s : Settings F) (t : Template F) (o : MergeOptions) :
    (mergeEnvSection s t o).1.hooks = s.hooks ∧
    (mergeEnvSection s t o).1.permissions = s.permissions ∧
    (mergeEnvSection s t o).1.other = s.other ∧
    OfKind .env (mergeEnvSection s t o).2 ∧
    ∀ k, (mergeEnvSection s t o).1.envAt k
      = (trackedEnv (mergeEnvSection s t o).2 k).or (s.envAt k) := by
  unfold mergeEnvSection
  split
  · obtain ⟨hh, hp, ho, hes, hat⟩ := mergeEnv_spec s t.env
    refine ⟨hh, hp, ho, ?_, fun k => ?_⟩
    · intro e hmem
      rw [hes] at hmem
      obtain ⟨kv, -, rfl⟩ := List.mem_map.mp hmem
      rfl
    · rw [hat, hes, trackedEnv_sortedItems]
  · exact ⟨rfl, rfl, rfl, by simp [OfKind], fun k => rfl⟩

/-- What a merge does, key by key. -/
structure Merged (s s' : Settings F) (t : Template F) (o : MergeOptions)
    (entries : List (SettingsEntry F)) : Prop where
  hooks : ∀ e, s'.hooksAt e = s.hooksAt e ++ trackedHooks entries e
  newHooks : ∀ e, trackedHooks entries e = fresh canonicalJson ((s.hooksAt e).map canonicalJson)
    (if o.hooks then (t.hooks.get? e).getD [] else [])
  permissions : ∀ ty, s'.permissionsAt ty = s.permissionsAt ty ++ trackedPermissions entries ty
  newPermissions : ∀ ty, trackedPermissions entries ty
    = fresh (fun p => p) (s.permissionsAt ty) (wantedPermissions t o ty)
  env : ∀ k, s'.envAt k = (trackedEnv entries k).or (s.envAt k)
  other : ∀ k, s'.other.get? k = (trackedScalar entries k).or (s.other.get? k)
  scalar : ∀ k v, trackedScalar entries k = some v → k = "statusLine" ∧ o.statusLine = true ∧
    t.statusLine = some v ∧ ((s.other.get? "statusLine").getD .null).pyEq v = false

/-- **A merge**, key by key. -/
theorem merge_spec {s s' : Settings F} {t : Template F} {o : MergeOptions}
    {entries : List (SettingsEntry F)} (h : merge s t o = .ok (s', entries)) :
    Merged s s' t o entries := by
  simp only [merge] at h
  obtain ⟨honly, hhooks⟩ := mergeHookSection_spec s t o
  revert h honly hhooks
  generalize mergeHookSection s t o = rh
  obtain ⟨sh, eh⟩ := rh
  intro h honly hhooks
  obtain ⟨hph, hpe, hpo, hpkind, hperms⟩ := mergePermissionSection_spec sh t o
  revert h hph hpe hpo hpkind hperms
  generalize mergePermissionSection sh t o = rp
  obtain ⟨sp, ep⟩ := rp
  intro h hph hpe hpo hpkind hperms
  cases hl : mergeStatusLine sp t o with
  | error c => simp [hl, bind, Except.bind] at h
  | ok l =>
    obtain ⟨sl, el⟩ := l
    simp only [hl, bind, Except.bind, pure, Except.pure, Except.ok.injEq, Prod.mk.injEq] at h
    obtain ⟨rfl, rfl⟩ := h
    obtain ⟨heh, hep, heo, hekind, henv⟩ := mergeEnvSection_spec sl t o
    revert heh hep heo hekind henv
    generalize mergeEnvSection sl t o = re
    obtain ⟨se, ee⟩ := re
    intro heh hep heo hekind henv
    simp only at honly hhooks hph hpe hpo hpkind hperms heh hep heo hekind henv
    have hl' := mergeStatusLine_spec hl
    -- the status line leaves the other sections alone
    have hsl : sl.hooks = sp.hooks ∧ sl.permissions = sp.permissions ∧ sl.env = sp.env ∧
        OfKind .scalar el := by
      rcases hl' with ⟨rfl, rfl⟩ | ⟨v, -, -, -, rfl, rfl⟩
      · exact ⟨rfl, rfl, rfl, by simp [OfKind]⟩
      · exact ⟨rfl, rfl, rfl, by simp [OfKind, SettingsEntry.kind]⟩
    obtain ⟨hslh, hslp, hsle, hlkind⟩ := hsl
    have hthooks : ∀ ev, trackedHooks (eh ++ ep ++ el ++ ee) ev = trackedHooks eh ev := fun ev => by
      simp only [trackedHooks_append, hpkind.trackedHooks_nil (by decide),
        hlkind.trackedHooks_nil (by decide), hekind.trackedHooks_nil (by decide), List.append_nil]
    have htperms : ∀ ty, trackedPermissions (eh ++ ep ++ el ++ ee) ty = trackedPermissions ep ty :=
      fun ty => by
        simp only [trackedPermissions_append, honly.kind.trackedPermissions_nil (by decide),
          hlkind.trackedPermissions_nil (by decide), hekind.trackedPermissions_nil (by decide),
          List.append_nil, List.nil_append]
    have htenv : ∀ k, trackedEnv (eh ++ ep ++ el ++ ee) k = trackedEnv ee k := fun k => by
      simp only [trackedEnv_append, honly.kind.trackedEnv_none (by decide),
        hpkind.trackedEnv_none (by decide), hlkind.trackedEnv_none (by decide), Option.or_none]
    have htscalar : ∀ k, trackedScalar (eh ++ ep ++ el ++ ee) k = trackedScalar el k := fun k => by
      simp only [trackedScalar_append, honly.kind.trackedScalar_none (by decide),
        hpkind.trackedScalar_none (by decide), hekind.trackedScalar_none (by decide),
        Option.or_none, Option.none_or]
    have hsame : sp.other = s.other := hpo.trans honly.other
    refine ⟨fun ev => ?_, fun ev => ?_, fun ty => ?_, fun ty => ?_, fun k => ?_, fun k => ?_,
      fun k v hv => ?_⟩
    · rw [hthooks, ← (hhooks ev).2, Settings.hooksAt, heh, hslh, hph]
      rfl
    · rw [hthooks, (hhooks ev).1]
    · have hshp : sh.permissionsAt ty = s.permissionsAt ty := by
        rw [Settings.permissionsAt, honly.permissions]; rfl
      rw [htperms, ← hshp, ← (hperms ty).2, Settings.permissionsAt, hep, hslp]
      rfl
    · have hshp : sh.permissionsAt ty = s.permissionsAt ty := by
        rw [Settings.permissionsAt, honly.permissions]; rfl
      rw [htperms, (hperms ty).1, hshp]
    · have hsle' : sl.envAt k = s.envAt k := by
        rw [Settings.envAt, hsle, hpe, honly.env]; rfl
      rw [htenv, henv, hsle']
    · rw [htscalar, heo]
      rcases hl' with ⟨rfl, rfl⟩ | ⟨v, -, -, -, rfl, rfl⟩
      · rw [hsame]; rfl
      · by_cases hk : k = "statusLine"
        · subst hk; simp [trackedScalar, SettingsEntry.scalar?, Dict.get?_set]
        · have hk' : ¬ "statusLine" = k := fun e => hk e.symm
          simp [trackedScalar, SettingsEntry.scalar?, Dict.get?_set, hk, hk', hsame]
    · rw [htscalar] at hv
      rcases hl' with ⟨rfl, rfl⟩ | ⟨w, ho, ht, hne, rfl, rfl⟩
      · cases hv
      · by_cases hk : "statusLine" = k
        · subst hk
          have hw : w = v := by simpa [trackedScalar, SettingsEntry.scalar?] using hv
          subst hw
          exact ⟨rfl, ho, ht, hsame ▸ hne⟩
        · simp [trackedScalar, SettingsEntry.scalar?, hk] at hv

end MultiForge.Install
