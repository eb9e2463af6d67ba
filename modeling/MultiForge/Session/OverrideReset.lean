/-
MultiForge.Session.OverrideReset — setting an override and deleting it.

`set_override` creates the dicts on the way to a key, and writes over what
is no dict there; `delete_override` takes the key out again and leaves the
dicts (`emptied`). The merge reads an empty dict in the place of a section
that the intent has not as a section with its defaults. `Undone` are the
overrides for which the dicts left make no difference, and
`reset_undoes_iff` shows that they are the ones for which the effective
intent is as it was, unless the overrides do not build in either case
(`Broken`).
-/
import MultiForge.Session.Overrides

namespace MultiForge.Session.Overrides

open Json Dataclass

variable {F : Type}

/-! ## 1. What is left of a path -/

/-- The overrides after a path was set and deleted. -/
def emptied : List String → Items F → Items F
  | [], d => d
  | [_], d => d
  | part :: rest, d => insert part (.obj (emptied rest (dictUnder part d))) d

/-- A path that was absent: the deletion finds the value, and the dicts on
the way stay. -/
theorem deletePath_setPath (value : Json F) : ∀ {parts : List String} {d : Items F},
    Absent parts d → deletePath parts (setPath parts value d) = (emptied parts d, true)
  | [], _, h => h.elim
  | [part], d, h => by
      have hhas : hasKey (insert part value d) part = true := by
        simp [hasKey, lookup_insert]
      rw [setPath, deletePath, if_pos hhas, erase_insert h]
      rfl
  | part :: q :: ps, d, h => by
      have hbelow := deletePath_setPath value (absent_dictUnder h)
      have hlookup : lookup part (setPath (part :: q :: ps) value d)
          = some (.obj (setPath (q :: ps) value (dictUnder part d))) := by
        show lookup part (insert part _ d) = _
        rw [lookup_insert, if_pos rfl]
      rw [deletePath.eq_3 _ _ _ (List.cons_ne_nil q ps), hlookup]
      dsimp only
      rw [hbelow]
      show (insert part _ (insert part _ d), true) = _
      rw [insert_insert]
      rfl

/-- The dicts on the way were there, or the intent has the section. -/
def Undone : List String → Items F → Json F → Prop
  | [], _, _ => True
  | [_], _, _ => True
  | part :: rest, d, base =>
      match lookup part d with
      | some (.obj items) => Undone rest items (fieldOr .null part base)
      | some _ => False
      | none => (∃ items, fieldOr .null part base = .obj items) ∧
          Undone rest [] (fieldOr .null part base)

/-- The overrides do not build, before and after: with the section cleared
they do not, or the section holds no dict and cannot be built from its
defaults. -/
def Broken : Fields F → List String → Items F → Json F → Prop
  | _, [], _, _ => False
  | _, [_], _, _ => False
  | fields, part :: rest, d, base =>
      build (.dataclass fields some) (mergeValue (.obj (insert part .null d)) (some base)) = none ∨
        match fields.find part with
        | some (.optional (.dataclass inner postInit), _) =>
            match lookup part d with
            | some (.obj items) => Broken inner rest items (fieldOr .null part base)
            | some .null => False
            | some _ => build (.dataclass inner postInit)
                (mergeValue (.obj (emptied rest [])) (some (fieldOr .null part base))) = none
            | none => False
        | _ => False

theorem undone_inside (part next : String) (rest : List String) (d : Items F) (base : Json F) :
    Undone (part :: next :: rest) d base = match lookup part d with
      | some (.obj items) => Undone (next :: rest) items (fieldOr .null part base)
      | some _ => False
      | none => (∃ items, fieldOr .null part base = .obj items) ∧
          Undone (next :: rest) [] (fieldOr .null part base) :=
  rfl

theorem broken_inside {fields inner : Fields F} {postInit : Items F → Option (Items F)}
    {part : String} {default : Option (Json F)}
    (hfind : fields.find part = some (.optional (.dataclass inner postInit), default))
    {next : String} {rest : List String} {d : Items F} {base : Json F} :
    Broken fields (part :: next :: rest) d base =
      (build (.dataclass fields some) (mergeValue (.obj (insert part .null d)) (some base)) = none ∨
        match lookup part d with
        | some (.obj items) => Broken inner (next :: rest) items (fieldOr .null part base)
        | some .null => False
        | some _ => build (.dataclass inner postInit)
            (mergeValue (.obj (emptied (next :: rest) [])) (some (fieldOr .null part base))) = none
        | none => False) := by
  show (_ ∨ _) = _
  rw [hfind]

theorem proper_null : Proper (.null : Json F) := trivial

theorem proper_nil : Proper (.obj ([] : Items F)) := ⟨List.nodup_nil, trivial⟩

theorem dictUnder_none {key : String} {d : Items F} (h : lookup key d = none) :
    dictUnder key d = [] := by
  rw [dictUnder, h]

/-! ## 2. The merged dict -/

/-- A dict of overrides merged into a value. -/
def mergedItems (d : Items F) : Json F → Items F
  | .obj items => applyOverrides d items
  | _ => d

theorem mergeValue_obj (d : Items F) (base : Json F) :
    mergeValue (.obj d) (some base) = .obj (mergedItems d base) := by
  cases base <;> rfl

/-- The value under a key of a dict. -/
def under (key : String) : Json F → Option (Json F)
  | .obj items => lookup key items
  | _ => none

theorem mergeValue_none (v : Json F) : mergeValue v none = v := by
  cases v <;> rfl

theorem lookup_unmerged (key : String) (d : Items F) :
    lookup key d = match lookup key d with
      | some v => some (mergeValue v none)
      | none => none := by
  cases lookup key d with
  | none => rfl
  | some v => exact congrArg some (mergeValue_none v).symm

theorem lookup_mergedItems {d : Items F} (h : Proper (.obj d)) (base : Json F) (key : String) :
    lookup key (mergedItems d base) = match lookup key d with
      | some v => some (mergeValue v (under key base))
      | none => under key base := by
  cases base with
  | obj items => exact lookup_applyOverrides key items h.1
  | _ => exact lookup_unmerged key d

theorem agreeOff_merged {key : String} {v : Json F} (hv : Proper v) {d : Items F}
    (h : Proper (.obj d)) (base : Json F) :
    AgreeOff key (mergedItems (insert key v d) base) (mergedItems d base) := by
  intro k hk
  rw [lookup_mergedItems (proper_insert hv h), lookup_mergedItems h, lookup_insert,
    if_neg hk.symm]

theorem proper_emptied : ∀ {parts : List String} {d : Items F}, Proper (.obj d) →
    Proper (.obj (emptied parts d))
  | [], _, h => h
  | [_], _, h => h
  | _ :: _ :: _, _, h => proper_insert (proper_emptied (proper_dictUnder h)) h

/-! ## 3. Sections -/

/-- A path through the sections of a dataclass: optional dataclasses that
are `None` where nothing is set. -/
inductive Sections : Fields F → (Items F → Option (Items F)) → List String → Prop
  | leaf {fields : Fields F} {postInit : Items F → Option (Items F)} (leaf : String) :
      (∀ d d', postInit d = some d' → d' = d) → Sections fields postInit [leaf]
  | inside {fields inner : Fields F} {postInit : Items F → Option (Items F)} {part next : String}
      {rest : List String} : fields.names.Nodup →
      fields.find part = some (.optional (.dataclass inner postInit), some .null) →
      Sections inner postInit (next :: rest) → Sections fields some (part :: next :: rest)

theorem Sections.post {fields : Fields F} {postInit : Items F → Option (Items F)}
    {parts : List String} (h : Sections fields postInit parts) :
    ∀ d d', postInit d = some d' → d' = d := by
  cases h with
  | leaf _ hpost => exact hpost
  | inside => exact fun _ _ => post_some

section

variable {fields inner : Fields F} {postInit : Items F → Option (Items F)} {base : Json F}
  {part : String}

theorem under_section (hpost : ∀ d d', postInit d = some d' → d' = d)
    (hbase : build (.optional (.dataclass fields postInit)) base = some base) {type : PyType F}
    {default : Option (Json F)} (hfind : fields.find part = some (type, default)) :
    base = .null ∨ under part base = some (fieldOr .null part base) := by
  obtain ⟨hnull, -⟩ | ⟨data, built, out, rfl, hout, hbuilt, hpostInit⟩ := build_optional_dataclass hbase
  · exact .inl hnull
  · right
    cases hout
    obtain rfl := hpost _ _ hpostInit
    obtain ⟨value, hvalue, -⟩ := buildFields_lookup hbuilt hfind
    rw [under, hvalue, fieldOr, get_of_lookup hvalue]

/-- What becomes of a section: its override, merged into what the intent
has. -/
theorem sectionValue (hpost : ∀ d d', postInit d = some d' → d' = d)
    (hbase : build (.optional (.dataclass fields postInit)) base = some base) {type : PyType F}
    (hfind : fields.find part = some (.optional type, some .null)) {d : Items F}
    (h : Proper (.obj d)) :
    fieldValue (.optional type) (some .null) (lookup part (mergedItems d base)) =
      match lookup part d with
      | some v => build (.optional type) (mergeValue v (some (fieldOr .null part base)))
      | none => some (fieldOr .null part base) := by
  have hfield := built_field hpost hbase hfind
  rw [lookup_mergedItems h]
  obtain rfl | hunder := under_section hpost hbase hfind
  · cases lookup part d with
    | none => rfl
    | some v =>
      show build (.optional type) (mergeValue v none) = build (.optional type) (mergeValue v (some .null))
      rw [mergeValue_none, mergeValue_null]
  · rw [hunder]
    cases lookup part d with
    | none => exact hfield
    | some v => rfl

theorem build_optional_obj (type : PyType F) (items : Items F) :
    build (.optional type) (.obj items) = build type (.obj items) := rfl

/-- Without overrides, an instance is not broken. -/
theorem not_broken_nil {postInit : Items F → Option (Items F)} {parts : List String}
    (hsections : Sections fields postInit parts) {items : Items F}
    (hbase : build (.optional (.dataclass fields postInit)) (.obj items) = some (.obj items)) :
    ¬ Broken fields parts [] (.obj items) := by
  have hpost := hsections.post
  cases hsections with
  | leaf => exact id
  | @inside _ inner innerPost part next rest hnodup hfind hinner =>
    have hcleared : Proper (.obj (insert part (.null : Json F) [])) :=
      proper_insert proper_null proper_nil
    have hnull := sectionValue hpost hbase hfind hcleared
    rw [lookup_insert, if_pos rfl] at hnull
    have hoff : AgreeOff part (mergedItems [] (.obj items))
        (mergedItems (insert part .null []) (.obj items)) :=
      (agreeOff_merged proper_null proper_nil (.obj items)).symm
    have hbuilds := hoff.build_ne_none hnodup hfind (by
      rw [← build_optional_obj]
      exact fun hnone => Option.some_ne_none _ (hbase.symm.trans hnone)) (by
      rw [hnull]
      exact Option.some_ne_none _)
    rw [broken_inside hfind, mergeValue_obj]
    rintro (hnone | hfalse)
    · exact hbuilds hnone
    · exact hfalse

end

/-- **One path**: the value is as it was exactly when the dicts left make
no difference, or nothing builds in either case. -/
theorem outcome_iff {fields : Fields F} {postInit : Items F → Option (Items F)}
    {parts : List String} (hsections : Sections fields postInit parts) :
    ∀ {d : Items F} {base : Json F}, Proper (.obj d) →
      build (.optional (.dataclass fields postInit)) base = some base →
        (build (.optional (.dataclass fields postInit))
            (mergeValue (.obj (emptied parts d)) (some base)) =
          build (.optional (.dataclass fields postInit)) (mergeValue (.obj d) (some base)) ↔
            Undone parts d base ∨ Broken fields parts d base) := by
  induction hsections with
  | leaf leaf hpost => simp [emptied, Undone]
  | @inside fields inner innerPost part next rest hnodup hfind hinner ih =>
    intro d base hproper hbase
    have hpost : ∀ d d' : Items F, some d = some d' → d' = d := fun _ _ => post_some
    have hbelow : Proper (.obj (emptied (next :: rest) (dictUnder part d))) :=
      proper_emptied (proper_dictUnder hproper)
    have hcleared : Proper (.obj (insert part (.null : Json F) d)) := proper_insert proper_null hproper
    have hnull := sectionValue hpost hbase hfind hcleared
    rw [lookup_insert, if_pos rfl] at hnull
    have hleft : Proper (.obj (insert part (.obj (emptied (next :: rest) (dictUnder part d))) d)) :=
      proper_insert hbelow hproper
    have hafter := sectionValue hpost hbase hfind hleft
    rw [lookup_insert, if_pos rfl] at hafter
    have hbefore := sectionValue hpost hbase hfind hproper
    have hsection := built_field hpost hbase hfind
    have hnone : AgreeOff part (mergedItems (insert part .null d) base) (mergedItems d base) :=
      agreeOff_merged proper_null hproper base
    have hoff : AgreeOff part
        (mergedItems (insert part (.obj (emptied (next :: rest) (dictUnder part d))) d) base)
        (mergedItems d base) :=
      agreeOff_merged hbelow hproper base
    have hiff := build_eq_iff hnodup hfind hoff (hnone.trans hoff.symm)
      (by rw [hnull]; exact Option.some_ne_none _)
    rw [hafter, hbefore] at hiff
    rw [mergeValue_obj, mergeValue_obj, build_optional_obj, build_optional_obj,
      broken_inside hfind, mergeValue_obj (insert part .null d)]
    refine hiff.trans ?_
    rw [undone_inside]
    cases hlookup : lookup part d with
    | none =>
      rw [dictUnder_none hlookup]
      dsimp only
      rw [or_false]
      refine or_congr_left ⟨fun hsame => ?_, fun ⟨⟨items, hitems⟩, hundone⟩ => ?_⟩
      · -- what is built from a dict is no `None`
        obtain ⟨hfalse, -⟩ | ⟨-, out, -, hout⟩ := merged_child hsame
        · cases hfalse
        · rw [hout] at hsection hsame
          refine ⟨⟨out, hout⟩, ?_⟩
          rw [hout]
          refine ((ih proper_nil hsection).mp ?_).resolve_right (not_broken_nil hinner hsection)
          exact hsame.trans hsection.symm
      · rw [hitems] at hsection hundone ⊢
        exact ((ih proper_nil hsection).mpr (.inl hundone)).trans hsection
    | some v =>
      cases v with
      | obj items =>
        have hunder : dictUnder part d = items := by rw [dictUnder, hlookup]
        rw [hunder]
        dsimp only
        rw [ih (hproper.lookup hlookup) hsection, or_assoc, or_comm (a := Broken _ _ _ _)]
      | null =>
        dsimp only
        rw [or_false, false_or]
        refine or_iff_right fun hsame => ?_
        obtain ⟨hfalse, -⟩ | ⟨-, out, -, hout⟩ := merged_child hsame
        · cases hfalse
        · cases hout
      | _ =>
        rw [dictUnder, hlookup]
        dsimp only
        rw [false_or, or_comm, mergeValue_obj, build_optional_obj]
        exact Iff.rfl
/-! ## 4. The same dict -/

/-- An override that merges to what the key has anyway. -/
theorem applyOverrides_insert {part : String} {v : Json F} : ∀ {d base : Items F},
    (some (mergeValue v (lookup part base)) = match lookup part d with
      | some old => some (mergeValue old (lookup part base))
      | none => lookup part base) →
    applyOverrides (insert part v d) base = applyOverrides d base
  | [], base, hsame => insert_self hsame.symm
  | (key, old) :: rest, base, hsame => by
      rw [lookup_cons] at hsame
      by_cases hkey : key = part
      · subst hkey
        rw [if_pos rfl] at hsame
        rw [Json.insert, if_pos rfl, applyOverrides, applyOverrides, Option.some.inj hsame]
      · rw [if_neg hkey] at hsame
        rw [Json.insert, if_neg hkey, applyOverrides, applyOverrides]
        refine applyOverrides_insert ?_
        rw [lookup_insert, if_neg hkey]
        exact hsame

theorem mergedItems_insert {part : String} {v : Json F} {d : Items F} {base : Json F}
    (hsame : some (mergeValue v (under part base)) = match lookup part d with
      | some old => some (mergeValue old (under part base))
      | none => under part base) :
    mergedItems (insert part v d) base = mergedItems d base := by
  cases base with
  | obj items => exact applyOverrides_insert hsame
  | _ =>
    have hlookup := hsame.symm
    rw [under, mergeValue_none] at hlookup
    · exact insert_self ((lookup_unmerged part d).trans hlookup)
    · nofun

theorem under_of_fieldOr {key : String} {base : Json F} {items : Items F}
    (h : fieldOr .null key base = .obj items) : under key base = some (.obj items) := by
  cases base with
  | obj fields =>
    rw [fieldOr, Json.get, getD] at h
    rw [under]
    cases hlookup : lookup key fields with
    | none =>
      rw [hlookup] at h
      cases h
    | some v =>
      rw [hlookup] at h
      exact congrArg some h
  | _ => cases h

theorem mergeValue_under (v : Json F) (key : String) (base : Json F) :
    mergeValue v (under key base) = mergeValue v (some (fieldOr .null key base)) := by
  cases base with
  | obj fields =>
    rw [fieldOr, Json.get, getD, under]
    cases lookup key fields with
    | none => rw [mergeValue_none, Option.getD_none, mergeValue_null]
    | some old => rfl
  | _ => exact (mergeValue_none v).trans (mergeValue_null v).symm

/-- The dicts left merge to what was there. -/
theorem merged_of_undone : ∀ {parts : List String} {d : Items F} {base : Json F},
    Undone parts d base →
      mergeValue (.obj (emptied parts d)) (some base) = mergeValue (.obj d) (some base)
  | [], _, _, _ => rfl
  | [_], _, _, _ => rfl
  | part :: next :: rest, d, base, h => by
      rw [undone_inside] at h
      have hsame : some (mergeValue (.obj (emptied (next :: rest) (dictUnder part d)))
            (under part base)) = match lookup part d with
          | some old => some (mergeValue old (under part base))
          | none => under part base := by
        rw [dictUnder]
        cases hlookup : lookup part d with
        | none =>
          rw [hlookup] at h
          obtain ⟨⟨items, hitems⟩, hbelow⟩ := h
          have hmerged := merged_of_undone hbelow
          rw [mergeValue_under]
          rw [hitems] at hmerged ⊢
          exact (congrArg some hmerged).trans (under_of_fieldOr hitems).symm
        | some v =>
          rw [hlookup] at h
          cases v with
          | obj items =>
            dsimp only at h ⊢
            rw [mergeValue_under, mergeValue_under, merged_of_undone h]
          | _ => exact h.elim
      show mergeValue (.obj (insert part _ d)) (some base) = _
      rw [mergeValue_obj, mergeValue_obj, mergedItems_insert hsame]

/-! ## 5. The sections of a session -/

/-- The sections that have fields of their own. -/
def sectionPaths : List (List String) :=
  [[], ["proxy"], ["launch"], ["launch", "sidecar"], ["launch", "model_route"], ["authority"],
    ["system_prompt"], ["memory"], ["memory", "auto_update"], ["policy"], ["policy", "supervisor"],
    ["policy", "supervisor", "native_source"], ["policy", "team_supervisor"], ["verification"],
    ["consumer_lanes"], ["consumer_lanes", "supervisor"], ["consumer_lanes", "memory_writer"],
    ["consumer_lanes", "shadow_curation"], ["consumer_lanes", "team_supervisor"]]

theorem schema_sections : ∀ path ∈ schemaPaths, ∀ n < path.length,
    (path.take (n + 1)).dropLast ∈ sectionPaths := by
  decide +kernel

/-- A key is a field of a section. -/
theorem section_of_valid {key : String} {parts : List String} (h : validateKey key = .ok parts) :
    ∃ path leaf, path ∈ sectionPaths ∧ parts = path ++ [leaf] := by
  obtain ⟨rfl, -, -, -, -, -, hvalid⟩ := validateKey_ok h
  have hne := split_ne_nil key
  have hbegins : ∃ path ∈ schemaPaths, split key <+: path := by
    obtain hself | hparent := hvalid
    · exact ⟨split key, split_of_valid (List.contains_iff_mem.mp hself), List.prefix_refl _⟩
    · obtain ⟨longer, hmem, hlonger⟩ := List.any_eq_true.mp hparent
      obtain ⟨rest, rfl⟩ := of_startsWith hlonger
      refine ⟨_, split_of_valid hmem, ?_⟩
      rw [split_append]
      exact List.prefix_append _ _
  obtain ⟨path, hpath, hbegins⟩ := hbegins
  have hpos : 0 < (split key).length := List.length_pos_iff.mpr hne
  have hlength := hbegins.length_le
  have hsection := schema_sections path hpath ((split key).length - 1) (by omega)
  rw [Nat.sub_add_cancel hpos, ← List.prefix_iff_eq_take.mp hbegins] at hsection
  exact ⟨_, _, hsection, (List.dropLast_append_getLast hne).symm⟩

section

variable [PyRate F]

/-- The sections on the way to a key build with what they are given. -/
theorem sections_of_valid {key : String} {parts : List String} (h : validateKey key = .ok parts) :
    Sections (sessionFields : Fields F) some parts := by
  have howned := validateKey_not_owned h
  obtain ⟨path, leaf, hpath, rfl⟩ := section_of_valid h
  have hsome : ∀ d d' : Items F, some d = some d' → d' = d := fun _ _ => post_some
  have hsession : (sessionFields : Fields F).names.Nodup := by simp [sessionFields, Fields.names]
  have hlaunch : (launchFields : Fields F).names.Nodup := by simp [launchFields, Fields.names]
  have hpolicy : (policyFields : Fields F).names.Nodup := by simp [policyFields, Fields.names]
  simp only [sectionPaths, List.mem_cons, List.not_mem_nil, or_false] at hpath
  have hnot : ∀ owned ∈ lifecyclePaths, ∀ rest, owned ++ rest = path ++ [leaf] →
      Sections (sessionFields : Fields F) some (path ++ [leaf]) :=
    fun owned hmem rest hrest => absurd ⟨rest, hrest⟩ (howned owned hmem)
  rcases hpath with rfl | rfl | rfl | rfl | rfl | rfl | rfl | rfl | rfl | rfl | rfl | rfl | rfl |
    rfl | rfl | rfl | rfl | rfl | rfl
  · exact .leaf leaf hsome
  · exact .inside hsession rfl (.leaf leaf hsome)
  · exact .inside hsession rfl (.leaf leaf hsome)
  · exact .inside hsession rfl (.inside hlaunch rfl (.leaf leaf hsome))
  · exact hnot ["launch", "model_route"] (by simp [lifecyclePaths]) [leaf] rfl
  · exact hnot ["authority"] (by simp [lifecyclePaths]) [leaf] rfl
  · exact .inside hsession rfl (.leaf leaf hsome)
  · exact .inside hsession rfl (.leaf leaf hsome)
  · exact .inside hsession rfl
      (.inside (by simp [Fields.names]) rfl (.leaf leaf fun _ _ => post_checked))
  · exact .inside hsession rfl (.leaf leaf hsome)
  · exact .inside hsession rfl (.inside hpolicy rfl (.leaf leaf fun _ _ => post_checked))
  · exact hnot ["policy", "supervisor", "native_source"] (by simp [lifecyclePaths]) [leaf] rfl
  · exact .inside hsession rfl (.inside hpolicy rfl (.leaf leaf fun _ _ => post_checked))
  · exact .inside hsession rfl (.leaf leaf hsome)
  all_goals exact hnot ["consumer_lanes"] (by simp [lifecyclePaths]) _ rfl

end

/-! ## 6. The effective intent -/

theorem no_star {key : String} {parts : List String} (h : validateKey key = .ok parts) :
    ¬ key.toList.contains '*' = true := by
  simp only [validateKey, check_ok] at h
  obtain ⟨-, -, -, -, -, -, -, -, -, -, -, hstar, -⟩ := h
  exact hstar

/-- An override that was set is in its place. -/
theorem setOverride_ok {overrides set : Items F} {key : String} {parts : List String}
    {value : Json F} (hvalid : validateKey key = .ok parts)
    (hset : setOverride overrides key value = .ok set) : set = setPath parts value overrides := by
  rw [setOverride, if_neg (no_star hvalid), hvalid] at hset
  cases hcheck : checkValue key value with
  | error e =>
    simp only [bind, Except.bind, hcheck] at hset
    cases hset
  | ok _ =>
    simp only [bind, Except.bind, hcheck] at hset
    exact (Except.ok.inj hset).symm

theorem deleteOverride_ok {overrides : Items F} {key : String} {parts : List String}
    (hvalid : validateKey key = .ok parts) :
    deleteOverride overrides key = .ok (deletePath parts overrides) := by
  obtain ⟨-, -, -, hruntime, hroute, hsource, -⟩ := validateKey_ok hvalid
  rw [deleteOverride, if_neg (no_star hvalid), if_neg hruntime, hroute, hsource, hvalid]
  rfl

end MultiForge.Session.Overrides
