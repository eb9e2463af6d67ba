/-
MultiForge.Session.Overrides — overrides and what they may not change.

Some of a session's intent belongs to its lifecycle: the runtime and the
model route of the launch, the authority, the consumer lanes and the
native source of the supervisor. Keys that name these are rejected, and
so is a dict that holds one of them for an object above it; so no
sequence of calls leaves an override at one of these paths
(`guarded_run`). What calls can do is to clear a whole object with
`None`. Where they have not, the effective intent is the raw one at these
paths (`lifecycle_kept`).

The hints of the errors are left out.
-/
import MultiForge.Lib.Except
import MultiForge.Session.Intent

namespace MultiForge.Session.Overrides

open Json Dataclass

/-! ## 1. Keys -/

structure InvalidOverrideKeyError where
  key : String
  reason : String
  deriving DecidableEq

theorem zero_lt_ten : 0 < 10 := by decide

/-- Decimal literals as rates. -/
instance : PyRate FloatText where
  isRate
    | .decimal d => !d.neg && d.mantissa * 10 ^ d.scale.toNat ≤ 10 ^ (-d.scale).toNat
    | _ => false
  zero := .decimal ⟨false, 0, some ⟨⟨0, zero_lt_ten⟩, []⟩, none, rfl⟩

/-- `key.split(".")` -/
def split (key : String) : List String := (key.toList.splitOn '.').map String.ofList

/-- `".".join(parts)` -/
def join (parts : List String) : String :=
  String.ofList (['.'].intercalate (parts.map String.toList))

/-- `get_valid_intent_paths`: they depend on no value of a field. -/
def validPaths : List String := (collectPaths [] (sessionIntent : PyType FloatText)).map join

/-- `text.startswith(pre)` -/
def startsWith (pre text : String) : Bool := pre.toList.isPrefixOf text.toList

/-- `_MANIFEST_FIELDS` -/
def manifestFields : List String :=
  ["schema_version", "name", "created_at", "last_accessed_at", "parent_session", "is_fork",
    "is_incognito", "worktree", "intent", "overrides", "confirmed"]

/-- The key of a subtree or a valid path below it. -/
def isSubtreePath (root key : String) : Bool :=
  key == root || (startsWith (root ++ ".") key && validPaths.contains key)

/-- `_is_launch_model_route_path` -/
def isLaunchModelRoutePath (key : String) : Bool := isSubtreePath "launch.model_route" key

/-- `_is_native_supervisor_source_path` -/
def isNativeSupervisorSourcePath (key : String) : Bool :=
  isSubtreePath "policy.supervisor.native_source" key

/-- `_reject_launch_runtime_override` -/
def launchRuntimeError (key : String) : InvalidOverrideKeyError :=
  ⟨key, "runtime is immutable launch identity"⟩

/-- `_reject_launch_model_route_override` -/
def launchModelRouteError (key : String) : InvalidOverrideKeyError :=
  ⟨key, "model_route is resolved launch state, not an override surface"⟩

/-- `_reject_native_supervisor_source_override` -/
def nativeSupervisorSourceError (key : String) : InvalidOverrideKeyError :=
  ⟨key, "native_source is supervisor identity, not an override surface"⟩

def authorityReason : String :=
  "authority is managed by the session authority control plane, not overrides"

/-- `expand_wildcard` -/
def expandWildcard (pattern : String) : Except InvalidOverrideKeyError (List String) :=
  if !pattern.toList.contains '*' then .error ⟨pattern, "not a wildcard pattern"⟩
  else match split pattern with
    | [pre, star] =>
        if star ≠ "*" then .error ⟨pattern, "unsupported wildcard format"⟩
        else if pre = "authority" then .error ⟨pattern, authorityReason⟩
        else if pre = "custom" then .error ⟨pattern, "custom.* is not supported"⟩
        else
          let matching := validPaths.filter (startsWith (pre ++ "."))
          if matching.isEmpty then
            if !validPaths.contains pre then .error ⟨pattern, "unknown field '" ++ pre ++ "'"⟩
            else .error ⟨pattern, "'" ++ pre ++ "' has no nested fields to expand"⟩
          else .ok (matching.mergeSort (· ≤ ·))
    | _ => .error ⟨pattern, "unsupported wildcard format"⟩

/-- `validate_key` -/
def validateKey (key : String) : Except InvalidOverrideKeyError (List String) :=
  let parts := split key
  let first := parts.headD ""
  if key = "" then .error ⟨key, "key cannot be empty"⟩
  else if parts.contains "" then .error ⟨key, "empty segment in path"⟩
  else if first = "intent" then .error ⟨key, "keys should be relative to intent"⟩
  else if first = "confirmed" then .error ⟨key, "cannot override confirmed.* fields"⟩
  else if manifestFields.contains first then
    .error ⟨key, "'" ++ first ++ "' is a manifest field, not an intent field"⟩
  else if first = "custom" then .error ⟨key, "custom.* is not supported"⟩
  else if first = "authority" then .error ⟨key, authorityReason⟩
  else if key = "launch.runtime" then .error (launchRuntimeError key)
  else if isLaunchModelRoutePath key then .error (launchModelRouteError key)
  else if isNativeSupervisorSourcePath key then .error (nativeSupervisorSourceError key)
  else if first = "consumer_lanes" then
    .error ⟨key, "consumer lanes are set via resolving commands, not overrides"⟩
  else if key.toList.contains '*' then .error ⟨key, "use expand_wildcard() for wildcard patterns"⟩
  else if validPaths.contains key then .ok parts
  else if validPaths.any (startsWith (key ++ ".")) then .ok parts
  else .error ⟨key, "unknown field '" ++ key ++ "'"⟩

/-! ## 2. Calls -/

variable {F : Type}

/-- The dict under a key, or an empty one in the place of anything else. -/
def dictUnder (key : String) (d : Items F) : Items F :=
  match lookup key d with
  | some (.obj items) => items
  | _ => []

/-- `_set_path` -/
def setPath : List String → Json F → Items F → Items F
  | [], _, d => d
  | [part], value, d => insert part value d
  | part :: rest, value, d => insert part (.obj (setPath rest value (dictUnder part d))) d

/-- `_delete_path` -/
def deletePath : List String → Items F → Items F × Bool
  | [], d => (d, false)
  | [part], d => if hasKey d part then (erase part d, true) else (d, false)
  | part :: rest, d =>
      match lookup part d with
      | some (.obj items) =>
          let below := deletePath rest items
          (insert part (.obj below.1) d, below.2)
      | _ => (d, false)

/-- The supervisor that a dict holds at a key. -/
def supervisorAt (key : String) (items : Items F) : Option (Items F) :=
  if key = "policy" then
    match get items "supervisor" with
    | .obj supervisor => some supervisor
    | _ => none
  else if key = "policy.supervisor" then some items
  else none

/-- The checks of a dict for an object above an owned path. -/
def checkItems (key : String) (items : Items F) : Except InvalidOverrideKeyError Unit :=
  if key = "launch" ∧ hasKey items "runtime" then .error (launchRuntimeError key)
  else if key = "launch" ∧ hasKey items "model_route" then .error (launchModelRouteError key)
  else if (supervisorAt key items).any (hasKey · "native_source") then
    .error (nativeSupervisorSourceError key)
  else .ok ()

def checkValue (key : String) : Json F → Except InvalidOverrideKeyError Unit
  | .obj items => checkItems key items
  | _ => .ok ()

/-- `set_override` -/
def setOverride (overrides : Items F) (key : String) (value : Json F) :
    Except InvalidOverrideKeyError (Items F) :=
  if key.toList.contains '*' then do
    let expanded ← expandWildcard key
    if expanded.contains "launch.runtime" then throw (launchRuntimeError key)
    let partsByPath ← expanded.mapM validateKey
    return partsByPath.foldl (fun d parts => setPath parts value d) overrides
  else do
    let parts ← validateKey key
    checkValue key value
    return setPath parts value overrides

/-- The loop of a deletion over the paths of a wildcard. -/
def deleteEach (paths : List String) (overrides : Items F) : Items F × Bool :=
  paths.foldl (fun r path =>
    let deleted := deletePath (split path) r.1
    (deleted.1, r.2 || deleted.2)) (overrides, false)

/-- `delete_override` -/
def deleteOverride (overrides : Items F) (key : String) :
    Except InvalidOverrideKeyError (Items F × Bool) :=
  if key.toList.contains '*' then do
    let expanded ← expandWildcard key
    return deleteEach expanded overrides
  else do
    let parts ← if key = "launch.runtime" then pure ["launch", "runtime"]
      else if isLaunchModelRoutePath key || isNativeSupervisorSourcePath key then pure (split key)
      else validateKey key
    return deletePath parts overrides

/-- A value that JSON can denote. -/
structure JsonValue (F : Type) where
  value : Json F
  proper : Proper value

/-- A call on the stored overrides. -/
inductive Call (F : Type) where
  | set (key : String) (value : JsonValue F)
  | delete (key : String)
  | clear

/-- The overrides after a call; one that raises leaves them. -/
def Call.run (overrides : Items F) : Call F → Items F
  | .set key value => match setOverride overrides key value.value with
      | .ok overrides => overrides
      | .error _ => overrides
  | .delete key => match deleteOverride overrides key with
      | .ok (overrides, _) => overrides
      | .error _ => overrides
  | .clear => []

/-! ## 3. Owned paths -/

/-- `_LIFECYCLE_PATHS` -/
def lifecyclePaths : List (List String) :=
  [["launch", "runtime"], ["launch", "model_route"], ["authority"], ["consumer_lanes"],
    ["policy", "supervisor", "native_source"]]

/-- Nothing is stored at a path. -/
def Absent : List String → Items F → Prop
  | [], _ => False
  | [key], d => lookup key d = none
  | key :: rest, d => ∀ items, lookup key d = some (.obj items) → Absent rest items

/-- The invariant of stored overrides. -/
structure Guarded (d : Items F) : Prop where
  proper : Proper (.obj d)
  absent : ∀ path ∈ lifecyclePaths, Absent path d

theorem absent_nil : ∀ {path : List String}, path ≠ [] → Absent path ([] : Items F)
  | [_], _ => rfl
  | _ :: _ :: _, _ => nofun

theorem absent_dictUnder {key next : String} {rest : List String} {d : Items F}
    (h : Absent (key :: next :: rest) d) : Absent (next :: rest) (dictUnder key d) := by
  unfold dictUnder
  split
  · next items hitems => exact h items hitems
  · exact absent_nil (List.cons_ne_nil next rest)

/-- A value is stored at a path that is no owned one, and it holds nothing
at an owned path below. -/
theorem absent_setPath {value : Json F} : ∀ {path parts : List String} {d : Items F},
    Absent path d → ¬ path <+: parts →
      (∀ rest, path = parts ++ rest → ∀ items, value = .obj items → Absent rest items) →
      Absent path (setPath parts value d)
  | [], _, _, h, _, _ => h.elim
  | _ :: _, [], _, h, _, _ => h
  | [key], [part], d, h, hpre, _ => by
      have hne : part ≠ key := fun e => hpre (e ▸ List.prefix_refl [part])
      show lookup key (insert part value d) = none
      rw [lookup_insert, if_neg hne]
      exact h
  | key :: next :: rest, [part], d, h, _, hvalue => by
      intro items hitems
      have hlookup : lookup key (insert part value d) = some (.obj items) := hitems
      rw [lookup_insert] at hlookup
      split at hlookup
      · next hkey => exact hvalue (next :: rest) (by rw [hkey]; rfl) items (Option.some.inj hlookup)
      · exact h items hlookup
  | [key], part :: q :: ps, d, h, hpre, _ => by
      have hne : part ≠ key := fun e => hpre ⟨q :: ps, by rw [e]; rfl⟩
      show lookup key (insert part _ d) = none
      rw [lookup_insert, if_neg hne]
      exact h
  | key :: next :: rest, part :: q :: ps, d, h, hpre, hvalue => by
      intro items hitems
      have hlookup : lookup key (insert part (.obj (setPath (q :: ps) value (dictUnder part d))) d)
          = some (.obj items) := hitems
      rw [lookup_insert] at hlookup
      split at hlookup
      · next hkey =>
        subst hkey
        cases hlookup
        refine absent_setPath (absent_dictUnder h) (fun hp => hpre ?_) fun rest' hrest => ?_
        · exact (List.prefix_cons_inj part).mpr hp
        · exact hvalue rest' (congrArg (part :: ·) hrest)
      · exact h items hlookup

/-- A deletion leaves what a key holds, removes it or deletes below. -/
theorem lookup_deletePath (key part : String) (rest : List String) (d : Items F) :
    lookup key (deletePath (part :: rest) d).1 = lookup key d
      ∨ lookup key (deletePath (part :: rest) d).1 = none
      ∨ ∃ items, lookup key d = some (.obj items)
        ∧ lookup key (deletePath (part :: rest) d).1 = some (.obj (deletePath rest items).1) := by
  cases rest with
  | nil =>
    rw [deletePath]
    split
    · rw [lookup_erase]
      split
      · exact Or.inr (Or.inl rfl)
      · exact Or.inl rfl
    · exact Or.inl rfl
  | cons q ps =>
    rw [deletePath.eq_3 _ _ _ (List.cons_ne_nil q ps)]
    split
    · next items hitems =>
      rw [lookup_insert]
      split
      · next hkey =>
        subst hkey
        exact Or.inr (Or.inr ⟨items, hitems, rfl⟩)
      · exact Or.inl rfl
    · exact Or.inl rfl

theorem absent_deletePath : ∀ {path parts : List String} {d : Items F}, Absent path d →
    Absent path (deletePath parts d).1
  | [], _, _, h => h.elim
  | _ :: _, [], _, h => h
  | [key], part :: ps, d, h => by
      have hnone : lookup key d = none := h
      show lookup key (deletePath (part :: ps) d).1 = none
      rcases lookup_deletePath key part ps d with hsame | hgone | ⟨items, hitems, -⟩
      · rw [hsame, hnone]
      · exact hgone
      · rw [hnone] at hitems
        cases hitems
  | key :: next :: rest, part :: ps, d, h => by
      intro items hitems
      rcases lookup_deletePath key part ps d with hsame | hgone | ⟨old, hold, hbelow⟩
      · exact h items (hsame.symm.trans hitems)
      · rw [hgone] at hitems
        cases hitems
      · rw [hbelow] at hitems
        cases hitems
        exact absent_deletePath (h old hold)

/-! ## 4. Distinct keys -/

theorem proper_dictUnder {key : String} {d : Items F} (h : Proper (.obj d)) :
    Proper (.obj (dictUnder key d)) := by
  unfold dictUnder
  split
  · next items hitems => exact h.lookup hitems
  · exact ⟨List.nodup_nil, trivial⟩

theorem proper_setPath {value : Json F} (hvalue : Proper value) : ∀ {parts : List String}
    {d : Items F}, Proper (.obj d) → Proper (.obj (setPath parts value d))
  | [], _, h => h
  | [_], _, h => proper_insert hvalue h
  | _ :: _ :: _, _, h => proper_insert (proper_setPath hvalue (proper_dictUnder h)) h

theorem proper_deletePath : ∀ {parts : List String} {d : Items F}, Proper (.obj d) →
    Proper (.obj (deletePath parts d).1)
  | [], _, h => h
  | [part], d, h => by
      rw [deletePath]
      split
      · exact proper_erase h
      · exact h
  | part :: q :: ps, d, h => by
      rw [deletePath.eq_3 _ _ _ (List.cons_ne_nil q ps)]
      split
      · next items hitems => exact proper_insert (proper_deletePath (h.lookup hitems)) h
      · exact h

/-! ## 5. Keys and owned paths -/

theorem join_append {a b : List String} (ha : a ≠ []) (hb : b ≠ []) :
    (join (a ++ b)).toList = (join a).toList ++ '.' :: (join b).toList := by
  induction a with
  | nil => exact absurd rfl ha
  | cons x a ih =>
    cases a with
    | nil =>
      obtain ⟨y, b, rfl⟩ := List.exists_cons_of_ne_nil hb
      simp [join]
    | cons y a =>
      have ih := ih (List.cons_ne_nil y a)
      simp only [join, String.toList_ofList, List.cons_append, List.map_cons,
        List.intercalate_cons_cons] at ih ⊢
      rw [ih]
      simp

theorem join_split (key : String) : join (split key) = key := by
  have hmap : (split key).map String.toList = key.toList.splitOn '.' := by
    rw [split, List.map_map]
    exact (List.map_congr_left fun cs _ => String.toList_ofList).trans (List.map_id _)
  rw [join, hmap, List.intercalate_splitOn, String.ofList_toList]

theorem split_ne_nil (key : String) : split key ≠ [] := by
  rw [split, Ne, List.map_eq_nil_iff]
  exact List.splitOn_ne_nil '.' _

/-- A key whose segments begin with a path is the path or is below it. -/
theorem key_of_prefix {path : List String} {key : String} (hne : path ≠ [])
    (h : path <+: split key) : key = join path ∨ startsWith (join path ++ ".") key = true := by
  obtain ⟨rest, hrest⟩ := h
  by_cases hnil : rest = []
  · rw [hnil, List.append_nil] at hrest
    exact Or.inl (by rw [hrest, join_split])
  · right
    have hkey := join_append hne hnil
    rw [hrest, join_split] at hkey
    rw [startsWith, hkey, String.toList_append]
    simp


theorem split_join {parts : List String} (hne : parts ≠ [])
    (hdots : ∀ part ∈ parts, '.' ∉ part.toList) : split (join parts) = parts := by
  have hdots' : ∀ cs ∈ parts.map String.toList, '.' ∉ cs := by
    intro cs hcs
    obtain ⟨part, hpart, rfl⟩ := List.mem_map.mp hcs
    exact hdots part hpart
  rw [split, join, String.toList_ofList,
    List.splitOn_intercalate '.' hdots' (by simpa using hne), List.map_map]
  exact (List.map_congr_left fun part _ => String.ofList_toList).trans (List.map_id _)

theorem split_append (key rest : String) : split (key ++ "." ++ rest) = split key ++ split rest := by
  have htext : (key ++ "." ++ rest).toList = key.toList ++ '.' :: rest.toList := by
    rw [String.toList_append, String.toList_append]
    simp
  rw [split, htext, List.splitOn_append_cons_self, List.map_append]
  rfl

/-! ## 6. The schema -/

theorem startsWith_trans {a b c : String} (hab : startsWith a b = true)
    (hbc : startsWith b c = true) : startsWith a c = true :=
  List.isPrefixOf_iff_prefix.mpr
    ((List.isPrefixOf_iff_prefix.mp hab).trans (List.isPrefixOf_iff_prefix.mp hbc))

/-- The valid paths as segments. -/
def schemaPaths : List (List String) := collectPaths [] (sessionIntent : PyType FloatText)

/-- The owned paths with keys of their own. -/
def ownedKeys : List (List String) :=
  [["launch", "runtime"], ["launch", "model_route"], ["policy", "supervisor", "native_source"]]

/-- The schema has no dots in its names and nothing two levels below an
owned path. -/
theorem schema_paths : ∀ path ∈ schemaPaths,
    path ≠ [] ∧ (∀ part ∈ path, '.' ∉ part.toList)
      ∧ (∀ owned ∈ ownedKeys, owned <+: path → path.length ≤ owned.length + 1)
      ∧ (["launch", "runtime"] <+: path → path = ["launch", "runtime"]) := by
  decide +kernel

/-- A valid path and its segments. -/
theorem split_of_valid {key : String} (h : key ∈ validPaths) : split key ∈ schemaPaths := by
  obtain ⟨parts, hparts, rfl⟩ := List.mem_map.mp h
  obtain ⟨hne, hdots, -⟩ := schema_paths parts hparts
  rw [split_join hne hdots]
  exact hparts

/-- A check that does not raise. -/
theorem check_ok {α ε : Type} {c : Prop} [Decidable c] {e : ε} {x : Except ε α} {a : α} :
    (if c then .error e else x) = .ok a ↔ ¬ c ∧ x = .ok a := by
  by_cases hc : c <;> simp [hc]

/-- What `validate_key` has checked. -/
theorem validateKey_ok {key : String} {parts : List String} (h : validateKey key = .ok parts) :
    parts = split key ∧ (split key).headD "" ≠ "authority"
      ∧ (split key).headD "" ≠ "consumer_lanes" ∧ key ≠ "launch.runtime"
      ∧ isLaunchModelRoutePath key = false ∧ isNativeSupervisorSourcePath key = false
      ∧ (validPaths.contains key = true ∨ validPaths.any (startsWith (key ++ ".")) = true) := by
  simp only [validateKey, check_ok] at h
  obtain ⟨-, -, -, -, -, -, hauthority, hruntime, hroute, hnative, hlanes, -, h⟩ := h
  have hvalid : parts = split key
      ∧ (validPaths.contains key = true ∨ validPaths.any (startsWith (key ++ ".")) = true) := by
    split at h
    · next hpath => exact ⟨(Except.ok.inj h).symm, Or.inl hpath⟩
    · split at h
      · next hparent => exact ⟨(Except.ok.inj h).symm, Or.inr hparent⟩
      · cases h
  exact ⟨hvalid.1, hauthority, hlanes, hruntime, Bool.eq_false_iff.mpr hroute,
    Bool.eq_false_iff.mpr hnative, hvalid.2⟩

/-- What is below a key. -/
theorem of_startsWith {key longer : String} (h : startsWith (key ++ ".") longer = true) :
    ∃ rest, longer = key ++ "." ++ rest := by
  obtain ⟨rest, hrest⟩ := List.isPrefixOf_iff_prefix.mp h
  have happend : (key ++ "." ++ String.ofList rest).toList = (key ++ ".").toList ++ rest := by
    rw [String.toList_append, String.toList_ofList]
  exact ⟨String.ofList rest, by rw [← String.toList_inj, happend, hrest]⟩

/-- What is below an owned path in the schema has a key that is
rejected. -/
theorem not_owned_of_subtree {path : List String} (howned : path ∈ ownedKeys) {key : String}
    (hself : key ≠ join path) (hbelow : key ∈ validPaths → ¬ path <+: split key)
    (hvalid : validPaths.contains key = true ∨ validPaths.any (startsWith (key ++ ".")) = true) :
    ¬ path <+: split key := by
  intro hunder
  rcases hvalid with hpath | hparent
  · exact hbelow (List.contains_iff_mem.mp hpath) hunder
  · obtain ⟨longer, hmem, hlonger⟩ := List.any_eq_true.mp hparent
    obtain ⟨rest, rfl⟩ := of_startsWith hlonger
    have hschema := split_of_valid hmem
    have hleaf := (schema_paths _ hschema).2.2.1 path howned
    rw [split_append] at hleaf
    replace hleaf := hleaf (hunder.trans (List.prefix_append _ _))
    rw [List.length_append] at hleaf
    have hpos : 0 < (split rest).length := List.length_pos_iff.mpr (split_ne_nil _)
    have hsame : path = split key := hunder.eq_of_length_le (by omega)
    exact hself (by rw [hsame, join_split])

/-- The path of a subtree that `validate_key` rejects. -/
theorem subtree_rejected {path : List String} (hne : path ≠ []) {key : String}
    (hsub : isSubtreePath (join path) key = false) :
    key ≠ join path ∧ (key ∈ validPaths → ¬ path <+: split key) := by
  obtain ⟨hself, hbelow⟩ := Bool.or_eq_false_iff.mp hsub
  have hself : key ≠ join path := fun e => by simp [e] at hself
  refine ⟨hself, fun hmem hunder => ?_⟩
  rcases key_of_prefix hne hunder with hkey | hkey
  · exact hself hkey
  · rw [hkey, Bool.true_and] at hbelow
    exact absurd (List.contains_iff_mem.mpr hmem) (Bool.eq_false_iff.mp hbelow)

theorem join_runtime : join ["launch", "runtime"] = "launch.runtime" := rfl

theorem join_route : join ["launch", "model_route"] = "launch.model_route" := rfl

theorem join_source : join ["policy", "supervisor", "native_source"]
    = "policy.supervisor.native_source" :=
  rfl

theorem not_prefix_of_head {first : String} {parts : List String} (h : parts.headD "" ≠ first) :
    ¬ [first] <+: parts := by
  rintro ⟨rest, rfl⟩
  exact h rfl

/-- A key that `validate_key` lets pass does not go through an owned
path. -/
theorem validateKey_not_owned {key : String} {parts : List String}
    (h : validateKey key = .ok parts) : ∀ path ∈ lifecyclePaths, ¬ path <+: parts := by
  obtain ⟨rfl, hauthority, hlanes, hruntime, hroute, hnative, hvalid⟩ := validateKey_ok h
  intro path hpath
  simp only [lifecyclePaths, List.mem_cons, List.not_mem_nil, or_false] at hpath
  rcases hpath with rfl | rfl | rfl | rfl | rfl
  · refine not_owned_of_subtree (by simp [ownedKeys]) ?_ (fun hmem hunder => ?_) hvalid
    · rw [join_runtime]
      exact hruntime
    · have hleaf := (schema_paths _ (split_of_valid hmem)).2.2.2 hunder
      rw [← join_split key, hleaf, join_runtime] at hruntime
      exact hruntime rfl
  · have hsub : isSubtreePath (join ["launch", "model_route"]) key = false := by
      rw [join_route]
      exact hroute
    obtain ⟨hself, hbelow⟩ := subtree_rejected (List.cons_ne_nil _ _) hsub
    exact not_owned_of_subtree (by simp [ownedKeys]) hself hbelow hvalid
  · exact not_prefix_of_head hauthority
  · exact not_prefix_of_head hlanes
  · have hsub : isSubtreePath (join ["policy", "supervisor", "native_source"]) key = false := by
      rw [join_source]
      exact hnative
    obtain ⟨hself, hbelow⟩ := subtree_rejected (List.cons_ne_nil _ _) hsub
    exact not_owned_of_subtree (by simp [ownedKeys]) hself hbelow hvalid

/-! ## 7. Calls keep the invariant -/

theorem Guarded.empty : Guarded ([] : Items F) where
  proper := ⟨List.nodup_nil, trivial⟩
  absent path hpath := absent_nil (by
    rintro rfl
    simp [lifecyclePaths] at hpath)

/-- What `_set_path` needs of a value for the invariant. -/
def Harmless (parts : List String) (value : Json F) : Prop :=
  ∀ path ∈ lifecyclePaths, ∀ rest, path = parts ++ rest →
    ∀ items, value = .obj items → Absent rest items

theorem Guarded.setPath {parts : List String} {value : Json F} {d : Items F} (h : Guarded d)
    (hproper : Proper value) (howned : ∀ path ∈ lifecyclePaths, ¬ path <+: parts)
    (hvalue : Harmless parts value) : Guarded (setPath parts value d) where
  proper := proper_setPath hproper h.proper
  absent path hpath := absent_setPath (h.absent path hpath) (howned path hpath)
    (hvalue path hpath)

theorem Guarded.deletePath {d : Items F} (h : Guarded d) (parts : List String) :
    Guarded (deletePath parts d).1 where
  proper := proper_deletePath h.proper
  absent path hpath := absent_deletePath (h.absent path hpath)

/-- The objects above owned paths. -/
theorem above_owned {parts rest : List String} (hne : parts ≠ []) {path : List String}
    (hpath : path ∈ lifecyclePaths) (howned : ¬ path <+: parts) (h : path = parts ++ rest) :
    (parts = ["launch"] ∧ (rest = ["runtime"] ∨ rest = ["model_route"]))
      ∨ (parts = ["policy"] ∧ rest = ["supervisor", "native_source"])
      ∨ (parts = ["policy", "supervisor"] ∧ rest = ["native_source"]) := by
  have htake : parts = path.take parts.length := by rw [h, List.take_left]
  have hdrop : rest = path.drop parts.length := by rw [h, List.drop_left]
  have hpos : 0 < parts.length := List.length_pos_iff.mpr hne
  have hlt : parts.length < path.length := by
    rw [h, List.length_append]
    refine Nat.lt_add_of_pos_right (List.length_pos_iff.mpr ?_)
    rintro rfl
    exact howned (by rw [h, List.append_nil])
  generalize parts.length = n at htake hdrop hpos hlt
  simp only [lifecyclePaths, List.mem_cons, List.not_mem_nil, or_false] at hpath
  rcases hpath with rfl | rfl | rfl | rfl | rfl
  · obtain rfl : n = 1 := by simp at hlt; omega
    exact Or.inl ⟨htake, Or.inl hdrop⟩
  · obtain rfl : n = 1 := by simp at hlt; omega
    exact Or.inl ⟨htake, Or.inr hdrop⟩
  · simp at hlt
    omega
  · simp at hlt
    omega
  · obtain rfl | rfl : n = 1 ∨ n = 2 := by simp at hlt; omega
    · exact Or.inr (Or.inl ⟨htake, hdrop⟩)
    · exact Or.inr (Or.inr ⟨htake, hdrop⟩)

theorem lookup_of_not_hasKey {items : Items F} {key : String} (h : hasKey items key ≠ true) :
    lookup key items = none := by
  simpa [hasKey] using h

theorem checkValue_harmless {key : String} {value : Json F} (h : checkValue key value = .ok ())
    (howned : ∀ path ∈ lifecyclePaths, ¬ path <+: split key) : Harmless (split key) value := by
  rintro path hpath rest hrest items rfl
  have hkey := join_split key
  simp only [checkValue, checkItems, check_ok, not_and] at h
  obtain ⟨hruntime, hroute, hsource, -⟩ := h
  rcases above_owned (split_ne_nil key) hpath (howned path hpath) hrest with
    ⟨hparts, hrest⟩ | ⟨hparts, rfl⟩ | ⟨hparts, rfl⟩
  · have hlaunch : key = "launch" := by rw [← hkey, hparts]; rfl
    rcases hrest with rfl | rfl
    · exact lookup_of_not_hasKey (hruntime hlaunch)
    · exact lookup_of_not_hasKey (hroute hlaunch)
  · have hpolicy : key = "policy" := by rw [← hkey, hparts]; rfl
    intro supervisor hsupervisor
    rw [supervisorAt, if_pos hpolicy, get_of_lookup hsupervisor] at hsource
    exact lookup_of_not_hasKey hsource
  · have hsupervisor : key = "policy.supervisor" := by rw [← hkey, hparts]; rfl
    have hpolicy : key ≠ "policy" := by rw [hsupervisor]; decide
    rw [supervisorAt, if_neg hpolicy, if_pos hsupervisor] at hsource
    exact lookup_of_not_hasKey hsource

/-! ## 8. Wildcards -/

theorem expandWildcard_ok {pattern : String} {expanded : List String}
    (h : expandWildcard pattern = .ok expanded) :
    ∃ pre, ∀ path, path ∈ expanded ↔ path ∈ validPaths ∧ startsWith (pre ++ ".") path = true := by
  rw [expandWildcard, check_ok] at h
  obtain ⟨-, h⟩ := h
  split at h
  · next pre star hsplit =>
    simp only [check_ok] at h
    obtain ⟨-, -, -, h⟩ := h
    refine ⟨pre, fun path => ?_⟩
    split at h
    · split at h <;> cases h
    · rw [← Except.ok.inj h, List.mem_mergeSort, List.mem_filter]
  · cases h

theorem dot_mem_of_startsWith {pre key : String} (h : startsWith (pre ++ ".") key = true) :
    '.' ∈ key.toList := by
  obtain ⟨rest, hrest⟩ := List.isPrefixOf_iff_prefix.mp h
  rw [← hrest, String.toList_append]
  simp

theorem source_valid : "policy.supervisor.native_source" ∈ validPaths :=
  List.mem_map.mpr ⟨["policy", "supervisor", "native_source"], by decide +kernel, join_source⟩

theorem source_below : startsWith "policy.supervisor" "policy.supervisor.native_source" = true :=
  rfl

theorem split_source : split "policy.supervisor.native_source"
    = ["policy", "supervisor", "native_source"] :=
  rfl

/-- What a wildcard sets is at no object above an owned path. -/
theorem expanded_harmless {pattern : String} {expanded : List String}
    {partsByPath : List (List String)} (hexpand : expandWildcard pattern = .ok expanded)
    (hvalid : expanded.mapM validateKey = .ok partsByPath) {parts : List String}
    (hparts : parts ∈ partsByPath) (value : Json F) :
    (∀ path ∈ lifecyclePaths, ¬ path <+: parts) ∧ Harmless parts value := by
  obtain ⟨pre, hmem⟩ := expandWildcard_ok hexpand
  obtain ⟨key, hkey, hok⟩ := mem_of_mapM_ok hvalid parts hparts
  have howned := validateKey_not_owned hok
  obtain ⟨rfl, -⟩ := validateKey_ok hok
  refine ⟨howned, fun path hpath rest hrest => ?_⟩
  obtain ⟨-, hstart⟩ := (hmem key).mp hkey
  have hjoin := join_split key
  exfalso
  rcases above_owned (split_ne_nil key) hpath (howned path hpath) hrest with
    ⟨hsplit, -⟩ | ⟨hsplit, -⟩ | ⟨hsplit, -⟩
  · have hdot := dot_mem_of_startsWith hstart
    rw [← hjoin, hsplit] at hdot
    simp [join] at hdot
  · have hdot := dot_mem_of_startsWith hstart
    rw [← hjoin, hsplit] at hdot
    simp [join] at hdot
  · -- the native source is below the supervisor and would be set too
    have hsupervisor : key = "policy.supervisor" := by rw [← hjoin, hsplit]; rfl
    obtain ⟨parts, hparts⟩ := exists_mapM_ok.mp ⟨_, hvalid⟩ _ ((hmem _).mpr
      ⟨source_valid, startsWith_trans hstart (hsupervisor ▸ source_below)⟩)
    have hnot := validateKey_not_owned hparts ["policy", "supervisor", "native_source"]
      (by simp [lifecyclePaths])
    rw [(validateKey_ok hparts).1, split_source] at hnot
    exact hnot (List.prefix_refl _)

/-! ## 9. Runs -/

theorem Guarded.foldl_setPath {value : Json F} (hproper : Proper value) :
    ∀ {partsByPath : List (List String)} {d : Items F}, Guarded d →
      (∀ parts ∈ partsByPath, (∀ path ∈ lifecyclePaths, ¬ path <+: parts) ∧ Harmless parts value) →
      Guarded (partsByPath.foldl (fun d parts => Overrides.setPath parts value d) d)
  | [], _, h, _ => h
  | parts :: rest, d, h, hall => by
      obtain ⟨howned, hvalue⟩ := hall parts List.mem_cons_self
      have hset := h.setPath hproper howned hvalue
      have hrest := fun other hmem => hall other (List.mem_cons_of_mem parts hmem)
      rw [List.foldl_cons]
      exact Guarded.foldl_setPath hproper hset hrest

theorem Guarded.setOverride {overrides overrides' : Items F} (h : Guarded overrides) {key : String}
    {value : JsonValue F} (hset : setOverride overrides key value.value = .ok overrides') :
    Guarded overrides' := by
  unfold Overrides.setOverride at hset
  split at hset
  · cases hexpand : expandWildcard key with
    | error e =>
      rw [hexpand] at hset
      cases hset
    | ok expanded =>
      cases hvalid : expanded.mapM validateKey with
      | error e =>
        rw [hexpand] at hset
        simp only [bind, Except.bind, hvalid] at hset
        split at hset <;> cases hset
      | ok partsByPath =>
        rw [hexpand] at hset
        simp only [bind, Except.bind, hvalid] at hset
        split at hset
        · cases hset
        · cases hset
          exact h.foldl_setPath value.proper fun parts hparts =>
            expanded_harmless hexpand hvalid hparts value.value
  · cases hvalid : validateKey key with
    | error e =>
      rw [hvalid] at hset
      cases hset
    | ok parts =>
      cases hcheck : checkValue key value.value with
      | error e =>
        rw [hvalid] at hset
        simp only [bind, Except.bind, hcheck] at hset
        cases hset
      | ok _ =>
        rw [hvalid] at hset
        simp only [bind, Except.bind, hcheck] at hset
        cases hset
        have howned := validateKey_not_owned hvalid
        obtain ⟨rfl, -⟩ := validateKey_ok hvalid
        exact h.setPath value.proper howned (checkValue_harmless hcheck howned)

theorem Guarded.deleteEach : ∀ (paths : List String) {r : Items F × Bool}, Guarded r.1 →
    Guarded (paths.foldl (fun r path =>
      let deleted := Overrides.deletePath (split path) r.1
      (deleted.1, r.2 || deleted.2)) r).1
  | [], _, h => h
  | path :: paths, r, h => by
      rw [List.foldl_cons]
      exact Guarded.deleteEach paths (h.deletePath (split path))

theorem Guarded.deleteOverride {overrides : Items F} (h : Guarded overrides) {key : String}
    {deleted : Items F × Bool} (hdelete : deleteOverride overrides key = .ok deleted) :
    Guarded deleted.1 := by
  unfold Overrides.deleteOverride at hdelete
  split at hdelete
  · cases hexpand : expandWildcard key with
    | error e =>
      rw [hexpand] at hdelete
      cases hdelete
    | ok expanded =>
      rw [hexpand] at hdelete
      cases hdelete
      exact Guarded.deleteEach expanded h
  · obtain ⟨parts, rfl⟩ : ∃ parts, Overrides.deletePath parts overrides = deleted := by
      split at hdelete
      · exact ⟨_, Except.ok.inj hdelete⟩
      · split at hdelete
        · exact ⟨_, Except.ok.inj hdelete⟩
        · cases hvalid : validateKey key with
          | error e =>
            rw [hvalid] at hdelete
            cases hdelete
          | ok parts =>
            rw [hvalid] at hdelete
            exact ⟨parts, Except.ok.inj hdelete⟩
    exact h.deletePath parts

/-- A call keeps the invariant. -/
theorem Guarded.run {overrides : Items F} (h : Guarded overrides) (call : Call F) :
    Guarded (call.run overrides) := by
  cases call with
  | set key value =>
    rw [Call.run]
    split
    · next hset => exact h.setOverride hset
    · exact h
  | delete key =>
    rw [Call.run]
    split
    · next hdelete => exact h.deleteOverride hdelete
    · exact h
  | clear => exact Guarded.empty

/-- **No override is stored at an owned path**, after any calls. -/
theorem guarded_run : ∀ (calls : List (Call F)) {overrides : Items F}, Guarded overrides →
    Guarded (calls.foldl Call.run overrides)
  | [], _, h => h
  | call :: calls, _, h => guarded_run calls (h.run call)

/-! ## 10. Effective intent -/

section Effective

variable [PyRate F]

/-- `value.key`, and `None` for an attribute of `None` -/
def attr (key : String) (value : Json F) : Json F := fieldOr .null key value

/-- `session_runtime` -/
def sessionRuntime (intent : Json F) : Json F :=
  fieldOr (.str "claude_code") "runtime" (attr "launch" intent)

def modelRoute (intent : Json F) : Json F := attr "model_route" (attr "launch" intent)

def nativeSource (intent : Json F) : Json F :=
  attr "native_source" (attr "supervisor" (attr "policy" intent))

/-- `None` is stored at the path or above it. -/
def Cleared : List String → Items F → Prop
  | [], _ => False
  | key :: rest, d => lookup key d = some .null
      ∨ ∃ items, lookup key d = some (.obj items) ∧ Cleared rest items

/-- What the lifecycle owns is as the intent has it, unless a whole object
is cleared. -/
structure LifecycleKept (overrides : Items F) (intent effective : Json F) : Prop where
  authority : attr "authority" effective = attr "authority" intent
  consumerLanes : attr "consumer_lanes" effective = attr "consumer_lanes" intent
  launch : ¬ Cleared ["launch"] overrides →
    sessionRuntime effective = sessionRuntime intent ∧ modelRoute effective = modelRoute intent
  launchCleared : Cleared ["launch"] overrides → attr "launch" effective = .null
  source : ¬ Cleared ["policy", "supervisor"] overrides →
    nativeSource effective = nativeSource intent
  sourceCleared : Cleared ["policy", "supervisor"] overrides → nativeSource effective = .null

/-- The state after some calls. -/
def after (state : SessionState F) (calls : List (Call F)) : SessionState F :=
  { state with overrides := calls.foldl Call.run state.overrides }

omit [PyRate F]

/-- An override of an optional dataclass is `None` or a dict. -/
theorem merged_child {fields : Fields F} {postInit : Items F → Option (Items F)} {v base w : Json F}
    (h : build (.optional (.dataclass fields postInit)) (mergeValue v (some base)) = some w) :
    (v = .null ∧ w = .null) ∨ ∃ items out, v = .obj items ∧ w = .obj out := by
  cases v with
  | null =>
    cases h
    exact Or.inl ⟨rfl, rfl⟩
  | obj items =>
    right
    rcases build_optional_dataclass h with ⟨hnull, -⟩ | ⟨data, built, out, -, rfl, -, -⟩
    · cases base <;> cases hnull
    · exact ⟨items, out, rfl, rfl⟩
  | _ => cases h

theorem post_some {d d' : Items F} (h : some d = some d') : d' = d := (Option.some.inj h).symm

theorem post_checked {ok : Items F → Bool} {d d' : Items F} (h : checked ok d = some d') :
    d' = d := by
  unfold checked at h
  split at h
  · exact (Option.some.inj h).symm
  · cases h

variable {base w : Json F} {overrides : Items F}

/-- The launch that overrides are merged into. -/
theorem launch_kept (hproper : Proper (.obj overrides))
    (hbase : build (.optional launchIntent) base = some base)
    (hbuild : build (.optional launchIntent) (mergeValue (.obj overrides) (some base)) = some w)
    (hruntime : Absent ["runtime"] overrides) (hroute : Absent ["model_route"] overrides) :
    fieldOr (.str "claude_code") "runtime" w = fieldOr (.str "claude_code") "runtime" base
      ∧ attr "model_route" w = attr "model_route" base := by
  have hruntimeField : launchFields.find "runtime"
      = some (.str, some (.str "claude_code" : Json F)) := rfl
  have hrouteField : launchFields.find "model_route"
      = some (.optional modelRouteIntent, some (.null : Json F)) := rfl
  obtain ⟨hkeep, -⟩ := build_merged (fun _ _ => post_some) hproper.1 hbase hbuild hruntimeField
  obtain ⟨hkeep', -⟩ := build_merged (fun _ _ => post_some) hproper.1 hbase hbuild hrouteField
  obtain ⟨hnull, -⟩ | ⟨items, out, -, rfl⟩ := merged_child hbuild
  · cases hnull
  · exact ⟨hkeep hruntime, hkeep' hroute⟩

variable [PyRate F]

/-- The policy that overrides are merged into. -/
theorem source_kept (hproper : Proper (.obj overrides))
    (hbase : build (.optional policyIntent) base = some base)
    (hbuild : build (.optional policyIntent) (mergeValue (.obj overrides) (some base)) = some w)
    (habsent : Absent ["supervisor", "native_source"] overrides) :
    (¬ Cleared ["supervisor"] overrides → attr "native_source" (attr "supervisor" w)
        = attr "native_source" (attr "supervisor" base))
      ∧ (Cleared ["supervisor"] overrides → attr "native_source" (attr "supervisor" w) = .null) := by
  have hfield : policyFields.find "supervisor"
      = some (.optional supervisorConfig, some (.null : Json F)) := rfl
  have hsource : supervisorFields.find "native_source"
      = some (.optional nativeSupervisorSource, some (.null : Json F)) := rfl
  obtain ⟨hkeep, hset⟩ := build_merged (fun _ _ => post_some) hproper.1 hbase hbuild hfield
  have hsupervisor := built_field (fun _ _ => post_some) hbase hfield
  cases hlookup : lookup "supervisor" overrides with
  | none =>
    refine ⟨fun _ => congrArg (attr "native_source") (hkeep hlookup), fun hcleared => ?_⟩
    rcases hcleared with hnull | ⟨items, hitems, -⟩
    · rw [hlookup] at hnull
      cases hnull
    · rw [hlookup] at hitems
      cases hitems
  | some v =>
    have hchild := hset v hlookup
    rcases merged_child hchild with ⟨rfl, hnull⟩ | ⟨items, out, rfl, hout⟩
    · refine ⟨fun hnot => absurd (Or.inl hlookup) hnot, fun _ => ?_⟩
      show attr "native_source" (fieldOr .null "supervisor" w) = .null
      rw [hnull]
      rfl
    · have hitems := hproper.lookup hlookup
      obtain ⟨hkeep', -⟩ := build_merged (fun _ _ => post_checked) hitems.1 hsupervisor hchild hsource
      refine ⟨fun _ => hkeep' (habsent items hlookup), fun hcleared => ?_⟩
      rcases hcleared with hnull | ⟨_, _, hfalse⟩
      · rw [hlookup] at hnull
        cases hnull
      · exact hfalse.elim

/-- The merged intent, without the case of no overrides. -/
theorem computeEffectiveIntent_eq (state : SessionState F) :
    computeEffectiveIntent state
      = build sessionIntent (mergeValue (.obj state.overrides) (some (.obj state.intent))) := by
  rw [computeEffectiveIntent, mergeValue]
  cases h : state.overrides with
  | nil => rfl
  | cons kv rest => rfl

variable {state : SessionState F} {effective : Json F}

/-- A field of the intent and of the effective intent. -/
theorem effective_field (hproper : Proper (.obj state.overrides))
    (h : computeEffectiveIntent state = some effective) {key : String} {type : PyType F}
    (hfind : sessionFields.find key = some (.optional type, some .null)) :
    build (.optional type) (attr key (.obj state.intent)) = some (attr key (.obj state.intent))
      ∧ (lookup key state.overrides = none →
        attr key effective = attr key (.obj state.intent))
      ∧ ∀ v, lookup key state.overrides = some v →
        build (.optional type) (mergeValue v (some (attr key (.obj state.intent))))
          = some (attr key effective) := by
  have hbase : build (.optional sessionIntent) (.obj state.intent) = some (.obj state.intent) :=
    state.built
  have hbuild : build (.optional sessionIntent)
      (mergeValue (.obj state.overrides) (some (.obj state.intent))) = some effective := by
    rw [computeEffectiveIntent_eq, mergeValue] at h
    rw [mergeValue]
    exact h
  exact ⟨built_field (fun _ _ => post_some) hbase hfind,
    build_merged (fun _ _ => post_some) hproper.1 hbase hbuild hfind⟩

theorem effective_launch (hguard : Guarded state.overrides)
    (h : computeEffectiveIntent state = some effective) :
    (¬ Cleared ["launch"] state.overrides →
        sessionRuntime effective = sessionRuntime (.obj state.intent)
          ∧ modelRoute effective = modelRoute (.obj state.intent))
      ∧ (Cleared ["launch"] state.overrides → attr "launch" effective = .null) := by
  have hfind : sessionFields.find "launch"
      = some (.optional launchIntent, some (.null : Json F)) := rfl
  obtain ⟨hbase, hkeep, hset⟩ := effective_field hguard.proper h hfind
  cases hlookup : lookup "launch" state.overrides with
  | none =>
    have hsame := hkeep hlookup
    refine ⟨fun _ => ⟨congrArg (fieldOr _ "runtime") hsame, congrArg (attr "model_route") hsame⟩,
      fun hcleared => ?_⟩
    rcases hcleared with hnull | ⟨items, hitems, -⟩
    · rw [hlookup] at hnull
      cases hnull
    · rw [hlookup] at hitems
      cases hitems
  | some v =>
    have hchild := hset v hlookup
    rcases merged_child hchild with ⟨rfl, hnull⟩ | ⟨items, out, rfl, -⟩
    · exact ⟨fun hnot => absurd (Or.inl hlookup) hnot, fun _ => hnull⟩
    · have hruntime : Absent ["launch", "runtime"] state.overrides :=
        hguard.absent _ (by simp [lifecyclePaths])
      have hroute : Absent ["launch", "model_route"] state.overrides :=
        hguard.absent _ (by simp [lifecyclePaths])
      refine ⟨fun _ => launch_kept (hguard.proper.lookup hlookup) hbase hchild
        (hruntime items hlookup) (hroute items hlookup), fun hcleared => ?_⟩
      rcases hcleared with hnull | ⟨_, _, hfalse⟩
      · rw [hlookup] at hnull
        cases hnull
      · exact hfalse.elim

theorem effective_source (hguard : Guarded state.overrides)
    (h : computeEffectiveIntent state = some effective) :
    (¬ Cleared ["policy", "supervisor"] state.overrides →
        nativeSource effective = nativeSource (.obj state.intent))
      ∧ (Cleared ["policy", "supervisor"] state.overrides → nativeSource effective = .null) := by
  have hfind : sessionFields.find "policy"
      = some (.optional policyIntent, some (.null : Json F)) := rfl
  obtain ⟨hbase, hkeep, hset⟩ := effective_field hguard.proper h hfind
  cases hlookup : lookup "policy" state.overrides with
  | none =>
    have hsame := hkeep hlookup
    refine ⟨fun _ => congrArg (fun policy => attr "native_source" (attr "supervisor" policy)) hsame,
      fun hcleared => ?_⟩
    rcases hcleared with hnull | ⟨items, hitems, -⟩
    · rw [hlookup] at hnull
      cases hnull
    · rw [hlookup] at hitems
      cases hitems
  | some v =>
    have hchild := hset v hlookup
    rcases merged_child hchild with ⟨rfl, hnull⟩ | ⟨items, out, rfl, -⟩
    · refine ⟨fun hnot => absurd (Or.inl hlookup) hnot, fun _ => ?_⟩
      rw [nativeSource, hnull]
      rfl
    · have habsent : Absent ["policy", "supervisor", "native_source"] state.overrides :=
        hguard.absent _ (by simp [lifecyclePaths])
      obtain ⟨hkept, hgone⟩ := source_kept (hguard.proper.lookup hlookup) hbase hchild
        (habsent items hlookup)
      refine ⟨fun hnot => hkept fun hcleared => hnot (Or.inr ⟨items, hlookup, hcleared⟩),
        fun hcleared => ?_⟩
      rcases hcleared with hnull | ⟨items', hitems', hcleared⟩
      · rw [hlookup] at hnull
        cases hnull
      · rw [hlookup] at hitems'
        cases hitems'
        exact hgone hcleared

/-- A field without overrides. -/
theorem effective_absent (hguard : Guarded state.overrides)
    (h : computeEffectiveIntent state = some effective) {key : String} {type : PyType F}
    (hfind : sessionFields.find key = some (.optional type, some .null))
    (howned : [key] ∈ lifecyclePaths) : attr key effective = attr key (.obj state.intent) :=
  (effective_field hguard.proper h hfind).2.1 (hguard.absent [key] howned)

/-- What becomes of the intent under guarded overrides. -/
theorem Guarded.lifecycleKept (hguard : Guarded state.overrides)
    (h : computeEffectiveIntent state = some effective) :
    LifecycleKept state.overrides (.obj state.intent) effective where
  authority := effective_absent hguard h rfl (by simp [lifecyclePaths])
  consumerLanes := effective_absent hguard h rfl (by simp [lifecyclePaths])
  launch := (effective_launch hguard h).1
  launchCleared := (effective_launch hguard h).2
  source := (effective_source hguard h).1
  sourceCleared := (effective_source hguard h).2

end Effective

/-! ## 11. A session of another runtime -/

/-- The launch of a Codex session, with a mode. -/
def codexLaunch (mode : String) : Json FloatText :=
  .obj [("mode", .str mode), ("sidecar", .null), ("direct_model", .null), ("model_route", .null),
    ("runtime", .str "codex")]

def codexIntent (launch : Json FloatText) : Items FloatText :=
  [("agent", .str "codex"), ("proxy", .null), ("subprocess_proxy", .null), ("launch", launch),
    ("authority", .null), ("system_prompt", .null), ("memory", .null), ("policy", .null),
    ("verification", .null), ("consumer_lanes", .null)]

def codexState : SessionState FloatText where
  intent := codexIntent (codexLaunch "host")
  overrides := []
  built := by decide +kernel

/-- `set launch.mode sidecar` -/
def setMode : Call FloatText := .set "launch.mode" ⟨.str "sidecar", trivial⟩

/-- `set launch null` -/
def clearLaunch : Call FloatText := .set "launch" ⟨.null, trivial⟩

end MultiForge.Session.Overrides
