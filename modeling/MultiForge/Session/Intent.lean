/-
MultiForge.Session.Intent — `SessionIntent`, and what overrides make of it.

The intent of a session is an instance of a dataclass: the dict that
`asdict` gives, which builds itself (`SessionState.instance`). Overrides
are a sparse dict. `apply_overrides` merges them key by key and goes into
a dict where both sides have one; `compute_effective_intent` builds the
dataclass from the result.

Of a key, the merge looks at nothing but what both sides have under it
(`lookup_applyOverrides`).
-/
import MultiForge.Json.RoundTrip
import MultiForge.Lib.Dataclass
import MultiForge.Policy.TurnEvidence

namespace MultiForge.Session

open Json Dataclass
open MultiForge.Policy (isHex isCanonicalUuid isAbsolute)

/-- Floats that can be compared with the bounds of a rate. -/
class PyRate (F : Type) extends PyFloat F where
  /-- `0.0 <= x <= 1.0` -/
  isRate : F → Bool
  /-- `0.0` -/
  zero : F

variable {F : Type}

/-! ## 1. The dataclasses -/

/-- The items of a dict. -/
abbrev Items (F : Type) := List (String × Json F)

/-- A `__post_init__` that only checks. -/
def checked (ok : Items F → Bool) (d : Items F) : Option (Items F) := if ok d then some d else none

/-- A text field; one that is `None` has the empty text. -/
def textOf (d : Items F) (key : String) : String :=
  match get d key with
  | .str s => s
  | _ => ""

/-- `value is None` -/
def isNone : Json F → Bool
  | .null => true
  | _ => false

/-- A text that is `None` or one of these. -/
def noneOrIn (d : Items F) (key : String) (levels : List String) : Bool :=
  isNone (get d key) || textOf d key ∈ levels

def CLAUDE_EFFORT_LEVELS : List String := ["low", "medium", "high", "xhigh", "max"]

def CODEX_EFFORT_LEVELS : List String :=
  ["none", "minimal", "low", "medium", "high", "xhigh", "max"]

def CHECKER_EFFORT_LEVELS : List String := ["none", "low", "medium", "high", "xhigh"]

def proxyIntent : PyType F := .dataclass
  (.field "template" .str none <| .field "base_url" .str none .done) some

def systemPromptIntent : PyType F := .dataclass
  (.field "mode" .str (some (.str "append")) <|
    .field "file" (.optional .str) (some .null) .done) some

def sidecarLaunchIntent : PyType F := .dataclass
  (.field "mounts" (.list .str) (some (.list [])) <|
    .field "image" (.optional .str) (some .null) .done) some

/-- `ModelRouteIntent.__post_init__` -/
def modelRouteValid (d : Items F) : Bool :=
  textOf d "requested_model" ≠ "" && textOf d "selected_tier" ∈ ["haiku", "sonnet", "opus"]
    && textOf d "kind" ∈ ["proxy", "direct"]
    && (textOf d "kind" ≠ "direct" || isNone (get d "source_id"))
    && (isNone (get d "source_id") || textOf d "source_id" ≠ "")

def modelRouteIntent : PyType F := .dataclass
  (.field "requested_model" .str none <| .field "selected_tier" .str none <|
    .field "kind" (.literal ["direct", "proxy"]) none <|
    -- an optional field without a default is `None` when it is missing
    .field "source_id" (.optional .str) (some .null) .done)
  (checked modelRouteValid)

def launchFields : Fields F :=
  .field "mode" .str (some (.str "host")) <|
    .field "sidecar" (.optional sidecarLaunchIntent) (some .null) <|
    .field "direct_model" (.optional .str) (some .null) <|
    .field "model_route" (.optional modelRouteIntent) (some .null) <|
    .field "runtime" .str (some (.str "claude_code")) .done

def launchIntent : PyType F := .dataclass launchFields some

/-- `AuthorityIntent.__post_init__`: an advisory role gets a tier. -/
def authorityPostInit (d : Items F) : Option (Items F) :=
  if textOf d "role" = "advisory" then
    let d := if isNone (get d "tier") then insert "tier" (.str "shell_closed") d else d
    if textOf d "tier" ∈ ["named_tools", "shell_closed"] then some d else none
  else if textOf d "role" = "producer" then
    if isNone (get d "tier") then some d else none
  else none

def authorityIntent : PyType F := .dataclass
  (.field "role" .str none <| .field "tier" (.optional .str) (some .null) .done) authorityPostInit

/-- `validate_claude_effort(self.effort)` -/
def effortValid (d : Items F) : Bool := noneOrIn d "effort" CLAUDE_EFFORT_LEVELS

def memoryWriterConfig : PyType F := .dataclass
  (.field "enabled" .bool (some (.bool false)) <| .field "mode" .str (some (.str "augment")) <|
    .field "proxy" (.optional .str) (some .null) <| .field "direct" .bool (some (.bool false)) <|
    .field "min_turns" .int (some (.int 5)) <|
    .field "effort" (.optional .str) (some .null) .done)
  (checked effortValid)

def memoryIntent : PyType F := .dataclass
  (.field "auto_recall" .bool (some (.bool false)) <|
    .field "tags" (.list .str) (some (.list [])) <|
    .field "strategy" .str (some (.str "summary")) <|
    .field "max_chars" .int (some (.int 6000)) <|
    .field "auto_update" (.optional memoryWriterConfig) (some .null) .done) some

/-- `NativeSupervisorSource.__post_init__` -/
def nativeSourceValid (d : Items F) : Bool :=
  textOf d "runtime" == "codex" && isCanonicalUuid (textOf d "thread_id")
    && ["home", "rollout_path", "source_cwd"].all (fun key => isAbsolute (textOf d key))
    && isHex 64 (textOf d "header_digest")
    && (textOf d "managed_session" ≠ "") == (textOf d "managed_root" ≠ "")

def nativeSupervisorSource : PyType F := .dataclass
  (.field "runtime" .str none <| .field "thread_id" .str none <| .field "home" .str none <|
    .field "rollout_path" .str none <| .field "source_cwd" .str none <|
    .field "header_digest" .str none <|
    .field "managed_session" (.optional .str) (some .null) <|
    .field "managed_root" (.optional .str) (some .null) .done)
  (checked nativeSourceValid)

/-- `0.0 <= value <= 1.0` -/
def isRate [PyRate F] : Json F → Bool
  | .bool _ => true
  | .int n => 0 ≤ n && n ≤ 1
  | .float x => PyRate.isRate x
  | _ => false

/-- `value >= 1` -/
def atLeastOne : Json F → Bool
  | .bool b => b
  | .int n => 1 ≤ n
  | _ => false

variable [PyRate F]

/-- `SupervisorConfig.__post_init__` -/
def supervisorValid (d : Items F) : Bool :=
  let samples := (get d "shadow_sample_rate").truthy
  let cascade := (get d "cascade").truthy
  textOf d "review_trigger" ∈ ["pre-tool-use", "stop"]
    && (textOf d "review_trigger" ≠ "stop" || !(cascade || samples))
    && isRate (get d "shadow_sample_rate") && atLeastOne (get d "shadow_max_per_session")
    && noneOrIn d "supervisor_effort" CODEX_EFFORT_LEVELS
    && textOf d "auth_mode" ∈ ["inherit", "subscription-only", "api"]
    && (isNone (get d "native_source") || !(textOf d "resume_id" ≠ "" || cascade || samples
      || !(get d "fork_session").truthy))
    && noneOrIn d "checker_effort" CHECKER_EFFORT_LEVELS

def supervisorFields : Fields F :=
  .field "auth_mode" .str (some (.str "inherit")) <|
    .field "review_trigger" .str (some (.str "pre-tool-use")) <|
    .field "supervisor_model" (.optional .str) (some .null) <|
    .field "resume_id" (.optional .str) (some .null) <|
    .field "native_source" (.optional nativeSupervisorSource) (some .null) <|
    .field "proxy" (.optional .str) (some .null) <|
    .field "direct" .bool (some (.bool false)) <|
    .field "base_url" (.optional .str) (some .null) <|
    .field "forge_root" (.optional .str) (some .null) <|
    .field "timeout_seconds" .int (some (.int 45)) <|
    .field "throttle_seconds" .int (some (.int 30)) <|
    .field "fork_session" .bool (some (.bool true)) <|
    .field "suspended" .bool (some (.bool false)) <|
    .field "plan_override_path" (.optional .str) (some .null) <|
    .field "cascade" .bool (some (.bool false)) <|
    .field "checker_model" (.optional .str) (some .null) <|
    .field "checker_provider" (.optional .str) (some .null) <|
    .field "checker_budget_tokens" (.optional .int) (some .null) <|
    .field "checker_effort" (.optional .str) (some .null) <|
    .field "supervisor_effort" (.optional .str) (some .null) <|
    .field "shadow_sample_rate" .float (some (.float PyRate.zero)) <|
    .field "shadow_max_per_session" .int (some (.int 10)) <|
    .field "shadow_seed" (.optional .str) (some .null) .done

def supervisorConfig : PyType F := .dataclass supervisorFields (checked supervisorValid)

def teamSupervisorConfig : PyType F := .dataclass
  (.field "enabled" .bool (some (.bool false)) <|
    .field "tagger_model" .str (some (.str "gemini/gemini-3.8-flash")) <|
    .field "resume_id" (.optional .str) (some .null) <|
    .field "proxy" (.optional .str) (some .null) <| .field "direct" .bool (some (.bool false)) <|
    .field "base_url" (.optional .str) (some .null) <|
    .field "timeout_seconds" .int (some (.int 45)) <|
    .field "throttle_seconds" .int (some (.int 60)) <|
    .field "max_blocks_per_task" .int (some (.int 3)) <|
    .field "effort" (.optional .str) (some .null) .done)
  (checked effortValid)

def policyFields : Fields F :=
  .field "enabled" .bool (some (.bool false)) <|
    .field "fail_mode" (.literal ["open", "closed"]) (some (.str "open")) <|
    .field "bundles" (.list .str) (some (.list [])) <|
    .field "bundle_config" (.dict (.dict .any)) (some (.obj [])) <|
    .field "supervisor" (.optional supervisorConfig) (some .null) <|
    .field "team_supervisor" (.optional teamSupervisorConfig) (some .null) .done

def policyIntent : PyType F := .dataclass policyFields some

def verificationConfig : PyType F := .dataclass
  (.field "type" .str (some (.str "completion_promise")) <|
    .field "promise" (.optional .str) (some .null) <|
    .field "max_iterations" .int (some (.int 50)) <|
    .field "max_minutes" (.optional .int) (some .null) <|
    .field "bypass" .bool (some (.bool false)) <|
    .field "on_incomplete" .str (some (.str "block")) <|
    .field "re_inject_prompt" (.optional .str) (some .null) <|
    .field "test_timeout_seconds" .int (some (.int 300)) .done) some

/-- `LaneRecord.__post_init__` -/
def laneValid (d : Items F) : Bool :=
  ["runtime_id", "backend_id", "model"].all fun key => textOf d key ≠ ""

def laneRecord : PyType F := .dataclass
  (.field "runtime_id" .str none <| .field "backend_id" .str none <| .field "model" .str none .done)
  (checked laneValid)

def consumerLaneIntent : PyType F := .dataclass
  (.field "supervisor" (.optional laneRecord) (some .null) <|
    .field "memory_writer" (.optional laneRecord) (some .null) <|
    .field "shadow_curation" (.optional laneRecord) (some .null) <|
    .field "team_supervisor" (.optional laneRecord) (some .null) .done) some

def sessionFields : Fields F :=
  .field "agent" .str (some (.str "claude-code")) <|
    .field "proxy" (.optional proxyIntent) (some .null) <|
    .field "subprocess_proxy" (.optional .str) (some .null) <|
    .field "launch" (.optional launchIntent) (some .null) <|
    .field "authority" (.optional authorityIntent) (some .null) <|
    .field "system_prompt" (.optional systemPromptIntent) (some .null) <|
    .field "memory" (.optional memoryIntent) (some .null) <|
    .field "policy" (.optional policyIntent) (some .null) <|
    .field "verification" (.optional verificationConfig) (some .null) <|
    .field "consumer_lanes" (.optional consumerLaneIntent) (some .null) .done

def sessionIntent : PyType F := .dataclass sessionFields some

/-! ## 2. Effective intent -/

mutual

/-- What a key holds after the merge: the override, or the two dicts
merged. -/
def mergeValue : Json F → Option (Json F) → Json F
  | .obj overrides, some (.obj base) => .obj (applyOverrides overrides base)
  | value, _ => value

/-- `apply_overrides`; the loop over the overrides carries the result. -/
def applyOverrides : Items F → Items F → Items F
  | [], base => base
  | (key, value) :: rest, base =>
      applyOverrides rest (insert key (mergeValue value (lookup key base)) base)

end

omit [PyRate F] in
/-- What a key holds after the merge. -/
theorem lookup_applyOverrides (key : String) : ∀ {overrides : Items F} (base : Items F),
    (overrides.map Prod.fst).Nodup →
      lookup key (applyOverrides overrides base) = match lookup key overrides with
        | some value => some (mergeValue value (lookup key base))
        | none => lookup key base
  | [], _, _ => rfl
  | (k, value) :: rest, base, h => by
      obtain ⟨hk, hrest⟩ := List.nodup_cons.mp h
      rw [applyOverrides, lookup_applyOverrides key _ hrest, lookup_insert, lookup_cons]
      by_cases hkey : k = key
      · subst hkey
        rw [lookup_eq_none hk, if_pos rfl, if_pos rfl]
      · rw [if_neg hkey, if_neg hkey]

/-! ## 3. A dataclass below the merge -/

/-- An attribute of an instance or of `None`, with a default for `None`. -/
def fieldOr (default : Json F) (key : String) : Json F → Json F
  | .obj items => get items key
  | _ => default

section Merge

omit [PyRate F]

theorem mergeValue_null (value : Json F) : mergeValue value (some .null) = value := by
  cases value <;> rfl

theorem get_of_lookup {items : Items F} {key : String} {value : Json F}
    (h : lookup key items = some value) : get items key = value := by
  rw [Json.get, getD, h]
  rfl

variable {fields : Fields F} {postInit : Items F → Option (Items F)} {base w : Json F}

/-- An optional dataclass is built from `None` or from a dict. -/
theorem build_optional_dataclass {v : Json F}
    (h : build (.optional (.dataclass fields postInit)) v = some w) :
    (v = .null ∧ w = .null) ∨ ∃ data built out, v = .obj data ∧ w = .obj out
      ∧ buildFields fields data = some built ∧ postInit built = some out :=
  (build_optional h).imp_right fun hbuild => build_dataclass hbuild.2

/-- An attribute of an instance is one. -/
theorem built_field (hpost : ∀ d d', postInit d = some d' → d' = d)
    (hbase : build (.optional (.dataclass fields postInit)) base = some base) {key : String}
    {type : PyType F} (hfind : fields.find key = some (.optional type, some .null)) :
    build (.optional type) (fieldOr .null key base) = some (fieldOr .null key base) := by
  rcases build_optional_dataclass hbase with ⟨rfl, -⟩ | ⟨data, built, out, rfl, hout, hbuilt, hpostInit⟩
  · rfl
  · cases hout
    obtain rfl := hpost _ _ hpostInit
    obtain ⟨value, hvalue, hfield⟩ := buildFields_lookup hbuilt hfind
    rw [hvalue] at hfield
    rw [fieldOr, get_of_lookup hvalue]
    exact hfield

/-- The attributes of a dataclass that overrides are merged into. -/
theorem build_merged (hpost : ∀ d d', postInit d = some d' → d' = d) {overrides : Items F}
    (hnodup : (overrides.map Prod.fst).Nodup)
    (hbase : build (.optional (.dataclass fields postInit)) base = some base)
    (hbuild : build (.optional (.dataclass fields postInit))
      (mergeValue (.obj overrides) (some base)) = some w)
    {key : String} {type : PyType F} {default : Json F}
    (hfind : fields.find key = some (type, some default)) :
    (lookup key overrides = none → fieldOr .null key w = fieldOr default key base)
      ∧ ∀ v, lookup key overrides = some v →
        build type (mergeValue v (some (fieldOr .null key base))) = some (fieldOr .null key w) := by
  rcases build_optional_dataclass hbase with ⟨rfl, -⟩ | ⟨data, built, out, rfl, hout, hbuilt, hpostInit⟩
  · rw [mergeValue_null] at hbuild
    have hbuild : build (.dataclass fields postInit) (.obj overrides) = some w := hbuild
    obtain ⟨data, built, out, hdata, rfl, hbuilt, hpostInit⟩ := build_dataclass hbuild
    cases hdata
    obtain rfl := hpost _ _ hpostInit
    obtain ⟨value, hvalue, hfield⟩ := buildFields_lookup hbuilt hfind
    rw [fieldOr, get_of_lookup hvalue]
    refine ⟨fun hnone => ?_, fun v hv => ?_⟩
    · rw [hnone] at hfield
      exact (Option.some.inj hfield).symm
    · rw [hv] at hfield
      show build type (mergeValue v (some .null)) = some value
      rw [mergeValue_null]
      exact hfield
  · cases hout
    obtain rfl := hpost _ _ hpostInit
    obtain ⟨old, hold, hself⟩ := buildFields_lookup hbuilt hfind
    rw [hold] at hself
    rw [mergeValue] at hbuild
    have hbuild : build (.dataclass fields postInit) (.obj (applyOverrides overrides data))
        = some w := hbuild
    obtain ⟨merged, built', out', hmerged, rfl, hbuilt', hpostInit'⟩ := build_dataclass hbuild
    cases hmerged
    obtain rfl := hpost _ _ hpostInit'
    obtain ⟨value, hvalue, hfield⟩ := buildFields_lookup hbuilt' hfind
    rw [lookup_applyOverrides key _ hnodup, hold] at hfield
    rw [fieldOr, fieldOr, get_of_lookup hvalue, fieldOr, get_of_lookup hold]
    refine ⟨fun hnone => ?_, fun v hv => ?_⟩
    · rw [hnone] at hfield
      exact Option.some.inj (hfield.symm.trans hself)
    · rw [hv] at hfield
      exact hfield

end Merge

/-- A session: the intent is an instance. -/
structure SessionState (F : Type) [PyRate F] where
  intent : Items F
  overrides : Items F
  built : build sessionIntent (.obj intent) = some (.obj intent)

/-- `compute_effective_intent`; `none` is that it raises. -/
def computeEffectiveIntent (state : SessionState F) : Option (Json F) :=
  let merged := if state.overrides.isEmpty then state.intent
    else applyOverrides state.overrides state.intent
  build sessionIntent (.obj merged)

end MultiForge.Session
