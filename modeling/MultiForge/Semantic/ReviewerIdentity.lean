/-
MultiForge.Semantic.ReviewerIdentity — who reviews, and against which plan:
`forge.policy.semantic.identity` and `forge.policy.semantic.plan_source`.

The identity of a reviewer and the fingerprint of a plan are parts of one
key. Both texts can be read back (`Reviewer.identity_append_injective`,
`PlanSnapshot.text_eq_of_fingerprint_eq`); what a digest stands for is its
text as long as no two texts that were hashed share it.
-/
import MultiForge.Engine.HookAdapters
import MultiForge.Json.Sorted

namespace MultiForge.Semantic

open MultiForge.Engine

/-! ## 1. Digests -/

/-- SHA-256 of a text's UTF-8 bytes, in hexadecimal. -/
structure Sha256 where
  hexdigest : String → String
  isSha256 : ∀ text, Engine.isSha256 (hexdigest text) = true

/-- No two of the texts have one digest. -/
def Sha256.Distinct (sha : Sha256) (texts : List String) : Prop :=
  ∀ a ∈ texts, ∀ b ∈ texts, sha.hexdigest a = sha.hexdigest b → a = b

theorem Sha256.length (sha : Sha256) (text : String) :
    (sha.hexdigest text).toList.length = 64 := by
  have h := sha.isSha256 text
  simp only [Engine.isSha256, Bool.and_eq_true, beq_iff_eq] at h
  rw [String.length_toList]
  exact h.1

theorem Sha256.no_colon (sha : Sha256) (text : String) : ':' ∉ (sha.hexdigest text).toList := by
  intro hmem
  have h := sha.isSha256 text
  simp only [Engine.isSha256, Bool.and_eq_true, List.all_eq_true] at h
  have hcolon := h.2 ':' hmem
  revert hcolon
  decide +kernel

/-! ## 2. The reviewer -/

/-- `LaneRecord` -/
structure LaneRecord where
  runtimeId : String
  backendId : String
  model : String
  deriving DecidableEq

/-- `NativeSupervisorSource` -/
structure NativeSupervisorSource where
  runtime : String
  threadId : String
  home : String
  rolloutPath : String
  sourceCwd : String
  headerDigest : String
  managedSession : Option String := none
  managedRoot : Option String := none
  deriving DecidableEq

/-- `SupervisorConfig`, as far as a verdict and its reuse depend on it. -/
structure SupervisorConfig where
  authMode : String := "inherit"
  reviewTrigger : String := "pre-tool-use"
  supervisorModel : Option String := none
  resumeId : Option String := none
  nativeSource : Option NativeSupervisorSource := none
  proxy : Option String := none
  direct : Bool := false
  baseUrl : Option String := none
  forgeRoot : Option String := none
  throttleSeconds : Int := 30
  suspended : Bool := false
  planOverridePath : Option String := none
  supervisorEffort : Option String := none
  deriving DecidableEq

/-- An optional text that is neither missing nor empty. -/
def given (text : Option String) : Bool := text.any (· ≠ "")

/-- `SupervisorConfig.configured` -/
def SupervisorConfig.configured (config : SupervisorConfig) : Bool :=
  given config.resumeId || config.nativeSource.isSome || given config.planOverridePath

/-- What a review is asked of. -/
structure Reviewer where
  lane : Option LaneRecord
  target : Option String
  nativeSource : Option NativeSupervisorSource
  root : Option String
  model : Option String
  effort : Option String
  auth : String
  direct : Bool
  proxy : Option String
  baseUrl : Option String
  deriving DecidableEq

def SupervisorConfig.reviewer (config : SupervisorConfig) (lane : Option LaneRecord) : Reviewer where
  lane := lane
  target := config.resumeId
  nativeSource := config.nativeSource
  root := config.forgeRoot
  model := config.supervisorModel
  effort := config.supervisorEffort
  auth := config.authMode
  direct := config.direct
  proxy := config.proxy
  baseUrl := config.baseUrl

/-- `asdict(lane) if lane else None` -/
def laneJson : Option LaneRecord → Json FloatText
  | none => .null
  | some lane => .obj [("runtime_id", .str lane.runtimeId), ("backend_id", .str lane.backendId),
      ("model", .str lane.model)]

/-- `asdict(config.native_source) if config.native_source else None` -/
def nativeJson : Option NativeSupervisorSource → Json FloatText
  | none => .null
  | some native => .obj [("runtime", .str native.runtime), ("thread_id", .str native.threadId),
      ("home", .str native.home), ("rollout_path", .str native.rolloutPath),
      ("source_cwd", .str native.sourceCwd), ("header_digest", .str native.headerDigest),
      ("managed_session", optText native.managedSession),
      ("managed_root", optText native.managedRoot)]

def Reviewer.json (reviewer : Reviewer) : Json FloatText :=
  .obj [("lane", laneJson reviewer.lane), ("target", optText reviewer.target),
    ("native_source", nativeJson reviewer.nativeSource), ("root", optText reviewer.root),
    ("model", optText reviewer.model), ("effort", optText reviewer.effort),
    ("auth", .str reviewer.auth), ("direct", .bool reviewer.direct),
    ("proxy", optText reviewer.proxy), ("base_url", optText reviewer.baseUrl)]

/-- `reviewer_cache_identity` -/
def reviewerCacheIdentity (config : SupervisorConfig) (lane : Option LaneRecord) : String :=
  Json.dumps (Json.sortKeys (config.reviewer lane).json) .compact

theorem optText_injective {F : Type} {a b : Option String}
    (h : (optText a : Json F) = optText b) : a = b := by
  cases a <;> cases b <;> simp_all [optText]

@[simp] theorem sortKeys_optText {F : Type} (a : Option String) :
    Json.sortKeys (optText a : Json F) = optText a := by
  cases a <;> rfl

theorem laneKeys_nodup : ["runtime_id", "backend_id", "model"].Nodup := by decide

theorem nativeKeys_nodup : ["runtime", "thread_id", "home", "rollout_path", "source_cwd",
    "header_digest", "managed_session", "managed_root"].Nodup := by decide

theorem reviewerKeys_nodup : ["lane", "target", "native_source", "root", "model", "effort", "auth",
    "direct", "proxy", "base_url"].Nodup := by decide

theorem laneJson_injective {a b : Option LaneRecord}
    (h : Json.sortKeys (laneJson a) = Json.sortKeys (laneJson b)) : a = b := by
  cases a with
  | none =>
    cases b with
    | none => rfl
    | some b => simp [laneJson, Json.sortKeys] at h
  | some a =>
    cases b with
    | none => simp [laneJson, Json.sortKeys] at h
    | some b =>
      have hvalues := Json.sortItems_values h rfl laneKeys_nodup
      simp [Json.sortKeys] at hvalues
      cases a
      cases b
      simp_all

theorem nativeJson_injective {a b : Option NativeSupervisorSource}
    (h : Json.sortKeys (nativeJson a) = Json.sortKeys (nativeJson b)) : a = b := by
  cases a with
  | none =>
    cases b with
    | none => rfl
    | some b => simp [nativeJson, Json.sortKeys] at h
  | some a =>
    cases b with
    | none => simp [nativeJson, Json.sortKeys] at h
    | some b =>
      have hvalues := Json.sortItems_values h rfl nativeKeys_nodup
      simp [Json.sortKeys] at hvalues
      obtain ⟨h1, h2, h3, h4, h5, h6, h7, h8⟩ := hvalues
      have h7 := optText_injective h7
      have h8 := optText_injective h8
      cases a
      cases b
      simp_all

theorem Reviewer.json_injective {a b : Reviewer}
    (h : Json.sortKeys a.json = Json.sortKeys b.json) : a = b := by
  have hvalues := Json.sortItems_values h rfl reviewerKeys_nodup
  simp [Json.sortKeys] at hvalues
  obtain ⟨hlane, htarget, hnative, hroot, hmodel, heffort, hauth, hdirect, hproxy, hbase⟩ := hvalues
  have hlane := laneJson_injective hlane
  have htarget := optText_injective htarget
  have hnative := nativeJson_injective hnative
  have hroot := optText_injective hroot
  have hmodel := optText_injective hmodel
  have heffort := optText_injective heffort
  have hproxy := optText_injective hproxy
  have hbase := optText_injective hbase
  cases a
  cases b
  simp_all

theorem optText_proper {F : Type} (a : Option String) : Json.Proper (optText a : Json F) := by
  cases a <;> trivial

theorem Reviewer.json_proper (reviewer : Reviewer) : Json.Proper reviewer.json := by
  have hlane : Json.Proper (laneJson reviewer.lane) := by
    cases reviewer.lane with
    | none => trivial
    | some lane => exact ⟨laneKeys_nodup, trivial, trivial, trivial, trivial⟩
  have hnative : Json.Proper (nativeJson reviewer.nativeSource) := by
    cases reviewer.nativeSource with
    | none => trivial
    | some native =>
      exact ⟨nativeKeys_nodup, trivial, trivial, trivial, trivial, trivial, trivial,
        optText_proper _, optText_proper _, trivial⟩
  exact ⟨reviewerKeys_nodup, hlane, optText_proper _, hnative, optText_proper _, optText_proper _,
    optText_proper _, trivial, trivial, optText_proper _, optText_proper _, trivial⟩

/-- **The reviewer can be read off a text that starts with its identity.** -/
theorem reviewer_of_identity_append {config config' : SupervisorConfig}
    {lane lane' : Option LaneRecord} {r r' : List Char} (hr : Json.NumEnd r) (hr' : Json.NumEnd r')
    (h : (reviewerCacheIdentity config lane).toList ++ r
      = (reviewerCacheIdentity config' lane').toList ++ r') :
    config.reviewer lane = config'.reviewer lane' ∧ r = r' := by
  rw [reviewerCacheIdentity, reviewerCacheIdentity, Json.dumps, Json.dumps, String.toList_ofList,
    String.toList_ofList] at h
  obtain ⟨hvalue, hrest⟩ := Json.dumpChars_append_injective Json.Separators.compact_valid
    (Reviewer.json_proper _).sortKeys (Reviewer.json_proper _).sortKeys hr hr' h
  exact ⟨Reviewer.json_injective hvalue, hrest⟩

/-! ## 3. The plan -/

/-- `str(Path(...))` of a root and parts. -/
def pathText (root : String) (parts : List (List Char)) : String :=
  if root = "" ∧ parts = [] then "." else root ++ String.ofList (['/'].intercalate parts)

/-- `str(Path(base) / path)` -/
def joinPath (base path : String) : String :=
  if pathRoot path ≠ "" then pathText (pathRoot path) (pathParts path)
  else pathText (pathRoot base) (pathParts base ++ pathParts path)

/-- A regular file that a path leads to: whether the path itself is a link,
and the file's text if its bytes are UTF-8. -/
structure PlanFile where
  isLink : Bool := false
  text : Option String

/-- `PlanSnapshot` -/
structure PlanSnapshot where
  path : Option String
  text : Option String
  digest : Option String
  deriving DecidableEq

/-- `PlanSnapshot.fingerprint` -/
def PlanSnapshot.fingerprint (snapshot : PlanSnapshot) : String :=
  snapshot.path.getD "None" ++ ":" ++ (if given snapshot.digest then snapshot.digest.getD ""
    else "unavailable")

/-- The path of the plan. -/
def planPath (config : SupervisorConfig) (path : String) : String :=
  if pathRoot path = "" ∧ given config.forgeRoot then joinPath (config.forgeRoot.getD "") path
  else pathText (pathRoot path) (pathParts path)

/-- Whether a file is taken for a plan. -/
def PlanFile.readable (config : SupervisorConfig) (file : PlanFile) : Bool :=
  match file.text with
  | none => false
  | some text =>
      !Lines.isBlank text.toList
        && (config.reviewTrigger != "stop" || (!file.isLink && decide (text.utf8ByteSize ≤ 64000)))

/-- `read_plan`, with the files as they are at that moment. -/
def readPlan (sha : Sha256) (files : String → Option PlanFile) (config : SupervisorConfig) :
    PlanSnapshot :=
  if given config.planOverridePath then
    let path := planPath config (config.planOverridePath.getD "")
    match files path with
    | none => ⟨some path, none, none⟩
    | some file =>
        if file.readable config then ⟨some path, file.text, file.text.map sha.hexdigest⟩
        else ⟨some path, none, none⟩
  else ⟨none, none, none⟩

/-- A snapshot's digest is that of its text. -/
theorem readPlan_digest (sha : Sha256) (files : String → Option PlanFile)
    (config : SupervisorConfig) :
    (readPlan sha files config).digest = (readPlan sha files config).text.map sha.hexdigest := by
  unfold readPlan
  split
  · dsimp only
    split
    · rfl
    · split <;> rfl
  · rfl

private theorem after_colon {a b d e : List Char} (hd : ':' ∉ d) (he : ':' ∉ e)
    (h : a ++ ':' :: d = b ++ ':' :: e) : d = e := by
  rcases List.append_eq_append_iff.mp h with ⟨c, -, hc⟩ | ⟨c, -, hc⟩
  · cases c with
    | nil => exact (List.cons_eq_cons.mp hc).2
    | cons x c =>
      have hmem : ':' ∈ d := by
        rw [(List.cons_eq_cons.mp hc).2]
        exact List.mem_append_right _ List.mem_cons_self
      exact absurd hmem hd
  · cases c with
    | nil => exact (List.cons_eq_cons.mp hc).2.symm
    | cons x c =>
      have hmem : ':' ∈ e := by
        rw [(List.cons_eq_cons.mp hc).2]
        exact List.mem_append_right _ List.mem_cons_self
      exact absurd hmem he

/-- What a fingerprint says of the plan after its path. -/
def planMark (sha : Sha256) : Option String → String
  | none => "unavailable"
  | some text => sha.hexdigest text

theorem planMark_no_colon (sha : Sha256) (text : Option String) :
    ':' ∉ (planMark sha text).toList := by
  cases text with
  | none =>
    show ':' ∉ "unavailable".toList
    decide +kernel
  | some text => exact sha.no_colon text

theorem fingerprint_readPlan (sha : Sha256) (files : String → Option PlanFile)
    (config : SupervisorConfig) : (readPlan sha files config).fingerprint
      = (readPlan sha files config).path.getD "None" ++ ":"
        ++ planMark sha (readPlan sha files config).text := by
  rw [PlanSnapshot.fingerprint, readPlan_digest]
  cases (readPlan sha files config).text with
  | none => rfl
  | some text =>
    have hne : sha.hexdigest text ≠ "" := by
      intro h
      have hlength := sha.length text
      rw [h] at hlength
      cases hlength
    simp [given, planMark, hne]

/-- **Plans with one fingerprint have one text.** -/
theorem text_eq_of_fingerprint_eq {sha : Sha256} {files files' : String → Option PlanFile}
    {config config' : SupervisorConfig}
    (hdistinct : sha.Distinct ((readPlan sha files config).text.toList
      ++ (readPlan sha files' config').text.toList))
    (h : (readPlan sha files config).fingerprint = (readPlan sha files' config').fingerprint) :
    (readPlan sha files config).text = (readPlan sha files' config').text := by
  rw [fingerprint_readPlan, fingerprint_readPlan] at h
  generalize (readPlan sha files config).text = a at *
  generalize (readPlan sha files' config').text = b at *
  have hmark : (planMark sha a).toList = (planMark sha b).toList := by
    have hlist := congrArg String.toList h
    rw [String.toList_append, String.toList_append, String.toList_append, String.toList_append,
      List.append_assoc, List.append_assoc] at hlist
    exact after_colon (planMark_no_colon sha a) (planMark_no_colon sha b) hlist
  have hunavailable : ∀ text, ¬ (sha.hexdigest text).toList = "unavailable".toList := by
    intro text htext
    have hlength := sha.length text
    rw [htext] at hlength
    revert hlength
    decide +kernel
  cases a with
  | none =>
    cases b with
    | none => rfl
    | some b => exact absurd hmark.symm (hunavailable b)
  | some a =>
    cases b with
    | none => exact absurd hmark (hunavailable a)
    | some b =>
      have hab := hdistinct a (by simp) b (by simp) (String.toList_injective hmark)
      rw [hab]

end MultiForge.Semantic
