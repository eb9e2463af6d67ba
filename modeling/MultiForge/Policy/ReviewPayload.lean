/-
MultiForge.Policy.ReviewPayload — the dict of a checkpoint and its validator.

`validatePayload` refuses unknown, newer or malformed spending state. It is
the list of its checks, in the order of the source, each with the text it
raises. `Checkpoint.payload` is the dict a step hands to it. A reader
decodes a payload with sorted keys, which makes no difference to the checks
(`validatePayload_sorted`).
-/
import MultiForge.Policy.StopReview

namespace MultiForge.Policy

open Json
open Session (isLower isDecimal isToken optStr strictJson strictItems strictList)

variable {F : Type}

/-! ## 1. The payload -/

def SnapshotRef.toJson (r : SnapshotRef) : Json F :=
  .obj [("digest", .str r.digest.text), ("root", .str r.root), ("files", .int r.files),
    ("omissions", strList r.omissions)]

def ExcludedWork.toJson (w : ExcludedWork) : Json F :=
  .obj [("turns", .int w.turns), ("last_turn", .str w.lastTurn.text),
    ("last_thread", .str w.lastThread.text), ("reason", .str w.reason.text),
    ("reviewed", .bool false)]

/-- `asdict(result.decision)` -/
def PolicyDecision.toJson (d : PolicyDecision F) : Json F :=
  .obj ([("decision", .str d.decision.text), ("fail_open", .bool d.failOpen),
    ("failure_type", optStr d.failureType)] ++ d.details)

def changesJson (changes : Nat × List String) : Json F :=
  .obj [("count", .int changes.1), ("paths", strList changes.2)]

def coverageJson (coverage : Bool × List String) : Json F :=
  .obj [("complete", .bool coverage.1), ("omissions", strList coverage.2)]

def idList (turns : List NativeId) : Json F := .list (turns.map fun t => .str t.text)

/-- The state dict, with the keys that `_new_state` does not set last. -/
def Checkpoint.payload (c : Checkpoint F) : List (String × Json F) :=
  [("schema", .int 2),
    ("session_identity", .str c.sessionIdentity.text),
    ("forge_root", .str c.forgeRoot),
    ("checkout", .str c.checkout),
    ("thread_id", .str c.threadId.text),
    ("turn_id", .str c.turnId.text),
    ("watermark", .str (String.ofList (natChars c.watermark))),
    ("config_digest", .str c.configDigest.text),
    ("spent", .bool c.spent),
    ("dispatched", optJson (.bool ·) c.dispatched),
    ("status", .str c.status.text),
    ("reason", optStr c.reason),
    ("outstanding", .bool c.outstanding),
    ("provenance", idList c.provenance),
    ("actions", .list (c.actions.map fun a => .obj a.items)),
    ("correction_consumed", .bool c.correctionConsumed),
    ("baseline", optJson SnapshotRef.toJson c.baseline),
    ("start_snapshot", optJson SnapshotRef.toJson c.startSnapshot),
    ("observed_snapshot", optJson SnapshotRef.toJson c.observedSnapshot),
    ("excluded_work", optJson ExcludedWork.toJson c.excludedWork),
    ("unattributed_changes", changesJson c.unattributedChanges),
    ("reset_requested", .bool c.resetRequested),
    ("reviewed", optJson SnapshotRef.toJson c.reviewed),
    ("attempt_id", optJson (.str ·.text) c.attemptId),
    ("evidence_digest", optJson (.str ·.text) c.evidenceDigest),
    ("evidence", optJson Evidence.toJson c.evidence),
    ("decision", optJson PolicyDecision.toJson c.decision),
    ("updated_at", .str c.updatedAt),
    ("coverage", optJson coverageJson c.coverage),
    ("carry_omissions", strList c.carryOmissions)]
    ++ (optItem "blocked_until_turn" (.str ·.text) c.blockedUntilTurn
      ++ optItem "baseline_error" .str c.baselineError
      ++ optItem "plan_digest" (.str ·.text) c.planDigest
      ++ optItem "reviewer_identity" .str c.reviewerIdentity)

/-! ## 2. Checks -/

/-- A condition and the text of the `ValueError` without it. -/
abbrev Check := Bool × String

/-- `raise` at the first check that fails. -/
def accept (checks : List Check) : Except String Unit :=
  match checks.find? (!·.1) with
  | some check => .error check.2
  | none => .ok ()

theorem accept_ok {checks : List Check} :
    accept checks = .ok () ↔ ∀ check ∈ checks, check.1 = true := by
  unfold accept
  split
  · rename_i check hfind
    have hcheck : ¬ check.1 = true := by simpa using List.find?_some hfind
    constructor
    · intro h
      cases h
    · intro h
      exact absurd (h check (List.mem_of_find?_eq_some hfind)) hcheck
  · rename_i hfind
    refine ⟨fun _ check hmem => ?_, fun _ => rfl⟩
    simpa using List.find?_eq_none.mp hfind check hmem

def isBool : Json F → Bool
  | .bool _ => true
  | _ => false

def isStr : Json F → Bool
  | .str _ => true
  | _ => false

def isInt : Json F → Bool
  | .int _ => true
  | _ => false

/-- `type(v) is int and v >= bound` -/
def isIntFrom (bound : Int) : Json F → Bool
  | .int n => bound ≤ n
  | _ => false

def isFalse : Json F → Bool
  | .bool b => !b
  | _ => false

def isNull : Json F → Bool
  | .null => true
  | _ => false

/-- A list of strings. -/
def isStrList : Json F → Bool
  | .list vs => vs.all isStr
  | _ => false

/-- The elements of a list. -/
def elements : Json F → List (Json F)
  | .list vs => vs
  | _ => []

def isListUpTo (bound : Nat) : Json F → Bool
  | .list vs => vs.length ≤ bound
  | _ => false

/-- `_hex` does not raise -/
def isHexJson (size : Nat) : Json F → Bool
  | .str s => isHex size s
  | _ => false

/-- `_native_id` does not raise -/
def isNativeJson : Json F → Bool
  | .str s => isNativeId s
  | _ => false

def isAbsoluteJson : Json F → Bool
  | .str s => isAbsolute s
  | _ => false

def isNonemptyStr : Json F → Bool
  | .str s => s ≠ ""
  | _ => false

/-- `v == w` for a string `w` -/
def sameStr : Json F → Json F → Bool
  | .str a, .str b => a == b
  | _, _ => false

/-- `v in names` -/
def isOneOf (names : List String) : Json F → Bool
  | .str s => s ∈ names
  | _ => false

/-- What `v in {...}` raises, or the text for a value that is not in it. -/
def memberText (text : String) : Json F → String
  | .list _ => "unhashable type: 'list'"
  | .obj _ => "unhashable type: 'dict'"
  | _ => text

/-- `set(d) == {...}` -/
def sameKeys (items : List (String × Json F)) (keys : List String) : Bool :=
  keys.all (fun k => decide (k ∈ items.map Prod.fst)) && (items.map Prod.fst).all (· ∈ keys)

/-- `_native_id`; where `UUID` itself raises, its text is another one. -/
def nativeCheck (v : Json F) : Check := (isNativeJson v, "Invalid review turn identity")

/-- `_hex` -/
def hexCheck (size : Nat) (v : Json F) : Check :=
  (isHexJson size v, "Invalid review identity digest")

/-! ## 3. `validate_payload` -/

def REQUIRED : List String :=
  ["forge_root", "session_identity", "checkout", "thread_id", "turn_id", "watermark",
    "config_digest", "spent", "status", "outstanding", "provenance", "actions",
    "correction_consumed", "baseline", "reviewed", "updated_at"]

def ALLOWED : List String :=
  REQUIRED ++ ["reason", "attempt_id", "evidence_digest", "evidence", "decision", "coverage",
    "start_snapshot", "baseline_error", "plan_digest", "reviewer_identity", "dispatched", "schema",
    "reset_requested", "excluded_work", "carry_omissions", "blocked_until_turn",
    "observed_snapshot", "unattributed_changes"]

def EXCLUDE_REASONS : List String :=
  ["operator_reset", "partial_evidence", "unattributed_pending_work", "missing_turn_start",
    "missing_observation"]

def STATUSES : List String :=
  ["collecting", "reviewing", "reviewed", "unavailable", "unreviewed", "incomplete", "no_changes",
    "partial"]

/-- The statuses a turn cannot have with its allowance. -/
def SPENT_STATUSES : List String := ["reviewing", "reviewed", "partial", "incomplete", "unreviewed"]

/-- The checks of `excluded_work` -/
def excludedChecks : Json F → List Check
  | .null => []
  | .obj items =>
      [(sameKeys items ["turns", "last_turn", "last_thread", "reason", "reviewed"]
          && isIntFrom 1 (get items "turns") && isFalse (get items "reviewed"),
          "Invalid excluded review scope"),
        (isOneOf EXCLUDE_REASONS (get items "reason"),
          memberText "Invalid excluded review scope" (get items "reason")),
        nativeCheck (get items "last_turn"), nativeCheck (get items "last_thread")]
  | _ => [(false, "Invalid excluded review scope")]

/-- The check of `unattributed_changes` -/
def changesCheck : Json F → Check
  | .null => (true, "")
  | .obj items => (sameKeys items ["count", "paths"] && isIntFrom 0 (get items "count")
      && isListUpTo 32 (get items "paths") && isStrList (get items "paths"),
      "Invalid unattributed change summary")
  | _ => (false, "Invalid unattributed change summary")

/-- `str(UUID(turn).int) == watermark` -/
def isWatermark (turn watermark : Json F) : Bool :=
  match turn, watermark with
  | .str t, .str w => w == String.ofList (natChars (uuidInt t))
  | _, _ => false

/-- Is the blocked turn later than the watermark, which is the turn's? -/
def isLater (blocked turn : Json F) : Bool :=
  match blocked, turn with
  | .str b, .str t => uuidInt t < uuidInt b
  | _, _ => false

def blockedChecks (turn : Json F) : Json F → List Check
  | .null => []
  | blocked => [nativeCheck blocked, (isLater blocked turn, "Invalid blocked review watermark")]

/-- The checks of a snapshot reference -/
def snapshotChecks (checkout : Json F) : Json F → List Check
  | .null => []
  | .obj items =>
      [(sameKeys items ["digest", "root", "files", "omissions"],
          "Invalid review snapshot reference"),
        hexCheck 64 (get items "digest"),
        (sameStr (get items "root") checkout && isInt (get items "files"),
          "Invalid review snapshot scope"),
        (isStrList (get items "omissions"), "Invalid review omissions")]
  | _ => [(false, "Invalid review snapshot reference")]

section Validate

variable [PyFloatText F] (sha256 : List Char → Hex 64)

/-- The checks of an action -/
def actionChecks (provenance : List (Json F)) : Json F → List Check
  | .obj items =>
      [(isNonemptyStr (get items "id"), "Invalid action identity"),
        (isOneOf ["request", "outcome", "denied"] (get items "phase"),
          memberText "Invalid action phase" (get items "phase")),
        (provenance.any (sameStr (get items "turn_id")), "Invalid action provenance"),
        (decide ((dumpChars .default (.obj items)).length ≤ MAX_ACTION_BYTES),
          "Unbounded action evidence")]
  | _ => [(false, "Invalid action identity")]

/-- The evidence has the digest it was frozen with; `digest` raises for a
float that JSON does not have. -/
def evidenceChecks (evidence reviewed evidenceDigest : Json F) : List Check :=
  match evidence with
  | .obj items =>
      [(reviewed.truthy, "Spent review lacks frozen evidence"),
        (strictJson evidence, "Out of range float values are not JSON compliant"),
        (sameStr (.str (digest sha256 (.obj items)).text) evidenceDigest,
          "Changed frozen review evidence")]
  | _ => [(false, "Spent review lacks frozen evidence")]

/-- The checks that depend on the allowance -/
def spentChecks (p : List (String × Json F)) : List Check :=
  if (get p "spent").truthy then
    [hexCheck 32 (get p "attempt_id"), hexCheck 64 (get p "evidence_digest"),
      hexCheck 64 (get p "plan_digest")]
      ++ evidenceChecks sha256 (get p "evidence") (get p "reviewed") (get p "evidence_digest")
  else
    [(!isOneOf SPENT_STATUSES (get p "status") && isNull (get p "attempt_id")
      && isNull (get p "evidence") && isNull (get p "decision"),
      "Completed or reserved review cannot regain its allowance")]

/-- The checks of `validate_payload`, in their order -/
def payloadChecks (eventType : String) (p : List (String × Json F)) : List Check :=
  [(eventType == "review_checkpoint" && (get p "schema").toInt? == some 2,
      "Unsupported Stop review checkpoint; create a new session to preserve historical artifacts"),
    (REQUIRED.all (fun k => decide (k ∈ p.map Prod.fst)) && (p.map Prod.fst).all (· ∈ ALLOWED),
      "Malformed review checkpoint fields"),
    (isBool (get p "spent") && isBool (get p "outstanding") && isBool (get p "correction_consumed"),
      "Invalid review spending state"),
    (isBool (getD p "reset_requested" (.bool false)), "Invalid review reset state")]
    ++ excludedChecks (get p "excluded_work")
    ++ [nativeCheck (get p "turn_id"), nativeCheck (get p "thread_id"),
      hexCheck 32 (get p "session_identity"),
      changesCheck (get p "unattributed_changes"),
      (isWatermark (get p "turn_id") (get p "watermark"), "Invalid review watermark")]
    ++ blockedChecks (get p "turn_id") (get p "blocked_until_turn")
    ++ [(isStrList (getD p "carry_omissions" (.list [])), "Invalid carried coverage gaps"),
      (isListUpTo MAX_ACTIONS (get p "actions"), "Invalid bounded action evidence"),
      (isListUpTo MAX_PROVENANCE_TURNS (get p "provenance"), "Invalid bounded review provenance"),
      (isAbsoluteJson (get p "forge_root") && isAbsoluteJson (get p "checkout"),
        "Invalid review checkout identity"),
      (isOneOf STATUSES (get p "status"), memberText "Invalid review status" (get p "status")),
      hexCheck 64 (get p "config_digest")]
    ++ ["baseline", "reviewed", "start_snapshot", "observed_snapshot"].flatMap
      (fun key => snapshotChecks (get p "checkout") (get p key))
    ++ [((elements (get p "provenance")).getLast?.any (sameStr · (get p "turn_id")),
      "Invalid review provenance")]
    ++ (elements (get p "provenance")).map nativeCheck
    ++ (elements (get p "actions")).flatMap (actionChecks (elements (get p "provenance")))
    ++ spentChecks sha256 p
    ++ [(isNull (get p "dispatched") || isBool (get p "dispatched"),
        "Invalid review dispatch observation"),
      (!(get p "correction_consumed").truthy || (get p "spent").truthy,
        "Correction without a spent review")]

/-- `validate_payload` -/
def validatePayload (eventType : String) (p : List (String × Json F)) : Except String Unit :=
  accept (payloadChecks sha256 eventType p)

end Validate

/-! ## 4. Sorted payloads -/

section Sorted

theorem get_sortItems (p : List (String × Json F)) (key : String) :
    get (sortItems p) key = sortKeys (get p key) := by
  unfold Json.get getD
  rw [lookup_sortItems]
  cases lookup key p <;> rfl

theorem getD_sortItems (p : List (String × Json F)) (key : String) {d : Json F}
    (hd : sortKeys d = d) : getD (sortItems p) key d = sortKeys (getD p key d) := by
  unfold getD
  rw [lookup_sortItems]
  cases lookup key p with
  | none => exact hd.symm
  | some v => rfl

variable (v w : Json F)

@[simp] theorem isBool_sortKeys : isBool (sortKeys v) = isBool v := by
  cases v <;> rfl

@[simp] theorem isStr_sortKeys : isStr (sortKeys v) = isStr v := by
  cases v <;> rfl

@[simp] theorem isInt_sortKeys : isInt (sortKeys v) = isInt v := by
  cases v <;> rfl

@[simp] theorem isIntFrom_sortKeys (bound : Int) : isIntFrom bound (sortKeys v) = isIntFrom bound v := by
  cases v <;> rfl

@[simp] theorem isFalse_sortKeys : isFalse (sortKeys v) = isFalse v := by
  cases v <;> rfl

@[simp] theorem isNull_sortKeys : isNull (sortKeys v) = isNull v := by
  cases v <;> rfl

@[simp] theorem elements_sortKeys : elements (sortKeys v) = (elements v).map sortKeys := by
  cases v with
  | list vs => exact sortList_eq_map vs
  | _ => rfl

@[simp] theorem isStrList_sortKeys : isStrList (sortKeys v) = isStrList v := by
  cases v with
  | list vs =>
    show (sortList vs).all isStr = vs.all isStr
    rw [sortList_eq_map, List.all_map]
    exact congrArg vs.all (funext isStr_sortKeys)
  | _ => rfl

@[simp] theorem isListUpTo_sortKeys (bound : Nat) :
    isListUpTo bound (sortKeys v) = isListUpTo bound v := by
  cases v with
  | list vs =>
    show decide ((sortList vs).length ≤ bound) = _
    rw [sortList_eq_map, List.length_map]
    rfl
  | _ => rfl

@[simp] theorem isHexJson_sortKeys (size : Nat) : isHexJson size (sortKeys v) = isHexJson size v := by
  cases v <;> rfl

@[simp] theorem isNativeJson_sortKeys : isNativeJson (sortKeys v) = isNativeJson v := by
  cases v <;> rfl

@[simp] theorem isAbsoluteJson_sortKeys : isAbsoluteJson (sortKeys v) = isAbsoluteJson v := by
  cases v <;> rfl

@[simp] theorem isNonemptyStr_sortKeys : isNonemptyStr (sortKeys v) = isNonemptyStr v := by
  cases v <;> rfl

@[simp] theorem isOneOf_sortKeys (names : List String) :
    isOneOf names (sortKeys v) = isOneOf names v := by
  cases v <;> rfl

@[simp] theorem memberText_sortKeys (text : String) :
    memberText text (sortKeys v) = memberText text v := by
  cases v <;> rfl

@[simp] theorem sameStr_sortKeys : sameStr (sortKeys v) (sortKeys w) = sameStr v w := by
  cases v <;> cases w <;> rfl

@[simp] theorem isWatermark_sortKeys : isWatermark (sortKeys v) (sortKeys w) = isWatermark v w := by
  cases v <;> cases w <;> rfl

@[simp] theorem isLater_sortKeys : isLater (sortKeys v) (sortKeys w) = isLater v w := by
  cases v <;> cases w <;> rfl

@[simp] theorem toInt?_sortKeys [PyFloat F] : (sortKeys v).toInt? = v.toInt? := by
  cases v <;> rfl

@[simp] theorem truthy_sortKeys [PyFloat F] : (sortKeys v).truthy = v.truthy := by
  cases v with
  | list vs =>
    show (!(sortList vs).isEmpty) = !vs.isEmpty
    rw [sortList_eq_map, List.isEmpty_map]
  | obj items =>
    show (!(sortItems items).isEmpty) = !items.isEmpty
    cases items with
    | nil => rfl
    | cons kv rest => rw [List.isEmpty_eq_false_iff.mpr (sortItems_ne_nil (List.cons_ne_nil kv rest))]; rfl
  | _ => rfl

theorem sameKeys_sortItems (items : List (String × Json F)) (keys : List String) :
    sameKeys (sortItems items) keys = sameKeys items keys := by
  have hkeys := sortItems_keys items
  have hmem : ∀ k, (k ∈ (sortItems items).map Prod.fst) = (k ∈ items.map Prod.fst) :=
    fun k => propext hkeys.mem_iff
  unfold sameKeys
  rw [hkeys.all_eq]
  simp only [hmem]

theorem strictItems_insertKey [PyFloatText F] (k : String) (v : Json F)
    (items : List (String × Json F)) :
    strictItems (insertKey k v items) = (strictJson v && strictItems items) := by
  induction items with
  | nil => rfl
  | cons kv rest ih =>
    obtain ⟨j, w⟩ := kv
    rw [insertKey]
    split
    · rfl
    · rw [strictItems, ih, strictItems, Bool.and_left_comm]

mutual

@[simp] theorem strictJson_sortKeys [PyFloatText F] :
    ∀ v : Json F, strictJson (sortKeys v) = strictJson v
  | .null => rfl
  | .bool _ => rfl
  | .int _ => rfl
  | .float _ => rfl
  | .str _ => rfl
  | .list vs => strictList_sortList vs
  | .obj items => strictItems_sortItems items

theorem strictList_sortList [PyFloatText F] :
    ∀ vs : List (Json F), strictList (sortList vs) = strictList vs
  | [] => rfl
  | v :: vs => by rw [sortList, strictList, strictList, strictJson_sortKeys v, strictList_sortList vs]

theorem strictItems_sortItems [PyFloatText F] :
    ∀ items : List (String × Json F), strictItems (sortItems items) = strictItems items
  | [] => rfl
  | (k, v) :: rest => by
      rw [sortItems, strictItems_insertKey, strictItems, strictJson_sortKeys v,
        strictItems_sortItems rest]

end

@[simp] theorem nativeCheck_sortKeys : nativeCheck (sortKeys v) = nativeCheck v := by
  simp [nativeCheck]

@[simp] theorem hexCheck_sortKeys (size : Nat) : hexCheck size (sortKeys v) = hexCheck size v := by
  simp [hexCheck]

theorem excludedChecks_sortKeys : excludedChecks (sortKeys v) = excludedChecks v := by
  cases v with
  | obj items => simp [excludedChecks, sortKeys, get_sortItems, sameKeys_sortItems]
  | _ => rfl

theorem changesCheck_sortKeys : changesCheck (sortKeys v) = changesCheck v := by
  cases v with
  | obj items => simp [changesCheck, sortKeys, get_sortItems, sameKeys_sortItems]
  | _ => rfl

theorem blockedChecks_sortKeys : blockedChecks (sortKeys w) (sortKeys v) = blockedChecks w v := by
  cases v with
  | null => rfl
  | _ =>
    simp only [blockedChecks]
    exact congrArg₂ (fun a b => [a, (b, _)]) (nativeCheck_sortKeys _) (isLater_sortKeys _ w)

theorem snapshotChecks_sortKeys : snapshotChecks (sortKeys w) (sortKeys v) = snapshotChecks w v := by
  cases v with
  | obj items => simp [snapshotChecks, sortKeys, get_sortItems, sameKeys_sortItems]
  | _ => rfl

variable [PyFloatText F] (sha256 : List Char → Hex 64)

theorem actionChecks_sortKeys (provenance : List (Json F)) :
    actionChecks (provenance.map sortKeys) (sortKeys v) = actionChecks provenance v := by
  cases v with
  | obj items =>
    have hlength : (dumpChars .default (.obj (sortItems items))).length
        = (dumpChars .default (.obj items)).length :=
      dumpChars_sortKeys_length .default (.obj items)
    simp [actionChecks, sortKeys, get_sortItems, hlength, List.any_map, Function.comp_def]
  | _ => rfl

theorem digest_sortKeys : digest sha256 (sortKeys v) = digest sha256 v := by
  unfold digest
  rw [sortKeys_sortKeys]

theorem evidenceChecks_sortKeys (reviewed : Json F) :
    evidenceChecks sha256 (sortKeys v) (sortKeys reviewed) (sortKeys w)
      = evidenceChecks sha256 v reviewed w := by
  cases v with
  | obj items =>
    have hdigest : digest sha256 (.obj (sortItems items)) = digest sha256 (.obj items) :=
      digest_sortKeys (.obj items) sha256
    have hstrict : strictJson (.obj (sortItems items)) = strictJson (.obj items) :=
      strictItems_sortItems items
    have hsame : ∀ s, sameStr (.str s) (sortKeys w) = sameStr (.str s) w :=
      fun s => sameStr_sortKeys (.str s) w
    simp [evidenceChecks, sortKeys, hdigest, hstrict, hsame]
  | _ => rfl

/-- The order of the keys does not matter to a check. -/
theorem payloadChecks_sorted (eventType : String) (p : List (String × Json F)) :
    payloadChecks sha256 eventType (sortItems p) = payloadChecks sha256 eventType p := by
  have hkeys := sortItems_keys p
  have hmem : ∀ k, (k ∈ (sortItems p).map Prod.fst) = (k ∈ p.map Prod.fst) :=
    fun k => propext hkeys.mem_iff
  have hall : ((sortItems p).map Prod.fst).all (· ∈ ALLOWED)
      = (p.map Prod.fst).all (· ∈ ALLOWED) := hkeys.all_eq
  have hactions : (elements (sortKeys (Json.get p "actions"))).flatMap
        (actionChecks (elements (sortKeys (Json.get p "provenance"))))
      = (elements (Json.get p "actions")).flatMap
        (actionChecks (elements (Json.get p "provenance"))) := by
    rw [elements_sortKeys, elements_sortKeys, List.flatMap_map]
    simp only [actionChecks_sortKeys]
  have hspent : spentChecks sha256 (sortItems p) = spentChecks sha256 p := by
    unfold spentChecks
    simp [get_sortItems, evidenceChecks_sortKeys]
  have hlast : (elements (sortKeys (Json.get p "provenance"))).getLast?.any
        (sameStr · (sortKeys (Json.get p "turn_id")))
      = (elements (Json.get p "provenance")).getLast?.any
        (sameStr · (Json.get p "turn_id")) := by
    rw [elements_sortKeys, List.getLast?_map, Option.any_map]
    simp only [sameStr_sortKeys]
  have hturns : (elements (sortKeys (Json.get p "provenance"))).map nativeCheck
      = (elements (Json.get p "provenance")).map nativeCheck := by
    rw [elements_sortKeys, List.map_map]
    exact congrArg (List.map · _) (funext nativeCheck_sortKeys)
  unfold payloadChecks
  have hreset := getD_sortItems p "reset_requested" (d := .bool false) rfl
  have homissions := getD_sortItems p "carry_omissions" (d := .list []) rfl
  simp only [get_sortItems, hreset, homissions, hactions, hspent, hlast, hturns, hall, hmem,
    excludedChecks_sortKeys, changesCheck_sortKeys, blockedChecks_sortKeys, snapshotChecks_sortKeys,
    isBool_sortKeys, isNull_sortKeys, nativeCheck_sortKeys, hexCheck_sortKeys, isWatermark_sortKeys,
    isStrList_sortKeys, isListUpTo_sortKeys, isAbsoluteJson_sortKeys, isOneOf_sortKeys,
    memberText_sortKeys, toInt?_sortKeys, truthy_sortKeys]

theorem validatePayload_sorted (eventType : String) (p : List (String × Json F)) :
    validatePayload sha256 eventType (sortItems p) = validatePayload sha256 eventType p := by
  unfold validatePayload
  rw [payloadChecks_sorted]

end Sorted

end MultiForge.Policy
