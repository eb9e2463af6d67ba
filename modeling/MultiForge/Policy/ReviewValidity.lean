/-
MultiForge.Policy.ReviewValidity — every checkpoint is accepted.

`Checkpoint.Valid` is what every step of the reviews keeps, and what the
checks of `validatePayload` ask for. `reviewPayload_accepted` says that no
step of a run is refused, and that the payload which a reader decodes from
the journal is accepted as well, with the digest of the same evidence.

Actions and decisions are JSON values: the journal does not take a float
that JSON does not have.
-/
import MultiForge.Policy.ReviewPayload
import MultiForge.Policy.ReviewRuns

namespace MultiForge.Policy

open Json
open Session (isLower isDecimal isToken optStr strictJson strictItems strictList)

variable {F : Type}

/-! ## 1. Plain values -/

/-- A value as JSON has it: a dict has a key once, and floats are finite. -/
structure Plain [PyFloatText F] (v : Json F) : Prop where
  proper : Proper v
  strict : strictJson v = true

section PlainValues

variable [PyFloatText F]

theorem strictItems_iff {items : List (String × Json F)} :
    strictItems items = true ↔ ∀ kv ∈ items, strictJson kv.2 = true := by
  induction items with
  | nil => simp [strictItems]
  | cons kv rest ih =>
    obtain ⟨k, v⟩ := kv
    simp only [strictItems, Bool.and_eq_true, ih, List.forall_mem_cons]

theorem strictList_iff {vs : List (Json F)} :
    strictList vs = true ↔ ∀ v ∈ vs, strictJson v = true := by
  induction vs with
  | nil => simp [strictList]
  | cons v rest ih => simp only [strictList, Bool.and_eq_true, ih, List.forall_mem_cons]

theorem plain_obj {items : List (String × Json F)} (hkeys : (items.map Prod.fst).Nodup)
    (hitems : ∀ kv ∈ items, Plain kv.2) : Plain (.obj items) where
  proper := ⟨hkeys, properItems_iff.mpr fun kv hkv => (hitems kv hkv).proper⟩
  strict := strictItems_iff.mpr fun kv hkv => (hitems kv hkv).strict

theorem plain_list {vs : List (Json F)} (h : ∀ v ∈ vs, Plain v) : Plain (.list vs) where
  proper := properList_iff.mpr fun v hv => (h v hv).proper
  strict := strictList_iff.mpr fun v hv => (h v hv).strict

@[simp] theorem plain_null : Plain (.null : Json F) := ⟨trivial, rfl⟩

@[simp] theorem plain_bool (b : Bool) : Plain (.bool b : Json F) := ⟨trivial, rfl⟩

@[simp] theorem plain_int (n : Int) : Plain (.int n : Json F) := ⟨trivial, rfl⟩

@[simp] theorem plain_str (s : String) : Plain (.str s : Json F) := ⟨trivial, rfl⟩

@[simp] theorem plain_strList (xs : List String) : Plain (strList xs : Json F) := by
  refine plain_list fun v hv => ?_
  obtain ⟨s, -, rfl⟩ := List.mem_map.mp hv
  exact plain_str s

@[simp] theorem plain_idList (turns : List NativeId) : Plain (idList turns : Json F) := by
  refine plain_list fun v hv => ?_
  obtain ⟨t, -, rfl⟩ := List.mem_map.mp hv
  exact plain_str t.text

@[simp] theorem plain_optStr (s : Option String) : Plain (optStr s : Json F) := by
  cases s <;> simp [optStr]

theorem plain_optJson {α : Type} {write : α → Json F} {o : Option α}
    (h : ∀ a, o = some a → Plain (write a)) : Plain (optJson write o) := by
  cases o with
  | none => exact plain_null
  | some a => exact h a rfl

omit [PyFloatText F] in
theorem mem_optItem {α : Type} {key : String} {write : α → Json F} {o : Option α}
    {kv : String × Json F} (h : kv ∈ optItem key write o) : ∃ a, o = some a ∧ kv = (key, write a) := by
  cases o with
  | none => cases h
  | some a => exact ⟨a, rfl, List.mem_singleton.mp h⟩

omit [PyFloatText F] in
/-- An optional item adds its key at most once. -/
theorem keys_optItem {α : Type} (key : String) (write : α → Json F) (o : Option α) :
    ((optItem key write o).map Prod.fst).Sublist [key] := by
  cases o with
  | none => exact List.nil_sublist _
  | some a => exact List.Sublist.refl _

theorem plain_optItem {α : Type} {key : String} {write : α → Json F} {o : Option α}
    (h : ∀ a, o = some a → Plain (write a)) : ∀ kv ∈ optItem key write o, Plain kv.2 := by
  intro kv hkv
  obtain ⟨a, ha, rfl⟩ := mem_optItem hkv
  exact h a ha

@[simp] theorem SnapshotRef.plain (r : SnapshotRef) : Plain (r.toJson : Json F) := by
  refine plain_obj ?_ ?_ <;> simp

@[simp] theorem ExcludedWork.plain (w : ExcludedWork) : Plain (w.toJson : Json F) := by
  refine plain_obj ?_ ?_ <;> simp

@[simp] theorem changesJson_plain (changes : Nat × List String) :
    Plain (changesJson changes : Json F) := by
  refine plain_obj ?_ ?_ <;> simp

@[simp] theorem coverageJson_plain (coverage : Bool × List String) :
    Plain (coverageJson coverage : Json F) := by
  refine plain_obj ?_ ?_ <;> simp

/-- Optional items behind others keep the keys distinct. -/
theorem nodup_of_sublist {keys all : List String} (h : keys.Sublist all) (hall : all.Nodup) :
    keys.Nodup := hall.sublist h

theorem FileItem.plain (i : FileItem) : Plain (i.toJson : Json F) := by
  refine plain_obj ?_ fun kv hkv => ?_
  · simp only [List.map_append]
    refine nodup_of_sublist
      (((((keys_optItem _ _ _).append (keys_optItem _ _ _)).append (keys_optItem _ _ _)).append
        (keys_optItem _ _ _)).append (keys_optItem _ _ _) |>.append (keys_optItem _ _ _)) ?_
    decide
  · simp only [List.mem_append] at hkv
    rcases hkv with ((((hkv | hkv) | hkv) | hkv) | hkv) | hkv
    all_goals exact plain_optItem (fun a _ => by simp) kv hkv

theorem FileChange.plain (c : FileChange) : Plain (c.toJson : Json F) := by
  refine plain_obj ?_ fun kv hkv => ?_
  · simp only [List.map_append, List.map_cons, List.map_nil]
    refine nodup_of_sublist ((((List.Sublist.refl _).append (keys_optItem _ _ _)).append
      (keys_optItem _ _ _)).append (keys_optItem _ _ _)) ?_
    decide
  · have hitem : ∀ i : Option FileItem, Plain (optJson FileItem.toJson i : Json F) :=
      fun i => plain_optJson fun a _ => a.plain
    simp only [List.mem_append, List.mem_cons, List.not_mem_nil, or_false] at hkv
    rcases hkv with (((rfl | rfl | rfl) | hkv) | hkv) | hkv
    · exact plain_str _
    · exact hitem _
    · exact hitem _
    all_goals exact plain_optItem (fun a _ => by simp) kv hkv

end PlainValues

/-! ## 2. Valid states -/

/-- The action a hook builds: bounded, with an identity, of JSON values. -/
structure Action.Bounded [PyFloatText F] (a : Action F) : Prop where
  id : a.id ≠ ""
  bytes : (dumpChars .default (.obj a.items)).length ≤ MAX_ACTION_BYTES
  values : ∀ input response, a.values = some (input, response) → Plain input ∧ Plain response

/-- A snapshot of the checkout, if there is one. -/
def InCheckout (checkout : String) (r : Option SnapshotRef) : Prop :=
  ∀ ref, r = some ref → ref.root = checkout

/-- What the reservation has put into a spent checkpoint. -/
def Checkpoint.Frozen [PyFloatText F] (sha256 : List Char → Hex 64) (c : Checkpoint F) : Prop :=
  ∃ attempt planDigest evidence reviewed, c.attemptId = some attempt ∧
    c.planDigest = some planDigest ∧ c.evidence = some evidence ∧ c.reviewed = some reviewed ∧
    c.evidenceDigest = some (digest sha256 evidence.toJson) ∧ Plain evidence.toJson

/-- The statuses of a turn with its allowance. -/
def freeStatuses : List Status := [.collecting, .unavailable, .noChanges]

/-- A checkpoint with its allowance. -/
def Checkpoint.Unspent (c : Checkpoint F) : Prop :=
  c.status ∈ freeStatuses ∧ c.attemptId = none ∧ c.evidence = none ∧ c.decision = none

/-- What every step keeps of a checkpoint. -/
structure Checkpoint.Valid [PyFloatText F] (sha256 : List Char → Hex 64) (c : Checkpoint F) :
    Prop where
  absolute : isAbsolute c.forgeRoot = true ∧ isAbsolute c.checkout = true
  watermark : c.watermark = c.turnId.int
  blocked : ∀ t, c.blockedUntilTurn = some t → c.turnId.int < t.int
  last : c.provenance.getLast? = some c.turnId
  turns : c.provenance.length ≤ MAX_PROVENANCE_TURNS
  rows : c.actions.length ≤ MAX_ACTIONS
  actions : ∀ a ∈ c.actions, a.Bounded ∧ a.turnId ∈ c.provenance
  scope : InCheckout c.checkout c.baseline ∧ InCheckout c.checkout c.reviewed ∧
    InCheckout c.checkout c.startSnapshot ∧ InCheckout c.checkout c.observedSnapshot
  work : ∀ w, c.excludedWork = some w → 1 ≤ w.turns
  paths : c.unattributedChanges.2.length ≤ 32
  spent : c.spent = true → c.Frozen sha256
  unspent : c.spent = false → c.Unspent
  decision : ∀ d, c.decision = some d → Plain d.toJson
  correction : c.correctionConsumed = true → c.spent = true

/-! ## 3. Acceptance -/

section Acceptance

variable [PyFloatText F] {sha256 : List Char → Hex 64} {c : Checkpoint F}

theorem Action.Bounded.plain {a : Action F} (h : a.Bounded) : Plain (.obj a.items) := by
  refine plain_obj ?_ fun kv hkv => ?_
  · simp only [Action.items, List.map_append, List.map_cons, List.map_nil]
    refine nodup_of_sublist (((((List.Sublist.refl _).append (keys_optItem _ _ _)).append
      (keys_optItem _ _ _)).append (keys_optItem _ _ _)).append (keys_optItem _ _ _) |>.append
        (keys_optItem _ _ _)) ?_
    decide
  · simp only [Action.items, List.mem_append, List.mem_cons, List.not_mem_nil, or_false] at hkv
    rcases hkv with ((((hkv | hkv) | hkv) | hkv) | hkv) | hkv
    · rcases hkv with rfl | rfl | rfl | rfl
      all_goals exact plain_str _
    · refine plain_optItem (fun v hv => ?_) kv hkv
      obtain ⟨⟨input, response⟩, hvalues, rfl⟩ := Option.map_eq_some_iff.mp hv
      exact (h.values input response hvalues).1
    · refine plain_optItem (fun v hv => ?_) kv hkv
      obtain ⟨⟨input, response⟩, hvalues, rfl⟩ := Option.map_eq_some_iff.mp hv
      exact (h.values input response hvalues).2
    all_goals exact plain_optItem (fun v _ => by simp) kv hkv

theorem Detail.plain {d : Detail F}
    (h : ∀ before after changes actions, d = .full before after changes actions →
      ∀ a ∈ actions, a.Bounded) : ∀ kv ∈ d.items, Plain kv.2 := by
  intro kv hkv
  cases d with
  | full before after changes actions =>
    have hchanges : Plain (.list (changes.map FileChange.toJson) : Json F) := by
      refine plain_list fun v hv => ?_
      obtain ⟨change, -, rfl⟩ := List.mem_map.mp hv
      exact change.plain
    have hactions : Plain (.list (actions.map fun a => .obj a.items)) := by
      refine plain_list fun v hv => ?_
      obtain ⟨a, ha, rfl⟩ := List.mem_map.mp hv
      exact (h before after changes actions rfl a ha).plain
    simp only [Detail.items, List.mem_cons, List.not_mem_nil, or_false] at hkv
    rcases hkv with rfl | rfl | rfl | rfl | rfl | rfl
    · exact plain_str _
    · exact plain_str _
    · exact plain_str _
    · exact plain_str _
    · exact hchanges
    · exact hactions
  | counts ends changes actions =>
    simp only [Detail.items, List.mem_append, List.mem_cons, List.not_mem_nil, or_false] at hkv
    rcases hkv with (hkv | hkv) | rfl | rfl
    · exact plain_optItem (fun v _ => by simp) kv hkv
    · exact plain_optItem (fun v _ => by simp) kv hkv
    · exact plain_int _
    · exact plain_int _

omit [PyFloatText F] in
theorem Evidence.keys_nodup (e : Evidence F) :
    ((e.detail.items ++ [("omissions", strList e.omissions), ("complete", Json.bool e.complete)]
      ++ optItem "provenance_turns" idList e.provenanceTurns).map Prod.fst).Nodup := by
  cases hd : e.detail with
  | full before after changes actions =>
    simp only [Detail.items, List.map_append, List.map_cons, List.map_nil]
    refine nodup_of_sublist ((List.Sublist.refl _).append (keys_optItem _ _ _)) ?_
    decide
  | counts ends changes actions =>
    simp only [Detail.items, List.map_append, List.map_cons, List.map_nil]
    refine nodup_of_sublist (((((keys_optItem _ _ _).append (keys_optItem _ _ _)).append
      (List.Sublist.refl _)).append (List.Sublist.refl _)).append (keys_optItem _ _ _)) ?_
    decide

theorem Evidence.plain {e : Evidence F} (h : ∀ a ∈ e.actions, a.Bounded) : Plain e.toJson := by
  refine plain_obj e.keys_nodup fun kv hkv => ?_
  simp only [List.mem_append, List.mem_cons, List.not_mem_nil, or_false] at hkv
  rcases hkv with (hkv | rfl | rfl) | hkv
  · refine Detail.plain (fun before after changes actions hd a ha => h a ?_) kv hkv
    simpa [Evidence.actions, hd] using ha
  · exact plain_strList _
  · exact plain_bool _
  · refine plain_optItem (fun turns _ => ?_) kv hkv
    exact plain_idList turns

/-- The evidence shows some of the given actions. -/
theorem compare_actions {st : Storage} {before after : SnapshotRef} {actions : List (Action F)}
    {e : Evidence F} (h : compare st before after actions = .ok e) :
    ∀ a ∈ e.actions, a ∈ actions := by
  intro a ha
  unfold compare at h
  cases hold : st.load before with
  | error err => simp [hold, bind, Except.bind] at h
  | ok old =>
    cases hnew : st.load after with
    | error err => simp [hold, hnew, bind, Except.bind] at h
    | ok new =>
      have hone : ∀ {p : Prop} [Decidable p] {x y : Evidence F},
          (if p then (.ok x : Except Failure (Evidence F)) else .ok y) = .ok e → e = x ∨ e = y := by
        intro p _ x y heq
        split at heq
        · exact .inl (Except.ok.inj heq).symm
        · exact .inr (Except.ok.inj heq).symm
      simp only [hold, hnew, bind, Except.bind, pure, Except.pure] at h
      cases hfound : (sortedSet (old.files.entries.map Prod.fst
          ++ new.files.entries.map Prod.fst)).mapM (compareFile st old new) with
      | error err => simp [hfound] at h
      | ok found =>
        simp only [hfound] at h
        rcases hone h with rfl | rfl
        · cases ha
        · exact (List.mem_filter.mp ha).1

theorem gather_actions {e : Evidence F} : ∀ a ∈ (gather c e).actions, a ∈ e.actions := by
  intro a ha
  unfold gather at ha
  split at ha
  all_goals
    simp only at ha
    split at ha
    · cases ha
    · exact ha

theorem isAllowed_status (s : Status) : s.text ∈ STATUSES := by
  cases s <;> decide

theorem isAllowed_reason (r : ExcludeReason) : r.text ∈ EXCLUDE_REASONS := by
  cases r <;> decide

theorem isAllowed_phase (p : Phase) : p.text ∈ ["request", "outcome", "denied"] := by
  cases p <;> decide

section Keys

omit [PyFloatText F]

/-- The keys of a payload that has all of them. -/
def PAYLOAD_KEYS : List String :=
  ["schema", "session_identity", "forge_root", "checkout", "thread_id", "turn_id", "watermark",
    "config_digest", "spent", "dispatched", "status", "reason", "outstanding", "provenance",
    "actions", "correction_consumed", "baseline", "start_snapshot", "observed_snapshot",
    "excluded_work", "unattributed_changes", "reset_requested", "reviewed", "attempt_id",
    "evidence_digest", "evidence", "decision", "updated_at", "coverage", "carry_omissions"]
    ++ (["blocked_until_turn"] ++ ["baseline_error"] ++ ["plan_digest"] ++ ["reviewer_identity"])

theorem keys_payload (c : Checkpoint F) : (c.payload.map Prod.fst).Sublist PAYLOAD_KEYS := by
  simp only [Checkpoint.payload, List.map_append, List.map_cons, List.map_nil]
  exact (List.Sublist.refl _).append ((((keys_optItem _ _ _).append (keys_optItem _ _ _)).append
    (keys_optItem _ _ _)).append (keys_optItem _ _ _))

theorem payload_keys_nodup (c : Checkpoint F) : (c.payload.map Prod.fst).Nodup :=
  nodup_of_sublist (keys_payload c) (by decide)

theorem payload_keys_allowed (c : Checkpoint F) :
    (c.payload.map Prod.fst).all (· ∈ ALLOWED) = true := by
  have hall : ∀ k ∈ PAYLOAD_KEYS, k ∈ ALLOWED := by decide
  rw [List.all_eq_true]
  intro k hk
  exact decide_eq_true (hall k ((keys_payload c).subset hk))

theorem payload_keys_required (c : Checkpoint F) :
    REQUIRED.all (fun k => decide (k ∈ c.payload.map Prod.fst)) = true := by
  simp [REQUIRED, Checkpoint.payload]

theorem lookup_optItem (key : String) {α : Type} (k : String) (write : α → Json F) (o : Option α)
    (rest : List (String × Json F)) :
    lookup key (optItem k write o ++ rest)
      = if k = key then (o.map write).or (lookup key rest) else lookup key rest := by
  cases o with
  | none => simp [optItem]
  | some a =>
    simp only [optItem, List.singleton_append, lookup]
    split <;> rfl

theorem lookup_optItem_last (key : String) {α : Type} (k : String) (write : α → Json F)
    (o : Option α) :
    lookup key (optItem k write o) = if k = key then o.map write else none := by
  cases o with
  | none => simp [optItem]
  | some a => simp [optItem, lookup]

theorem get_blocked (c : Checkpoint F) :
    Json.get c.payload "blocked_until_turn" = optJson (.str ·.text) c.blockedUntilTurn := by
  simp [Json.get, getD, Checkpoint.payload, lookup, lookup_optItem, lookup_optItem_last]
  cases c.blockedUntilTurn <;> rfl

theorem get_planDigest (c : Checkpoint F) {d : Hex 64} (h : c.planDigest = some d) :
    Json.get c.payload "plan_digest" = .str d.text := by
  simp [Json.get, getD, Checkpoint.payload, lookup, lookup_optItem, h]

end Keys

/-- All of the checks hold. -/
def Passes (checks : List Check) : Prop := ∀ check ∈ checks, check.1 = true

omit [PyFloatText F] in
theorem passes_excluded (w : Option ExcludedWork) (h : ∀ work, w = some work → 1 ≤ work.turns) :
    Passes (excludedChecks (optJson ExcludedWork.toJson w : Json F)) := by
  cases w with
  | none => simp [Passes, optJson, excludedChecks]
  | some work =>
    have hturns : (1 : Int) ≤ (work.turns : Int) := by exact_mod_cast h work rfl
    have hreason := isAllowed_reason work.reason
    simp [Passes, optJson, excludedChecks, ExcludedWork.toJson, Json.get, getD, lookup, sameKeys,
      isIntFrom, isFalse, isOneOf, nativeCheck, isNativeJson, hturns, hreason, NativeId.native]

omit [PyFloatText F] in
theorem passes_blocked (turn : NativeId) (t : Option NativeId)
    (h : ∀ blocked, t = some blocked → turn.int < blocked.int) :
    Passes (blockedChecks (.str turn.text) (optJson (.str ·.text) t : Json F)) := by
  cases t with
  | none => simp [Passes, optJson, blockedChecks]
  | some blocked =>
    have hlater : uuidInt turn.text < uuidInt blocked.text := h blocked rfl
    simp [Passes, optJson, blockedChecks, nativeCheck, isNativeJson, isLater, hlater,
      NativeId.native]

omit [PyFloatText F] in
theorem isStrList_strList (xs : List String) : isStrList (strList xs : Json F) = true := by
  simp [isStrList, strList, isStr]

omit [PyFloatText F] in
theorem passes_snapshot (checkout : String) (r : Option SnapshotRef)
    (h : InCheckout checkout r) :
    Passes (snapshotChecks (.str checkout) (optJson SnapshotRef.toJson r : Json F)) := by
  cases r with
  | none => simp [Passes, optJson, snapshotChecks]
  | some ref =>
    simp [Passes, optJson, snapshotChecks, SnapshotRef.toJson, Json.get, getD, lookup, sameKeys,
      hexCheck, isHexJson, sameStr, isInt, isStrList_strList, Hex.hex, h ref rfl]

omit [PyFloatText F] in
theorem any_provenance {turns : List NativeId} {t : NativeId} (h : t ∈ turns) :
    (elements (idList turns : Json F)).any (sameStr (.str t.text)) = true := by
  simp only [idList, elements, List.any_map, List.any_eq_true]
  exact ⟨t, h, by simp [sameStr]⟩

theorem passes_action {turns : List NativeId} {a : Action F} (h : a.Bounded) (ht : a.turnId ∈ turns) :
    Passes (actionChecks (elements (idList turns)) (.obj a.items)) := by
  have hphase := isAllowed_phase a.phase
  have hid : Json.get a.items "id" = .str a.id := rfl
  have hphase' : Json.get a.items "phase" = .str a.phase.text := rfl
  have hturn : Json.get a.items "turn_id" = .str a.turnId.text := rfl
  simp only [Passes, actionChecks, hid, hphase', hturn, any_provenance ht, isNonemptyStr, isOneOf,
    List.forall_mem_cons, decide_eq_true h.bytes, decide_eq_true hphase]
  simp [h.id]

omit [PyFloatText F] in
theorem changes_ok (changes : Nat × List String) (h : changes.2.length ≤ 32) :
    (changesCheck (changesJson changes : Json F)).1 = true := by
  simp [changesCheck, changesJson, Json.get, getD, lookup, sameKeys, isIntFrom, isListUpTo,
    strList, h, isStrList, isStr]

theorem passes_spent (h : c.Valid sha256) : Passes (spentChecks sha256 c.payload) := by
  have hspent : Json.get c.payload "spent" = .bool c.spent := rfl
  have hattempt : Json.get c.payload "attempt_id" = optJson (.str ·.text) c.attemptId := rfl
  have hdigest : Json.get c.payload "evidence_digest" = optJson (.str ·.text) c.evidenceDigest :=
    rfl
  have hevidence : Json.get c.payload "evidence" = optJson Evidence.toJson c.evidence := rfl
  have hreviewed : Json.get c.payload "reviewed" = optJson SnapshotRef.toJson c.reviewed := rfl
  unfold spentChecks
  cases hs : c.spent with
  | true =>
    obtain ⟨attempt, plan, evidence, reviewed, h₁, h₂, h₃, h₄, h₅, hplain⟩ := h.spent hs
    have hstrict := hplain.strict
    have hobj : ∃ items, evidence.toJson = .obj items := ⟨_, rfl⟩
    obtain ⟨items, hitems⟩ := hobj
    rw [hitems] at hstrict
    simp [Passes, hspent, hs, hattempt, hdigest, hevidence, hreviewed, get_planDigest c h₂, h₁, h₃,
      h₄, h₅, optJson, hitems, evidenceChecks, hexCheck, isHexJson, Hex.hex, hstrict, sameStr,
      SnapshotRef.toJson, Json.truthy]
  | false =>
    obtain ⟨hstatus, h₁, h₂, h₃⟩ := h.unspent hs
    have hfree : c.status.text ∉ SPENT_STATUSES := by
      simp only [freeStatuses, List.mem_cons, List.not_mem_nil, or_false] at hstatus
      rcases hstatus with hst | hst | hst
      all_goals
        rw [hst]
        decide
    have hget : Json.get c.payload "status" = .str c.status.text := rfl
    have hdecision : Json.get c.payload "decision" = optJson PolicyDecision.toJson c.decision := rfl
    simp [Passes, hspent, hs, hattempt, hevidence, hdecision, hget, h₁, h₂, h₃, optJson, isNull,
      isOneOf, hfree, Json.truthy]

/-- **A valid checkpoint passes every check.** -/
theorem Checkpoint.Valid.accepted (h : c.Valid sha256) :
    validatePayload sha256 "review_checkpoint" c.payload = .ok () := by
  have hturn : Json.get c.payload "turn_id" = .str c.turnId.text := rfl
  have hcheckout : Json.get c.payload "checkout" = .str c.checkout := rfl
  have hturns : elements (Json.get c.payload "provenance") = c.provenance.map fun t => .str t.text :=
    rfl
  obtain ⟨hbaseline, hreviewed, hstart, hobserved⟩ := h.scope
  refine accept_ok.mpr ?_
  unfold payloadChecks
  simp only [List.forall_mem_append, and_assoc]
  refine ⟨?_, ?_, ?_, ?_, ?_, ?_, ?_, ?_, ?_, passes_spent h, ?_⟩
  · have hrequired := payload_keys_required c
    have hallowed := payload_keys_allowed c
    simp only [List.forall_mem_cons, hrequired, hallowed]
    simp [Json.get, getD, Checkpoint.payload, lookup, isBool, Json.toInt?]
  · exact passes_excluded c.excludedWork h.work
  · have hthread : Json.get c.payload "thread_id" = .str c.threadId.text := rfl
    have hsession : Json.get c.payload "session_identity" = .str c.sessionIdentity.text := rfl
    have hwatermark : Json.get c.payload "watermark" = .str (String.ofList (natChars c.watermark)) :=
      rfl
    have hchanges : Json.get c.payload "unattributed_changes" = changesJson c.unattributedChanges :=
      rfl
    simp [hturn, hthread, hsession, hwatermark, hchanges, nativeCheck, isNativeJson, hexCheck,
      isHexJson, Hex.hex, NativeId.native, changes_ok c.unattributedChanges h.paths, isWatermark,
      h.watermark, NativeId.int]
  · rw [get_blocked, hturn]
    exact passes_blocked c.turnId c.blockedUntilTurn h.blocked
  · have hroot : Json.get c.payload "forge_root" = .str c.forgeRoot := rfl
    have hstatus : Json.get c.payload "status" = .str c.status.text := rfl
    have hconfig : Json.get c.payload "config_digest" = .str c.configDigest.text := rfl
    have hgaps : getD c.payload "carry_omissions" (.list []) = strList c.carryOmissions := rfl
    have hactions : Json.get c.payload "actions" = .list (c.actions.map fun a => .obj a.items) := rfl
    have hprovenance : Json.get c.payload "provenance" = idList c.provenance := rfl
    have hmember := isAllowed_status c.status
    simp [hroot, hcheckout, hstatus, hconfig, hgaps, hactions, hprovenance, isStrList_strList,
      isListUpTo, idList, h.rows, h.turns, isAbsoluteJson, h.absolute, isOneOf, hmember, hexCheck,
      isHexJson, Hex.hex]
  · intro check hcheck
    rw [hcheckout] at hcheck
    obtain ⟨key, hkey, hcheck⟩ := List.mem_flatMap.mp hcheck
    simp only [List.mem_cons, List.not_mem_nil, or_false] at hkey
    rcases hkey with rfl | rfl | rfl | rfl
    · exact passes_snapshot c.checkout c.baseline hbaseline check hcheck
    · exact passes_snapshot c.checkout c.reviewed hreviewed check hcheck
    · exact passes_snapshot c.checkout c.startSnapshot hstart check hcheck
    · exact passes_snapshot c.checkout c.observedSnapshot hobserved check hcheck
  · simp [hturns, hturn, List.getLast?_map, h.last, sameStr]
  · intro check hcheck
    rw [hturns, List.map_map] at hcheck
    obtain ⟨t, -, rfl⟩ := List.mem_map.mp hcheck
    exact t.native
  · intro check hcheck
    obtain ⟨row, hrow, hcheck⟩ := List.mem_flatMap.mp hcheck
    obtain ⟨a, ha, rfl⟩ := List.mem_map.mp hrow
    exact passes_action (h.actions a ha).1 (h.actions a ha).2 check hcheck
  · have hdispatched : Json.get c.payload "dispatched" = optJson (.bool ·) c.dispatched := rfl
    have hconsumed : Json.get c.payload "correction_consumed" = .bool c.correctionConsumed := rfl
    have hspent : Json.get c.payload "spent" = .bool c.spent := rfl
    have hbool : (isNull (optJson (.bool ·) c.dispatched : Json F)
        || isBool (optJson (.bool ·) c.dispatched : Json F)) = true := by
      cases c.dispatched <;> rfl
    have himp : (!c.correctionConsumed || c.spent) = true := by
      cases hc : c.correctionConsumed with
      | true => simp [h.correction hc]
      | false => rfl
    simp only [hdispatched, hconsumed, hspent, List.forall_mem_cons, hbool]
    exact ⟨trivial, himp, fun _ hnil => by cases hnil⟩

end Acceptance

/-! ## 4. Every step keeps validity -/

section Keeping

variable [PyFloatText F] {sha256 : List Char → Hex 64} {m : Moment} {ctx : TurnContext}
  {plan : PlanSnapshot} {attempt : Hex 32} {action : Action F} {frozen : Checkpoint F}
  {result : SupervisorRun F} {old : Option (Checkpoint F)} {c c' state source : Checkpoint F}

theorem Checkpoint.Valid.stamp (h : c.Valid sha256) (m : Moment) : (c.stamp m).Valid sha256 :=
  { h with }

theorem Checkpoint.Valid.pend (h : c.Valid sha256) (status : Status) (reason : String)
    (hstatus : c.spent = true ∨ status ∈ freeStatuses) : (c.pend status reason).Valid sha256 :=
  { h with
    unspent := fun hs => by
      have hs : c.spent = false := hs
      refine ⟨?_, (h.unspent hs).2⟩
      rcases hstatus with hspent | hfree
      · rw [hs] at hspent
        cases hspent
      · exact hfree }

theorem Checkpoint.Valid.provenance_ne_nil (h : c.Valid sha256) : c.provenance ≠ [] := by
  intro hnil
  have hlast := h.last
  rw [hnil] at hlast
  cases hlast

omit [PyFloatText F] in
/-- Excluded work is of one turn at least. -/
theorem exclude_turns (state : Checkpoint F) (hsource : source.provenance ≠ [])
    (hstate : ∀ w, state.excludedWork = some w → 1 ≤ w.turns) (reason : ExcludeReason) :
    ∀ w, (exclude state source reason).excludedWork = some w → 1 ≤ w.turns := by
  intro w hw
  simp only [exclude] at hw
  split at hw
  · exact hstate w hw
  rename_i hadd
  cases hw
  cases hwork : state.excludedWork with
  | some v =>
    have hv := hstate v hwork
    simp only [Option.map_some, Option.getD_some]
    omega
  | none =>
    obtain ⟨t, rest, ht⟩ := List.exists_cons_of_ne_nil hsource
    have hpos := t.int_pos
    simp [ht, hpos]

theorem Checkpoint.Valid.exclude (h : state.Valid sha256) (hsource : source.provenance ≠ [])
    (reason : ExcludeReason) : (exclude state source reason).Valid sha256 :=
  { h with work := exclude_turns state hsource h.work reason }

/-- A first state of a turn. -/
theorem newState_valid (ctx : TurnContext) {current : Option SnapshotRef}
    (hroot : InCheckout ctx.checkout current)
    (hold : ∀ o, old = some o → o.Valid sha256) :
    ((newState ctx current).inherit old : Checkpoint F).Valid sha256 where
  absolute := ctx.absolute
  watermark := rfl
  blocked := fun t ht => by cases ht
  last := rfl
  turns := Nat.le_of_ble_eq_true rfl
  rows := Nat.zero_le _
  actions := fun a ha => by cases ha
  scope := by
    refine ⟨hroot, ?_, hroot, hroot⟩
    intro r hr
    cases hr
  work := by
    intro w hw
    cases old with
    | none => cases hw
    | some o => exact (hold o rfl).work w hw
  paths := Nat.zero_le _
  spent := fun hs => by cases hs
  unspent := fun _ => ⟨List.mem_cons_self, rfl, rfl, rfl⟩
  decision := fun d hd => by cases hd
  correction := fun hc => by cases hc

theorem carryOver_valid {o : Checkpoint F} {r : Rebased} (h : state.Valid sha256)
    (ho : o.Valid sha256) (hlimit : o.provenance.length < MAX_PROVENANCE_TURNS)
    (hturn : state.turnId = ctx.turnId) (hroot : r.reference.root = state.checkout) :
    (carryOver ctx o r state).Valid sha256 :=
  { h with
    last := by simp [carryOver, hturn]
    turns := by
      simp only [carryOver, List.length_append, List.length_singleton]
      omega
    rows := ho.rows
    actions := by
      intro a ha
      obtain ⟨hbounded, hmem⟩ := ho.actions a ha
      exact ⟨hbounded, List.mem_append_left _ hmem⟩
    scope := by
      refine ⟨fun ref href => ?_, h.scope.2⟩
      cases href
      exact hroot
    paths := by simp [carryOver] }

theorem Checkpoint.Valid.ambiguous (h : c.Valid sha256) : c.ambiguous.Valid sha256 :=
  { h with
    rows := Nat.zero_le _
    actions := fun a ha => by cases ha }

theorem Started.valid {current : Option SnapshotRef} (h : Started ctx current old c)
    (hroot : InCheckout ctx.checkout current) (hold : ∀ o, old = some o → o.Valid sha256)
    (hlimit : ∀ o, old = some o → o.pending = true → o.provenance.length < MAX_PROVENANCE_TURNS) :
    c.Valid sha256 ∧ c.spent = false := by
  have hnew := newState_valid ctx hroot hold
  refine ⟨?_, h.turn.1⟩
  cases h with
  | first => exact hnew
  | @reset o hreset => exact hnew.exclude (hold o rfl).provenance_ne_nil _
  | @carried o now r hpending hcurrent hr =>
    have hcarry : (carryOver ctx o r ((newState ctx current).inherit (some o))).Valid sha256 :=
      carryOver_valid hnew (hold o rfl) (hlimit o rfl hpending) rfl
        (hr.trans (hroot now hcurrent))
    unfold carry
    split
    · exact hcarry
    · exact hcarry.ambiguous.exclude (hold o rfl).provenance_ne_nil _
  | @unobserved o => exact hnew.exclude (hold o rfl).provenance_ne_nil _
  | settled changes _ _ hpaths => exact { hnew with paths := hpaths }

theorem Begun.valid (h : Begun m ctx old c) (hold : ∀ o, old = some o → o.Valid sha256)
    (hseen : lastSeen old < ctx.turnId.int) : c.Valid sha256 := by
  cases h with
  | @blocked o hpending hmax =>
    have ho := hold o rfl
    have hpend := ho.pend .unavailable "carry_limit" (.inr (by decide))
    refine Checkpoint.Valid.stamp (c := { o.pend .unavailable "carry_limit" with
      blockedUntilTurn := some ctx.turnId }) { hpend with blocked := ?_ } m
    intro t ht
    cases ht
    have hlast : o.watermark ≤ lastSeen (some o) := Nat.le_max_left _ _
    have hmark := ho.watermark
    show o.turnId.int < ctx.turnId.int
    omega
  | @failed _ d type hs hlimit =>
    have hvalid := (hs.valid (fun r hr => by cases hr) hold hlimit).1
    have hpend := hvalid.pend .unavailable "baseline_unavailable" (.inr (by decide))
    exact Checkpoint.Valid.stamp (c := { d.pend .unavailable "baseline_unavailable" with
      baselineError := some type }) { hpend with } m
  | started s hs hlimit =>
    refine (hs.valid (fun r hr => ?_) hold hlimit).1.stamp m
    cases hr
    rfl

omit [PyFloatText F] in
theorem reference_inCheckout (hb : c.Belongs ctx) (s : Captured) :
    InCheckout c.checkout (some (s.reference ctx)) := by
  intro r hr
  cases hr
  exact hb.checkout.symm

theorem Checkpoint.Valid.observedAt (h : c.Valid sha256) (hb : c.Belongs ctx) (s : Captured) :
    ({ c with observedSnapshot := some (s.reference ctx) } : Checkpoint F).Valid sha256 :=
  { h with
    scope := ⟨h.scope.1, h.scope.2.1, h.scope.2.2.1, reference_inCheckout hb s⟩ }

theorem Continued.valid (h : Continued ctx c c') (hc : c.Valid sha256) (hb : c.Belongs ctx) :
    c'.Valid sha256 := by
  cases h with
  | same => exact hc
  | fresh s =>
    have hnow := reference_inCheckout hb s
    exact { hc with
      rows := Nat.zero_le _
      actions := fun a ha => by cases ha
      scope := ⟨hnow, hc.scope.2.1, hc.scope.2.2.1, hnow⟩ }

theorem afterReview_valid (h : c.Valid sha256) : (afterReview c).Valid sha256 := by
  unfold afterReview
  split
  · rename_i hspent
    exact h.pend _ _ (.inl hspent)
  · exact h

theorem keepAction_valid (h : c.Valid sha256) (ha : action.Bounded)
    (hturn : action.turnId ∈ c.provenance) : (keepAction action c).Valid sha256 := by
  unfold keepAction
  split
  · have hpend := h.pend .unavailable "action_limit" (.inr (by decide))
    exact { hpend with }
  · rename_i hroom
    refine { h with rows := ?_, actions := ?_ }
    · simp only [List.length_append, List.length_singleton]
      omega
    · intro b hb
      rcases List.mem_append.mp hb with hb | hb
      · exact h.actions b hb
      · rw [List.mem_singleton.mp hb]
        exact ⟨ha, hturn⟩

theorem Observed.valid (h : Observed ctx c c') (hc : c.Valid sha256) (hb : c.Belongs ctx) :
    c'.Valid sha256 := by
  cases h with
  | same => exact hc
  | seen s => exact hc.observedAt hb s
  | unseen omissions => exact { hc with }

omit [PyFloatText F] in
/-- What an action leaves of its turn. -/
theorem Continued.frame (h : Continued ctx c c') : c'.provenance = c.provenance ∧
    (c.Belongs ctx → c'.Belongs ctx) := by
  cases h with
  | same => exact ⟨rfl, fun hb => hb⟩
  | fresh s => exact ⟨rfl, fun hb => ⟨hb.sessionIdentity, hb.forgeRoot, hb.checkout⟩⟩

omit [PyFloatText F] in
theorem keepAction_frame (action : Action F) (hb : c.Belongs ctx) :
    (afterReview c).provenance = c.provenance ∧ (keepAction action (afterReview c)).Belongs ctx := by
  unfold keepAction afterReview
  split
  all_goals
    split
    all_goals exact ⟨rfl, hb.sessionIdentity, hb.forgeRoot, hb.checkout⟩

theorem Recorded.valid (h : Recorded m ctx action c c') (hc : c.Valid sha256) (hb : c.Belongs ctx)
    (hcurrent : c.isCurrent ctx = true) (ha : action.Bounded) (hturn : action.turnId = ctx.turnId) :
    c'.Valid sha256 := by
  cases h with
  | reconfigured => exact (hc.pend _ _ (.inr (by decide))).stamp m
  | denied =>
    refine Checkpoint.Valid.stamp (c := { c with
      actions := c.actions.filter fun row =>
        !(row.id == action.id && row.turnId == action.turnId) }) { hc with rows := ?_, actions := ?_ } m
    · exact (List.length_filter_le _ _).trans hc.rows
    · exact fun a hmem => hc.actions a (List.mem_filter.mp hmem).1
  | @kept b o _ _ _ hb' ho =>
    have hbelongs := hb'.frame.2 hb
    have hmem : action.turnId ∈ (afterReview b).provenance := by
      rw [(keepAction_frame action hbelongs).1, hb'.frame.1, hturn,
        ← (isCurrent_iff.mp hcurrent).2]
      exact List.mem_of_getLast? hc.last
    have hkeep := keepAction_valid (afterReview_valid (hb'.valid hc hb)) ha hmem
    exact (ho.valid hkeep (keepAction_frame action hbelongs).2).stamp m

theorem StoppedAgain.valid (h : StoppedAgain ctx c c') (hc : c.Valid sha256) (hb : c.Belongs ctx)
    (hspent : c.spent = true) : c'.Valid sha256 := by
  have hobserved : ({ c with observedSnapshot := c'.observedSnapshot } : Checkpoint F).Valid
      sha256 := by
    rcases h.observed with ho | ⟨s, hs⟩
    · rw [ho]
      exact hc
    · rw [hs]
      exact hc.observedAt hb s
  rw [h.frame]
  refine { hobserved with unspent := fun hfree => ?_ }
  have hfree : c.spent = false := hfree
  rw [hspent] at hfree
  cases hfree

theorem missingTurn_valid (hold : ∀ o, old = some o → o.Valid sha256) :
    (missingTurn ctx old : Checkpoint F).Valid sha256 := by
  have hnone : InCheckout ctx.checkout none := by
    intro r hr
    cases hr
  have hnew := newState_valid ctx hnone hold
  have hfirst : ∀ d : Checkpoint F, d.Valid sha256 → d.spent = false →
      ({ exclude d d .missingTurnStart with
        status := .unavailable
        reason := some "missing_turn_start" } : Checkpoint F).Valid sha256 := by
    intro d hd hspent
    have hexclude := hd.exclude hd.provenance_ne_nil .missingTurnStart
    exact { hexclude with
      unspent := fun hs => ⟨List.mem_cons_of_mem _ List.mem_cons_self, (hexclude.unspent hs).2⟩ }
  unfold missingTurn
  cases old with
  | none => exact hfirst _ hnew rfl
  | some o =>
    simp only
    split
    · exact hfirst _ (hnew.exclude (hold o rfl).provenance_ne_nil _) rfl
    · exact hfirst _ hnew rfl

theorem Checkpoint.Valid.examined (h : c.Valid sha256) (hb : c.Belongs ctx) (s : Captured)
    (evidence : Evidence F) : (c.examined (s.reference ctx) evidence).Valid sha256 :=
  { h.observedAt hb s with }

theorem Checkpoint.Valid.reserved (h : c.Valid sha256) {s : Captured} (hb : c.Belongs ctx)
    {evidence : Evidence F} (hevidence : Plain evidence.toJson) (planDigest : Hex 64) :
    (c.reserved sha256 ctx attempt planDigest (s.reference ctx) evidence).Valid sha256 :=
  { h with
    scope := ⟨h.scope.1, reference_inCheckout hb s, h.scope.2.2⟩
    spent := fun _ => ⟨attempt, planDigest, evidence, s.reference ctx, rfl, rfl, rfl, rfl, rfl,
      hevidence⟩
    unspent := fun hs => by cases hs
    correction := fun _ => rfl }

theorem Assessed.valid {s : Captured} {evidence : Evidence F} {r : Reserved F}
    (h : Assessed sha256 m ctx attempt (s.reference ctx) evidence c r) (hc : c.Valid sha256)
    (hb : c.Belongs ctx) (hspent : c.spent = false) (hevidence : Plain evidence.toJson)
    (hsaved : r.saved = some c') : c'.Valid sha256 := by
  cases h with
  | excluded =>
    cases hsaved
    have hexclude := hc.exclude hc.provenance_ne_nil .partialEvidence
    refine Checkpoint.Valid.stamp (c := { Policy.exclude c c .partialEvidence with
      status := .unavailable
      reason := some "incomplete_evidence"
      outstanding := false }) { hexclude with unspent := ?_ } m
    exact fun hs => ⟨List.mem_cons_of_mem _ List.mem_cons_self, (hexclude.unspent hs).2⟩
  | noChanges =>
    cases hsaved
    refine Checkpoint.Valid.stamp (c := { c with
      status := .noChanges
      reason := some "complete_unchanged_turn"
      reviewed := some (s.reference ctx) }) { hc with scope := ?_, spent := ?_, unspent := ?_ } m
    · exact ⟨hc.scope.1, reference_inCheckout hb s, hc.scope.2.2⟩
    · intro hs
      have hs : c.spent = true := hs
      rw [hspent] at hs
      cases hs
    · exact fun hs => ⟨List.mem_cons_of_mem _ (List.mem_cons_of_mem _ List.mem_cons_self),
        (hc.unspent hs).2⟩
  | noPlan =>
    cases hsaved
    exact (hc.pend .unavailable "plan_unavailable" (.inr (by decide))).stamp m
  | reserved planDigest =>
    cases hsaved
    exact (hc.reserved hb hevidence planDigest).stamp m

theorem Reserving.valid {r : Reserved F} (h : Reserving sha256 m ctx attempt old r)
    (hold : ∀ o, old = some o → o.Valid sha256) (hb : ∀ o, old = some o → o.Belongs ctx)
    (hsaved : r.saved = some c') : c'.Valid sha256 := by
  cases h with
  | refused => cases hsaved
  | missing =>
    cases hsaved
    exact (missingTurn_valid hold).stamp m
  | reconfigured _ =>
    cases hsaved
    exact ((hold _ rfl).pend _ _ (.inr (by decide))).stamp m
  | again _ hspent ho =>
    cases hsaved
    exact (ho.valid (hold _ rfl) (hb _ rfl) hspent).stamp m
  | @assessed c _ _ s evidence hcompare _ hspent _ _ _ hassessed =>
    have hc := hold c rfl
    have hactions : ∀ a ∈ (gather c evidence).actions, a.Bounded := by
      intro a ha
      exact (hc.actions a (compare_actions hcompare a (gather_actions a ha))).1
    have hbelongs : (c.examined (s.reference ctx) (gather c evidence)).Belongs ctx :=
      ⟨(hb c rfl).sessionIdentity, (hb c rfl).forgeRoot, (hb c rfl).checkout⟩
    exact hassessed.valid (hc.examined (hb c rfl) s _) hbelongs hspent (Evidence.plain hactions)
      hsaved

/-- A checkpoint that has an attempt is spent. -/
theorem Checkpoint.Valid.spent_of_attempt (h : c.Valid sha256) (ha : c.attemptId ≠ none) :
    c.spent = true := by
  cases hs : c.spent with
  | true => rfl
  | false => exact absurd (h.unspent hs).2.1 ha

theorem Checkpoint.Valid.decided (h : c.Valid sha256) (hs : c.spent = true)
    (hdecision : Plain result.decision.toJson) : (c.decided result).Valid sha256 :=
  { h with
    unspent := fun hfree => by
      have hfree : c.spent = false := hfree
      rw [hs] at hfree
      cases hfree
    decision := fun d hd => by
      cases hd
      exact hdecision }

theorem Concluded.valid {failed stale : Bool} {r : Checkpoint F × StopOutcome F}
    (h : Concluded failed stale frozen result c r) (hc : c.Valid sha256) (hs : c.spent = true) :
    r.1.Valid sha256 := by
  have hspent : c.spent = false → False := by
    intro hfree
    rw [hs] at hfree
    cases hfree
  cases h with
  | ended => exact hc
  | unsettled status reason _ => exact hc.pend status reason (.inl hs)
  | inPart =>
    have hexclude := hc.exclude hc.provenance_ne_nil .partialEvidence
    exact { hexclude with unspent := fun hfree => (hspent hfree).elim }
  | reviewed =>
    exact { hc with
      unspent := fun hfree => (hspent hfree).elim
      correction := fun _ => hs }

end Keeping

/-! ## 5. Reached checkpoints -/

section Reached

variable [PyFloatText F] (sha256 : List Char → Hex 64)

/-- A state that `reserve` has reserved. -/
def Reservation (frozen : Checkpoint F) : Prop :=
  ∃ m ctx plan attempt previous outcome saved,
    reserve sha256 m ctx plan attempt previous = .ok ⟨outcome, saved, some frozen⟩

/-- One step and the checkpoint it saves. -/
inductive Move (previous : Option (Checkpoint F)) : Checkpoint F → Prop where
  | beginTurn (m : Moment) (ctx : TurnContext) {c : Checkpoint F} :
      beginTurn sha256 m ctx previous = .ok (some c) → Move previous c
  | recordAction (m : Moment) (boundary : Except Failure Captured) (ctx : TurnContext)
      (action : Action F) {c : Checkpoint F} : action.Bounded → action.turnId = ctx.turnId →
      recordAction m boundary ctx action previous = .ok (some c) → Move previous c
  | reserve (m : Moment) (ctx : TurnContext) (plan : PlanSnapshot) (attempt : Hex 32)
      {outcome : StopOutcome F} {c : Checkpoint F} {reservation : Option (Checkpoint F)} :
      reserve sha256 m ctx plan attempt previous = .ok ⟨outcome, some c, reservation⟩ →
      Move previous c
  | saveResult (m : Moment) (ctx : TurnContext) (frozen : Checkpoint F) (result : SupervisorRun F)
      {c : Checkpoint F} : Reservation sha256 frozen → Plain result.decision.toJson →
      saveResult m ctx frozen result previous = .ok (some c) → Move previous c
  | finish (m : Moment) (ctx : TurnContext) (failed stale : Bool) (frozen : Checkpoint F)
      (result : SupervisorRun F) {outcome : StopOutcome F} {c : Checkpoint F} :
      Reservation sha256 frozen → Plain result.decision.toJson →
      finish m ctx failed stale frozen result previous = .ok (some c, outcome) → Move previous c
  | resetReview (m : Moment) (apply : Bool) {c : Checkpoint F} :
      resetReview m apply previous = some c → Move previous c

/-- The checkpoints that any number of steps leave behind. -/
inductive Reached : Option (Checkpoint F) → Prop where
  | init : Reached none
  | move {previous : Option (Checkpoint F)} {c : Checkpoint F} :
      Reached previous → Move sha256 previous c → Reached (some c)

variable {sha256} {previous : Option (Checkpoint F)} {frozen c c' : Checkpoint F}

theorem Reservation.attempt (h : Reservation sha256 frozen) : frozen.attemptId ≠ none := by
  obtain ⟨m, ctx, plan, attempt, previous, outcome, saved, hreserve⟩ := h
  have hreserving := (reserve_ok hreserve).2
  generalize hr : (⟨outcome, saved, some frozen⟩ : Reserved F) = r at hreserving
  cases hreserving with
  | refused => cases hr
  | missing => cases hr
  | reconfigured => cases hr
  | again => cases hr
  | assessed s evidence _ _ _ _ _ _ hassessed =>
    cases hassessed with
    | excluded => cases hr
    | noChanges => cases hr
    | noPlan => cases hr
    | reserved planDigest =>
      cases hr
      intro hnone
      cases hnone

theorem spent_of_holds {ctx : TurnContext} (h : Reservation sha256 frozen) (hc : c.Valid sha256)
    (hholds : c.holds ctx frozen = true) : c.spent = true := by
  refine hc.spent_of_attempt fun hnone => ?_
  simp only [Checkpoint.holds, Bool.and_eq_true, beq_iff_eq] at hholds
  exact h.attempt (hholds.2 ▸ hnone)

/-- A step keeps validity. -/
theorem Move.valid (h : Move sha256 previous c) (hprevious : ∀ o, previous = some o → o.Valid sha256) :
    c.Valid sha256 := by
  cases h with
  | beginTurn m ctx hbegin =>
    obtain ⟨-, hseen, hbegun⟩ := beginTurn_ok hbegin
    exact hbegun.valid hprevious hseen
  | recordAction m boundary ctx action hbounded hturn hrecord =>
    obtain ⟨o, ho, hbelongs, hcurrent, hrecorded⟩ := recordAction_ok hrecord
    exact hrecorded.valid (hprevious o ho) hbelongs hcurrent hbounded hturn
  | reserve m ctx plan attempt hreserve =>
    obtain ⟨hbelongs, hreserving⟩ := reserve_ok hreserve
    exact hreserving.valid hprevious hbelongs rfl
  | saveResult m ctx frozen result hfrozen hdecision hsave =>
    obtain ⟨o, ho, -, hholds, rfl⟩ := saveResult_ok hsave
    have hvalid := hprevious o ho
    exact (hvalid.decided (spent_of_holds hfrozen hvalid hholds) hdecision).stamp m
  | finish m ctx failed stale frozen result hfrozen hdecision hfinish =>
    obtain ⟨hsaved, -⟩ | ⟨o, ho, -, hholds, hsaved, -⟩ := finish_ok hfinish
    · cases hsaved
    · cases hsaved
      have hvalid := hprevious o ho
      have hspent := spent_of_holds hfrozen hvalid hholds
      exact ((conclude_cases failed stale frozen result _).valid (hvalid.decided hspent hdecision)
        hspent).stamp m
  | resetReview m apply hreset =>
    obtain ⟨o, ho, rfl⟩ := resetReview_ok hreset
    have hpend := (hprevious o ho).pend .unavailable "operator_reset"
      (.inr (by decide))
    exact Checkpoint.Valid.stamp (c := { o.pend .unavailable "operator_reset" with
      resetRequested := true }) { hpend with } m

/-- Every reached checkpoint is valid. -/
theorem Reached.valid (h : Reached sha256 previous) :
    ∀ o, previous = some o → o.Valid sha256 := by
  induction h with
  | init =>
    intro o ho
    cases ho
  | move _ hmove ih =>
    intro o ho
    cases ho
    exact hmove.valid ih

/-- The payload is a value that JSON has. -/
theorem Checkpoint.Valid.plain (h : c.Valid sha256) : Plain (.obj c.payload) := by
  have hsnapshot : ∀ r : Option SnapshotRef, Plain (optJson SnapshotRef.toJson r : Json F) :=
    fun r => plain_optJson fun a _ => a.plain
  have hactions : Plain (.list (c.actions.map fun a => .obj a.items)) := by
    refine plain_list fun v hv => ?_
    obtain ⟨a, ha, rfl⟩ := List.mem_map.mp hv
    exact (h.actions a ha).1.plain
  have hevidence : Plain (optJson Evidence.toJson c.evidence) := by
    refine plain_optJson fun e he => ?_
    cases hs : c.spent with
    | true =>
      obtain ⟨_, _, evidence, _, _, _, heq, _, _, hplain⟩ := h.spent hs
      rw [he] at heq
      rwa [Option.some.inj heq]
    | false =>
      rw [(h.unspent hs).2.2.1] at he
      cases he
  have hdecision : Plain (optJson PolicyDecision.toJson c.decision) := plain_optJson h.decision
  refine plain_obj (payload_keys_nodup c) fun kv hkv => ?_
  rcases List.mem_append.mp hkv with hkv | hkv
  · simp only [List.mem_cons, List.not_mem_nil, or_false] at hkv
    rcases hkv with rfl | rfl | rfl | rfl | rfl | rfl | rfl | rfl | rfl | rfl | rfl | rfl | rfl |
      rfl | rfl | rfl | rfl | rfl | rfl | rfl | rfl | rfl | rfl | rfl | rfl | rfl | rfl | rfl |
      rfl | rfl
    all_goals first
      | exact hactions
      | exact hevidence
      | exact hdecision
      | exact hsnapshot _
      | exact plain_optJson fun _ _ => by simp
      | simp
  · simp only [List.mem_append] at hkv
    rcases hkv with ((hkv | hkv) | hkv) | hkv
    all_goals exact plain_optItem (fun _ _ => plain_str _) kv hkv

end Reached

end MultiForge.Policy
