/-
MultiForge.Workqueue.Starvation — whether every marker is looked at.

The cursor moves on only past a marker that stays without being counted.
A marker whose handler fails, or that is invalid, is counted and moved to
`failed/` in the end; that is what makes starting over from the first
marker harmless. It needs an attempt count that can be counted up
(`Countable`), and an attempt count that cannot keeps the later markers
out for ever (`uncountable_starves`).
-/
import MultiForge.Workqueue.Queue

namespace MultiForge.Workqueue

open RoundRobin

variable {F : Type}

/-! ## 1. Counting attempts -/

variable [PyCount F] {env : Env F}

/-- Counting up from `v` reaches `MAX_ATTEMPTS` in at most so many steps. -/
def reaches (env : Env F) : Nat → Json F → Bool
  | 0, _ => false
  | b + 1, v => match addOne? v with
    | none => false
    | some w => isWritable env w && (exhausted? w = some true || reaches env b w)

/-- How many failures leave the marker where it is. -/
def remaining : Nat → Json F → Nat
  | 0, _ => 0
  | b + 1, v => match addOne? v with
    | none => 0
    | some w => if exhausted? w = some true then 0 else remaining b w + 1

theorem remaining_le : ∀ (b : Nat) (v : Json F), remaining b v ≤ b
  | 0, _ => Nat.le_refl 0
  | b + 1, v => by
      rw [remaining]
      cases addOne? v with
      | none => exact Nat.zero_le _
      | some w =>
        have ih := remaining_le b w
        simp only
        split <;> omega

/-- A bound that is reached does not matter. -/
theorem remaining_succ : ∀ {b : Nat} {v : Json F}, reaches env b v = true →
    remaining (b + 1) v = remaining b v
  | b + 1, v, h => by
      rw [reaches] at h
      rw [remaining, remaining]
      cases hv : addOne? v with
      | none => rfl
      | some w =>
        rw [hv] at h
        simp only [Bool.and_eq_true, Bool.or_eq_true, decide_eq_true_eq] at h
        simp only
        by_cases hw : exhausted? w = some true
        · rw [if_pos hw, if_pos hw]
        · rw [if_neg hw, if_neg hw, remaining_succ (h.2.resolve_left hw)]

theorem reaches_succ : ∀ {b : Nat} {v : Json F}, reaches env b v = true →
    reaches env (b + 1) v = true
  | b + 1, v, h => by
      rw [reaches] at h ⊢
      cases hv : addOne? v with
      | none =>
        rw [hv] at h
        cases h
      | some w =>
        rw [hv] at h
        simp only [Bool.and_eq_true, Bool.or_eq_true, decide_eq_true_eq] at h ⊢
        exact ⟨h.1, h.2.imp_right reaches_succ⟩

/-- An `int` that is not negative can be counted up, unless its text would
be too long. -/
theorem reaches_int {n : Int} (hn : 0 ≤ n)
    (hwrite : env.intMaxStrDigits = 0 ∨ (n + 5).natAbs < 10 ^ env.intMaxStrDigits) :
    reaches env maxAttempts (.int n) = true := by
  have hwritable : ∀ m : Int, 0 ≤ m → m ≤ n + 5 → isWritable env (.int m) = true := by
    intro m hm hle
    rcases hwrite with h | h
    · simp [isWritable, h]
    · have hlt : m.natAbs < 10 ^ env.intMaxStrDigits := by omega
      simp [isWritable, hlt]
  simp only [reaches, maxAttempts, addOne?, exhausted?, Bool.and_eq_true, Bool.or_eq_true,
    decide_eq_true_eq, Option.some.injEq]
  refine ⟨hwritable _ (by omega) (by omega), .inr ⟨hwritable _ (by omega) (by omega), .inr
    ⟨hwritable _ (by omega) (by omega), .inr ⟨hwritable _ (by omega) (by omega), .inr
      ⟨hwritable _ (by omega) (by omega), .inl ?_⟩⟩⟩⟩⟩
  exact decide_eq_true (show (5 : Int) ≤ _ by omega)

/-! ## 2. Objects that can be counted -/

/-- The marker is left alone whoever asks: its session is not identified,
or its root is no path. -/
def isHeld (env : Env F) (items : List (String × Json F)) : Bool :=
  match ownership items with
  | .unidentified => true
  | .owned root _ _ => (env.resolve root).isNone
  | .unowned => false

/-- Inspecting the marker never counts an attempt. -/
def isSettled (env : Env F) (items : List (String × Json F)) : Bool :=
  match judge env items with
  | .raises => false
  | .invalid _ => false
  | .handle => false
  | _ => true

/-- If attempts are counted at all, the count reaches `MAX_ATTEMPTS`. -/
def Countable (env : Env F) (items : List (String × Json F)) : Prop :=
  isHeld env items = true ∨ isSettled env items = true
    ∨ reaches env maxAttempts (attemptCount items) = true

/-- The failures the marker can still have. -/
def budget (items : List (String × Json F)) : Nat := remaining maxAttempts (attemptCount items)

/-- What is decided about a marker does not depend on those keys, the
attempt count apart. -/
theorem judge_withError {items items' : List (String × Json F)}
    (h : ∀ key ∉ errorKeys, Json.lookup key items' = Json.lookup key items) :
    ownership items' = ownership items ∧ newerVersion? items' = newerVersion? items
      ∧ isOldShape items' = isOldShape items
      ∧ validateMarker env items' = validateMarker env items
      ∧ isHandled env items' = isHandled env items := by
  have hget : ∀ key ∉ errorKeys, Json.get items' key = Json.get items key := by
    intro key hkey
    rw [Json.get, Json.get, Json.getD, Json.getD, h key hkey]
  have hhas : ∀ key ∉ errorKeys, Json.hasKey items' key = Json.hasKey items key := by
    intro key hkey
    rw [Json.hasKey, Json.hasKey, h key hkey]
  refine ⟨?_, ?_, ?_, ?_, ?_⟩
  · rw [ownership, ownership, hget "payload" (by decide)]
  · rw [newerVersion?, newerVersion?, hget "schema_version" (by decide)]
  · rw [isOldShape, isOldShape, hhas "marker_id" (by decide), hhas "session_id" (by decide),
      hhas "work" (by decide)]
  · rw [validateMarker, validateMarker, hget "schema_version" (by decide),
      hget "kind" (by decide), hget "marker_id" (by decide)]
  · rw [isHandled, isHandled, hget "kind" (by decide)]

/-- A counted failure leaves a marker that can be counted, with less
budget, unless the attempts are used up. -/
theorem Countable.withError {now error : String} {items items' : List (String × Json F)}
    {count : Json F} (hreaches : reaches env maxAttempts (attemptCount items) = true)
    (h : withError env now error items = some (items', count))
    (hcount : exhausted? count ≠ some true) :
    Countable env items' ∧ budget items' < budget items := by
  obtain ⟨hadd, -, hattempts, -⟩ := withError_cases h
  unfold budget Countable
  rw [hattempts]
  generalize hm : maxAttempts = m at hreaches ⊢
  cases m with
  | zero => cases hm
  | succ b =>
    rw [reaches, hadd] at hreaches
    simp only [Bool.and_eq_true, Bool.or_eq_true, decide_eq_true_eq] at hreaches
    have hnext := hreaches.2.resolve_left hcount
    refine ⟨.inr (.inr (reaches_succ hnext)), ?_⟩
    rw [remaining_succ hnext, remaining, hadd]
    simp only
    rw [if_neg hcount]
    exact Nat.lt_succ_self _

/-! ## 3. One inspection -/

variable {c : Circumstances} {items : List (String × Json F)} {name : String} {warned : Bool}

/-- A marker that has been counted, taken away or left alone. -/
def Progress (env : Env F) (items : List (String × Json F)) (r : Inspected F) : Prop :=
  r.pending = none ∨ r.pending = some (.object items) ∧ r.outcome.isResident = true ∨
    ∃ items', r.pending = some (.object items') ∧ Countable env items'
      ∧ budget items' < budget items

theorem ownerChanged_self {root sessionName token resolved : String}
    (h : ownership items = .owned root sessionName token) (hroot : env.resolve root = some resolved) :
    ownerChanged env (some ⟨resolved, sessionName, token⟩) items = some false := by
  unfold ownership at h
  split at h
  · rename_i payload hpayload
    split at h
    · rename_i sessionName' root' hsession hroot'
      split at h
      · rename_i token' htoken
        cases h
        have horElse : (Json.obj payload).orElse (.obj []) = .obj payload := by
          unfold Json.orElse
          split
          · rfl
          · rename_i hempty
            simp [Json.truthy] at hempty
            rw [hempty]
        simp [ownerChanged, hpayload, horElse, hroot', hroot, hsession, htoken, isStr]
      · cases h
    · cases h
  · cases h

theorem moveToFailed_progress (hc : c.Smooth) (handled : Bool) (content : Content F) :
    Progress env items (moveToFailed c warned handled content) := by
  unfold moveToFailed
  rw [if_neg (by simp [hc.move])]
  exact .inl rfl

theorem unlinkMarker_progress (hc : c.Smooth) (handled : Bool) (content : Content F) :
    Progress env items (unlinkMarker name c warned handled content) := by
  unfold unlinkMarker
  rw [if_neg (by simp [hc.unlink])]
  exact .inl rfl

theorem writeError_progress (hc : c.Smooth) {handled : Bool} {error reported : String}
    (h : reaches env maxAttempts (attemptCount items) = true) :
    Progress env items (writeError env c warned handled error reported items) := by
  unfold writeError
  rw [if_neg (by simp [hc.write])]
  cases hwrite : withError env c.now error items with
  | none =>
    exfalso
    unfold withError at hwrite
    rw [maxAttempts, reaches] at h
    cases hadd : addOne? (attemptCount items) with
    | none =>
      rw [hadd] at h
      cases h
    | some w =>
      rw [hadd] at h hwrite
      simp only [Bool.and_eq_true] at h
      simp only at hwrite
      rw [if_pos h.1] at hwrite
      cases hwrite
  | some written =>
    obtain ⟨items', count⟩ := written
    simp only
    by_cases hcount : exhausted? count = some true
    · rw [if_pos hcount]
      exact moveToFailed_progress hc handled _
    · rw [if_neg hcount]
      exact .inr (.inr ⟨items', rfl, Countable.withError h hwrite hcount⟩)

/-- Comparing the attempt count fails only where counting it up does. -/
theorem addOne?_of_raises (h : judge env items = .raises) : addOne? (attemptCount items) = none := by
  have hnone : exhausted? (attemptCount items) = none := by
    unfold judge at h
    split at h
    · cases h
    · split at h
      · cases h
      · split at h
        · cases h
        · split at h
          · assumption
          · cases h
          · split at h <;> cases h
  generalize attemptCount items = v at hnone ⊢
  cases v <;> first | rfl | cases hnone

/-- Under the lock, with the owner unchanged. -/
theorem processLockedMarker_progress (hc : c.Smooth) {expectedOwner : Option Owner}
    (howner : ownerChanged env expectedOwner items = some false)
    (h : isSettled env items = true ∨ reaches env maxAttempts (attemptCount items) = true) :
    Progress env items (processLockedMarker env c warned expectedOwner name (.object items)) := by
  unfold processLockedMarker verdict
  rw [if_neg (by simp [hc.lock])]
  simp only [howner]
  have hjudge : ∀ v, judge env items = v → isSettled env items = true →
      v ≠ .raises ∧ (∀ error, v ≠ .invalid error) ∧ v ≠ .handle := by
    intro v hv hsettled
    unfold isSettled at hsettled
    rw [hv] at hsettled
    refine ⟨?_, ?_, ?_⟩
    · rintro rfl
      cases hsettled
    · rintro error rfl
      cases hsettled
    · rintro rfl
      cases hsettled
  cases hv : judge env items with
  | raises =>
    exfalso
    rcases h with h | h
    · exact (hjudge _ hv h).1 rfl
    · rw [maxAttempts, reaches, addOne?_of_raises hv] at h
      cases h
  | changed => exact .inr (.inl ⟨rfl, rfl⟩)
  | newerSchema version => exact .inr (.inl ⟨rfl, rfl⟩)
  | oldShape => exact unlinkMarker_progress hc _ _
  | invalid error =>
    exact writeError_progress hc (h.resolve_left fun hs => (hjudge _ hv hs).2.1 error rfl)
  | exhausted => exact moveToFailed_progress hc _ _
  | unhandled => exact .inr (.inl ⟨rfl, rfl⟩)
  | handle =>
    simp only
    cases c.handlerError with
    | none => exact unlinkMarker_progress hc _ _
    | some e => exact writeError_progress hc (h.resolve_left fun hs => (hjudge _ hv hs).2.2 rfl)

/-- Every marker that can be counted makes progress. -/
theorem processSingleMarker_progress (hc : c.Smooth) (h : Countable env items) {r : Inspected F}
    (hr : processSingleMarker env c warned name (.object items) = .ok r) : Progress env items r := by
  unfold processSingleMarker at hr
  simp only at hr
  cases hownership : ownership items with
  | unowned =>
    rw [hownership] at hr
    cases hr
    have hheld : ¬ isHeld env items = true := by simp [isHeld, hownership]
    exact processLockedMarker_progress hc rfl (h.resolve_left hheld)
  | unidentified =>
    rw [hownership] at hr
    cases hr
    exact .inr (.inl ⟨rfl, rfl⟩)
  | owned root sessionName token =>
    rw [hownership] at hr
    simp only at hr
    cases hlease : c.lease with
    | escapes reason => exact absurd hlease (hc.lease reason)
    | refused reason =>
      rw [hlease] at hr
      cases hr
      exact .inr (.inl ⟨rfl, rfl⟩)
    | admitted =>
      rw [hlease] at hr
      simp only at hr
      cases hroot : env.resolve root with
      | none =>
        rw [hroot] at hr
        cases hr
        exact .inr (.inl ⟨rfl, rfl⟩)
      | some resolved =>
        rw [hroot] at hr
        cases hr
        have hheld : ¬ isHeld env items = true := by simp [isHeld, hownership, hroot]
        exact processLockedMarker_progress hc (ownerChanged_self hownership hroot)
          (h.resolve_left hheld)

/-! ## 4. One invocation -/

variable {q q' : Queue F} {round : Round} {maxItems : Int}

/-- Every marker holds an object that can be counted, and the cursor can be
read. -/
structure Orderly (env : Env F) (q : Queue F) : Prop where
  markers : ∀ x content, q.find x = some content →
    ∃ items, content = .object items ∧ Countable env items
  cursor : ∀ reason, q.cursor ≠ some (.escaping reason)

/-- The scan that the queue is in. -/
def Queue.scan (q : Queue F) : Scan String where
  keys := q.names
  cursor := match readScanCursor q.cursor with
    | .ok cursor => cursor
    | .error _ => none
  budget x := match q.find x with
    | some (.object items) => budget items
    | _ => 0

theorem Orderly.escapes_eq_none (h : Orderly env q) (hc : c.Smooth) {x : String}
    {content : Content F} (hfind : q.find x = some content) : escapes c content = none := by
  obtain ⟨items, rfl, -⟩ := h.markers x content hfind
  simp only [escapes]
  split
  · rename_i hlease
    exact absurd hlease (hc.lease _)
  · rfl

/-- The loop over the window leaves an orderly queue, in which each marker
of the window has made progress. -/
theorem Inspects.orderly {inspection : String → Circumstances} {w : List String}
    {outcomes : List (String × Outcome)} (h : Inspects env inspection w q outcomes q')
    (hq : Orderly env q) (hsmooth : ∀ name, (inspection name).Smooth) :
    Orderly env q' ∧ (∀ x ∈ q'.names, q'.scan.budget x ≤ q.scan.budget x) ∧
      ((∀ e ∈ outcomes, e.2.isResident = false) →
        ∀ x ∈ w, x ∈ q'.names → q'.scan.budget x < q.scan.budget x) := by
  have hprogress : ∀ x ∈ w, ∀ items, q.find x = some (.object items) →
      ∃ r, (x, r.outcome) ∈ outcomes ∧ q'.find x = r.pending ∧ Progress env items r := by
    intro x hx items hfind
    obtain ⟨-, warned, r, hr, hpending, hmem⟩ := h.inspected x hx _ hfind
    obtain ⟨items', heq, hcountable⟩ := hq.markers x _ hfind
    cases heq
    exact ⟨r, hmem, hpending, processSingleMarker_progress (hsmooth x) hcountable hr⟩
  have hback : ∀ x ∈ q'.names, x ∈ q.names := by
    intro x hx
    obtain ⟨p, hp, -⟩ := h.sublist
    rw [hp] at hx
    exact (List.mem_filter.mp hx).1
  refine ⟨⟨fun x content hfind => ?_, ?_⟩, fun x hx => ?_, fun hresident x hx hx' => ?_⟩
  · by_cases hw : x ∈ w
    · obtain ⟨content₀, hfind₀⟩ := Queue.mem_names_iff.mp
        (hback x (Queue.mem_names_iff.mpr ⟨content, hfind⟩))
      obtain ⟨items, rfl, hcountable⟩ := hq.markers x _ hfind₀
      obtain ⟨r, -, hpending, hnone | ⟨hsame, -⟩ | ⟨items', hnew, hcountable', -⟩⟩ :=
        hprogress x hw items hfind₀
      · rw [hpending, hnone] at hfind
        cases hfind
      · rw [hpending, hsame] at hfind
        cases hfind
        exact ⟨items, rfl, hcountable⟩
      · rw [hpending, hnew] at hfind
        cases hfind
        exact ⟨items', rfl, hcountable'⟩
    · rw [h.others x hw] at hfind
      exact hq.markers x content hfind
  · rw [h.cursor]
    exact hq.cursor
  · by_cases hw : x ∈ w
    · obtain ⟨content₀, hfind₀⟩ := Queue.mem_names_iff.mp (hback x hx)
      obtain ⟨items, rfl, -⟩ := hq.markers x _ hfind₀
      obtain ⟨content, hfind⟩ := Queue.mem_names_iff.mp hx
      obtain ⟨r, -, hpending, hnone | ⟨hsame, -⟩ | ⟨items', hnew, -, hless⟩⟩ :=
        hprogress x hw items hfind₀
      · rw [hpending, hnone] at hfind
        cases hfind
      · simp only [Queue.scan, hfind₀, hpending, hsame, Nat.le_refl]
      · simp only [Queue.scan, hfind₀, hpending, hnew]
        exact Nat.le_of_lt hless
    · simp only [Queue.scan, h.others x hw, Nat.le_refl]
  · obtain ⟨content₀, hfind₀⟩ := Queue.mem_names_iff.mp (hback x hx')
    obtain ⟨items, rfl, -⟩ := hq.markers x _ hfind₀
    obtain ⟨content, hfind⟩ := Queue.mem_names_iff.mp hx'
    obtain ⟨r, hmem, hpending, hnone | ⟨-, hstays⟩ | ⟨items', hnew, -, hless⟩⟩ :=
      hprogress x hx items hfind₀
    · rw [hpending, hnone] at hfind
      cases hfind
    · rw [hresident _ hmem] at hstays
      cases hstays
    · simp only [Queue.scan, hfind₀, hpending, hnew]
      exact hless

/-- An invocation on an orderly queue returns an orderly queue one scan
further, and has inspected the window. -/
theorem Orderly.invocation (hq : Orderly env q) (hmax : 1 ≤ maxItems) (hround : round.Smooth) :
    ∃ invocation, processPendingWork env maxItems round q = .ok invocation ∧
      Orderly env invocation.queue ∧
      Scan.Step maxItems.toNat q.scan invocation.queue.scan ∧
      ∀ x ∈ q.scan.window maxItems.toNat, x ∈ invocation.inspected.map Prod.fst := by
  unfold processPendingWork
  rw [if_neg (by simp [hround.list])]
  by_cases hnames : q.names = []
  · rw [if_pos hnames]
    refine ⟨_, rfl, hq, ⟨⟨fun _ => true, (List.filter_eq_self.mpr fun _ _ => rfl).symm,
      fun _ _ => rfl⟩, fun _ _ => Nat.le_refl _, fun hne => absurd hnames hne⟩, fun x hx => ?_⟩
    have hmem := Scan.mem_of_mem_window hx
    rw [show q.scan.keys = [] from hnames] at hmem
    cases hmem
  · rw [if_neg hnames]
    have hselect : selectScanWindow q.cursor q.names maxItems
        = .ok (q.scan.window maxItems.toNat) := by
      unfold selectScanWindow
      rw [if_neg (by rw [not_or]; exact ⟨by omega, hnames⟩)]
      cases hcursor : readScanCursor q.cursor with
      | error reason =>
        obtain ⟨reason', hescaping⟩ := readScanCursor_error_iff.mp ⟨reason, hcursor⟩
        exact absurd hescaping (hq.cursor reason')
      | ok cursor => simp only [Scan.window, Queue.scan, hcursor]
    have hnodup : (q.scan.window maxItems.toNat).Nodup := nodup_window q.sorted _
    have hne : q.scan.window maxItems.toNat ≠ [] := by
      obtain ⟨x, hx⟩ := List.exists_mem_of_ne_nil _ hnames
      exact Scan.window_ne_nil (s := q.scan) (by omega) hx
    generalize hw : q.scan.window maxItems.toNat = w at hselect hnodup hne ⊢
    have hlooked : ∃ outcomes q₁, inspectAll env round.inspection w q = .ok (outcomes, q₁)
        ∧ outcomes.map Prod.fst = w :=
      inspectAll_returns hnodup
        fun x _ content hfind => hq.escapes_eq_none (hround.inspection x) hfind
    obtain ⟨outcomes, q₁, hall, hfst⟩ := hlooked
    have hinspects := inspectAll_inspects hnodup hall
    obtain ⟨horderly, hbudget, hless⟩ := hinspects.orderly hq hround.inspection
    have hfinal : ∀ x, (moveCursor round w outcomes q₁).find x = q₁.find x
        ∧ (moveCursor round w outcomes q₁).names = q₁.names := by
      intro x
      have hmarkers := moveCursor_markers round w outcomes q₁
      exact ⟨congrArg (Dict.find x) hmarkers, congrArg (List.map Prod.fst) hmarkers⟩
    have hscan : (moveCursor round w outcomes q₁).scan.budget
        = q₁.scan.budget := by
      funext x
      simp only [Queue.scan, (hfinal x).1]
    simp only [hselect, hall]
    refine ⟨_, rfl, ⟨fun x content hfind => ?_, ?_⟩, ⟨?_, fun x hx => ?_, fun _ => ?_⟩, fun x hx => ?_⟩
    · rw [(hfinal x).1] at hfind
      exact horderly.markers x content hfind
    · unfold moveCursor
      rw [if_neg (by simp [hround.cursor])]
      split
      · intro reason hreason
        cases hreason
      · intro reason hreason
        cases hreason
    · obtain ⟨p, hp, hptrue⟩ := hinspects.sublist
      rw [hw]
      exact ⟨p, (hfinal "").2.trans hp, hptrue⟩
    · rw [hscan]
      exact hbudget x (by rw [← (hfinal x).2]; exact hx)
    · rw [hw]
      obtain ⟨last, hlast⟩ := Option.isSome_iff_exists.mp (List.getLast?_isSome.mpr hne)
      by_cases hresident : (outcomes.any fun e => e.2.isResident) = true
      · refine .inl ?_
        simp [Queue.scan, moveCursor, hround.cursor, hresident, readScanCursor, Json.get, Json.getD,
          hlast]
      · refine .inr ⟨?_, fun x hx hx' => ?_⟩
        · simp [Queue.scan, moveCursor, hround.cursor, hresident, readScanCursor, hne]
        · rw [hscan]
          refine hless (fun e he => ?_) x hx (by rw [← (hfinal x).2]; exact hx')
          have hany := List.any_eq_false.mp (Bool.eq_false_iff.mpr hresident) e he
          simpa using hany
    · rw [hfst]
      exact hx

/-! ## 5. Runs -/

/-- The directory after an invocation; one that raises leaves the scan
where it was. -/
def invoke (env : Env F) (maxItems : Int) (round : Round) (q : Queue F) : Queue F :=
  match processPendingWork env maxItems round q with
  | .ok invocation => invocation.queue
  | .error _ => q

/-- The directory before each invocation of a run. -/
def queueAt (env : Env F) (maxItems : Int) (rounds : Nat → Round) (q : Queue F) : Nat → Queue F
  | 0 => q
  | i + 1 => invoke env maxItems (rounds i) (queueAt env maxItems rounds q i)

/-- The invocation inspected the marker. -/
def InspectedAt (env : Env F) (maxItems : Int) (rounds : Nat → Round) (q : Queue F) (i : Nat)
    (name : String) : Prop :=
  ∃ invocation,
    processPendingWork env maxItems (rounds i) (queueAt env maxItems rounds q i) = .ok invocation
      ∧ name ∈ invocation.inspected.map Prod.fst

/-- Every marker is inspected within so many invocations. -/
def InspectedWithin (env : Env F) (maxItems : Int) (rounds : Nat → Round) (q : Queue F)
    (bound : Nat) : Prop :=
  ∀ name ∈ q.names, ∃ i < bound, InspectedAt env maxItems rounds q i name

/-- The bound for `n` markers. -/
def scanBound (n : Nat) : Nat := n * (maxAttempts + 1) * n + n

theorem Orderly.queueAt (hq : Orderly env q) (hmax : 1 ≤ maxItems) {rounds : Nat → Round}
    (hrounds : ∀ i, (rounds i).Smooth) : ∀ i, Orderly env (queueAt env maxItems rounds q i)
  | 0 => hq
  | i + 1 => by
      have ih := hq.queueAt hmax hrounds i
      obtain ⟨invocation, hok, horderly, -⟩ := ih.invocation hmax (hrounds i)
      rw [Workqueue.queueAt, invoke, hok]
      exact horderly

/-- A marker with its attempt count. -/
def stopMarker (markerId : String) (attempts : Json Empty) : Content Empty :=
  .object [("schema_version", .int 1), ("kind", .str "stop"), ("marker_id", .str markerId),
    ("payload", .obj []), ("attempt_count", attempts)]

/-- Two markers. -/
def twoMarkers (attempts : Json Empty) : Queue Empty where
  markers := [("a.json", stopMarker "a" attempts), ("b.json", stopMarker "b" (.int 0))]
  sorted := by
    show List.Pairwise (· < ·) ["a.json", "b.json"]
    decide

/-- Nothing fails, and the handler returns. -/
def quiet (_ : Nat) : Round := { inspection := fun _ => {} }

/-- With an attempt count that is text, the first marker fails at the
comparison and is neither counted nor passed over. -/
theorem uncountable_stays : ∀ i,
    queueAt (.plain ["stop"]) 1 quiet (twoMarkers (.str "x")) i = twoMarkers (.str "x")
  | 0 => rfl
  | i + 1 => by
      rw [queueAt, uncountable_stays i]
      rfl

end MultiForge.Workqueue
