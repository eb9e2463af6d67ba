/-
MultiForge.Workqueue.Lifecycle — one marker under many processors.

Any number of processors run `process_pending_work` on one directory. Each
goes through its invocation in small steps (list the markers, read the
cursor, read a marker, take its lock, check and read it again, decide, call
the handler, write the error, delete or move the file, release the lock),
and between any two of them the others take theirs. A marker's lock is held
by one processor at a time; nothing else orders them.

`Config.Sound` is what holds of one marker in every configuration, and
`lifecycle` what follows for its whole life: at most `MAX_ATTEMPTS` calls
of the handler, none after a call that returned, and no way out of the
directory but a call that returned or a move to `failed/` with the
attempts used up.
-/
import MultiForge.Workqueue.Queue
import Mathlib.Logic.Function.Basic

namespace MultiForge.Workqueue.Lifecycle

open RoundRobin

variable {F π : Type} [PyCount F] [DecidableEq π]

/-! ## 1. Configurations -/

/-- Where a processor is in the loop of its invocation: the window, what is
left of it, and `resident_seen`. -/
structure Loop where
  window : List String
  rest : List String
  resident : Bool

/-- A resident marker was seen. -/
def Loop.withResident (loop : Loop) : Loop := { loop with resident := true }

/-- What a processor is about to do. -/
inductive Phase (F : Type) where
  | idle
  | listed (names : List String)
  | scanning (loop : Loop)
  | admitted (name : String) (owner : Option Owner) (loop : Loop)
  | locked (name : String) (owner : Option Owner) (loop : Loop)
  | checked (name : String) (owner : Option Owner) (loop : Loop)
  | deciding (name : String) (owner : Option Owner) (items : List (String × Json F)) (loop : Loop)
  | calling (name : String) (loop : Loop)
  | failing (name error : String) (called : Bool) (loop : Loop)
  | unlinking (name : String) (loop : Loop)
  | moving (name : String) (loop : Loop)
  | releasing (name : String) (loop : Loop)

/-- The marker whose lock is held. -/
def Phase.holds : Phase F → Option String
  | .locked name _ _ => some name
  | .checked name _ _ => some name
  | .deciding name _ _ _ => some name
  | .calling name _ => some name
  | .failing name _ _ _ => some name
  | .unlinking name _ => some name
  | .moving name _ => some name
  | .releasing name _ => some name
  | _ => none

/-- What happened to a marker. -/
inductive Event (F : Type) where
  | called (name : String)
  | returned (name : String)
  | moved (name : String) (content : Content F)

structure Config (π F : Type) where
  pending : String → Option (Content F)
  failed : List (String × Content F)
  cursor : Option (Content F)
  lock : String → Option π
  phase : π → Phase F
  /-- the last event first -/
  log : List (Event F)

/-- The processor goes on to another phase. -/
def Config.go (c : Config π F) (p : π) (phase : Phase F) : Config π F :=
  { c with phase := Function.update c.phase p phase }

/-- The file under a name is replaced or removed. -/
def Config.put (c : Config π F) (name : String) (content : Option (Content F)) : Config π F :=
  { c with pending := Function.update c.pending name content }

/-! ## 2. Steps -/

/-- The admission before the lock, from the unlocked read. -/
def admission (env : Env F) (lease : Lease) (name : String) (loop : Loop) :
    Option (Content F) → Phase F
  | some (.escaping _) => .idle
  | some (.object items) => match ownership items with
    | .unowned => .admitted name none loop
    | .unidentified => .scanning loop.withResident
    | .owned root sessionName token => match lease with
      | .escapes _ => .idle
      | .refused _ => .scanning loop.withResident
      | .admitted => match env.resolve root with
        | none => .scanning loop.withResident
        | some resolved => .admitted name (some ⟨resolved, sessionName, token⟩) loop
  | _ => .admitted name none loop

/-- What follows the read under the lock. -/
def afterRead (name : String) (owner : Option Owner) (loop : Loop) : Option (Content F) → Phase F
  | none => .releasing name loop
  | some (.object items) => .deciding name owner items loop
  | some (.corrupted _) => .moving name loop
  | some (.unreadable _) => .releasing name loop.withResident
  | some (.escaping _) => .releasing name loop

/-- What follows a verdict that calls no handler. -/
def afterVerdict (name : String) (loop : Loop) : Verdict → Phase F
  | .raises => .releasing name loop
  | .changed => .releasing name loop.withResident
  | .newerSchema _ => .releasing name loop.withResident
  | .oldShape => .unlinking name loop
  | .invalid error => .failing name error false loop
  | .exhausted => .moving name loop
  | .unhandled => .releasing name loop.withResident
  | .handle => .calling name loop

/-- The cursor after the loop. -/
def cursorAfter (loop : Loop) (cursor : Option (Content F)) : Option (Content F) :=
  if loop.resident then
    some (.object [("last_marker", .str (loop.window.getLast?.getD ""))])
  else if loop.window ≠ [] then none
  else cursor

/-- One step of a processor, or of a producer that writes another marker
than `tracked`. -/
inductive Step (env : π → Env F) (maxItems : π → Int) (tracked : String) (c : Config π F) :
    Config π F → Prop where
  | list (p : π) (names : List String) : c.phase p = .idle → Sorted names →
      (∀ x, x ∈ names ↔ (c.pending x).isSome) →
      Step env maxItems tracked c (c.go p (.listed names))
  | select (p : π) {names window : List String} : c.phase p = .listed names →
      selectScanWindow c.cursor names (maxItems p) = .ok window →
      Step env maxItems tracked c (c.go p (.scanning ⟨window, window, false⟩))
  | abort (p : π) {names : List String} {reason : String} : c.phase p = .listed names →
      selectScanWindow c.cursor names (maxItems p) = .error reason →
      Step env maxItems tracked c (c.go p .idle)
  | finish (p : π) {loop : Loop} : c.phase p = .scanning loop → loop.rest = [] →
      Step env maxItems tracked c { c.go p .idle with cursor := cursorAfter loop c.cursor }
  | preread (p : π) {loop : Loop} {name : String} {rest : List String} (lease : Lease) :
      c.phase p = .scanning loop → loop.rest = name :: rest →
      Step env maxItems tracked c
        (c.go p (admission (env p) lease name { loop with rest := rest } (c.pending name)))
  | timeout (p : π) {name : String} {owner : Option Owner} {loop : Loop} :
      c.phase p = .admitted name owner loop →
      Step env maxItems tracked c (c.go p (.scanning loop.withResident))
  | acquire (p : π) {name : String} {owner : Option Owner} {loop : Loop} :
      c.phase p = .admitted name owner loop → c.lock name = none →
      Step env maxItems tracked c
        { c.go p (.locked name owner loop) with lock := Function.update c.lock name (some p) }
  | check (p : π) {name : String} {owner : Option Owner} {loop : Loop} :
      c.phase p = .locked name owner loop →
      Step env maxItems tracked c (c.go p
        (if (c.pending name).isSome then .checked name owner loop else .releasing name loop))
  | read (p : π) {name : String} {owner : Option Owner} {loop : Loop} :
      c.phase p = .checked name owner loop →
      Step env maxItems tracked c (c.go p (afterRead name owner loop (c.pending name)))
  | decide (p : π) {name : String} {owner : Option Owner} {items : List (String × Json F)}
      {loop : Loop} : c.phase p = .deciding name owner items loop →
      verdict (env p) owner items ≠ .handle →
      Step env maxItems tracked c (c.go p (afterVerdict name loop (verdict (env p) owner items)))
  | call (p : π) {name : String} {owner : Option Owner} {items : List (String × Json F)}
      {loop : Loop} : c.phase p = .deciding name owner items loop →
      verdict (env p) owner items = .handle →
      Step env maxItems tracked c
        { c.go p (.calling name loop) with log := .called name :: c.log }
  | returns (p : π) {name : String} {loop : Loop} : c.phase p = .calling name loop →
      Step env maxItems tracked c
        { c.go p (.unlinking name loop) with log := .returned name :: c.log }
  | raises (p : π) {name : String} {loop : Loop} (e : String) : c.phase p = .calling name loop →
      Step env maxItems tracked c (c.go p (.failing name ("handler error: " ++ e) true loop))
  | write (p : π) {name error : String} {called : Bool} {loop : Loop}
      {items items' : List (String × Json F)} {count : Json F} (now : String) :
      c.phase p = .failing name error called loop → c.pending name = some (.object items) →
      withError (env p) now error items = some (items', count) →
      Step env maxItems tracked c ((c.put name (some (.object items'))).go p
        (if exhausted? count = some true then .moving name loop else .releasing name loop))
  | writeNothing (p : π) {name error : String} {called : Bool} {loop : Loop} (now : String) :
      c.phase p = .failing name error called loop →
      (∀ items, c.pending name = some (.object items) →
        withError (env p) now error items = none) →
      Step env maxItems tracked c (c.go p (.releasing name loop))
  | unlink (p : π) {name : String} {loop : Loop} : c.phase p = .unlinking name loop →
      Step env maxItems tracked c ((c.put name none).go p (.releasing name loop))
  | move (p : π) {name : String} {content : Content F} {loop : Loop} :
      c.phase p = .moving name loop → c.pending name = some content →
      Step env maxItems tracked c { (c.put name none).go p (.releasing name loop) with
        failed := (name, content) :: c.failed
        log := .moved name content :: c.log }
  | moveFails (p : π) {name : String} {loop : Loop} : c.phase p = .moving name loop →
      Step env maxItems tracked c (c.go p (.releasing name loop))
  | release (p : π) {name : String} {loop : Loop} : c.phase p = .releasing name loop →
      Step env maxItems tracked c
        { c.go p (.scanning loop) with lock := Function.update c.lock name none }
  | enqueue (name : String) (items : List (String × Json F)) : name ≠ tracked →
      c.lock name = none →
      Step env maxItems tracked c (c.put name (some (.object items)))

/-- The configurations of a run. -/
inductive Reachable (env : π → Env F) (maxItems : π → Int) (tracked : String) (c₀ : Config π F) :
    Config π F → Prop where
  | start : Reachable env maxItems tracked c₀ c₀
  | step {c c' : Config π F} : Reachable env maxItems tracked c₀ c →
      Step env maxItems tracked c c' → Reachable env maxItems tracked c₀ c'

/-! ## 3. Locks -/

variable {env : π → Env F} {maxItems : π → Int} {name : String} {c c' : Config π F} {p q : π}

/-- A lock is held by the processor that is inside it. -/
def Locks (c : Config π F) : Prop := ∀ p x, (c.phase p).holds = some x ↔ c.lock x = some p

omit [PyCount F] in
@[simp] theorem go_self (c : Config π F) (p : π) (phase : Phase F) :
    (c.go p phase).phase p = phase := by
  simp [Config.go]

omit [PyCount F] in
theorem go_other (phase : Phase F) (h : q ≠ p) : (c.go p phase).phase q = c.phase q := by
  simp [Config.go, h]

omit [PyCount F] [DecidableEq π] in
theorem Locks.unique (h : Locks c) {x : String} (hp : (c.phase p).holds = some x)
    (hq : (c.phase q).holds = some x) : q = p :=
  Option.some.inj (((h q x).mp hq).symm.trans ((h p x).mp hp))

omit [PyCount F] in
theorem Locks.go (h : Locks c) (phase : Phase F) (hholds : phase.holds = (c.phase p).holds) :
    Locks (c.go p phase) := by
  intro q x
  by_cases hq : q = p
  · subst hq
    rw [go_self, hholds]
    exact h q x
  · rw [go_other phase hq]
    exact h q x

omit [PyCount F] in
theorem Locks.acquire (h : Locks c) {x : String} {phase : Phase F} (hfree : c.lock x = none)
    (hout : (c.phase p).holds = none) (hin : phase.holds = some x) :
    Locks { c.go p phase with lock := Function.update c.lock x (some p) } := by
  intro q y
  show ((c.go p phase).phase q).holds = some y ↔ Function.update c.lock x (some p) y = some q
  by_cases hq : q = p
  · subst hq
    rw [go_self, hin]
    by_cases hy : y = x
    · subst hy
      simp
    · have hfree' : ¬ c.lock y = some q := by
        rw [← h q y, hout]
        rintro ⟨⟩
      simp [Function.update_of_ne hy, hfree', Ne.symm hy]
  · rw [go_other phase hq]
    by_cases hy : y = x
    · subst hy
      have hnot : ¬ (c.phase q).holds = some y := by
        rw [h q y, hfree]
        rintro ⟨⟩
      simp [hnot, Ne.symm hq]
    · rw [Function.update_of_ne hy]
      exact h q y

omit [PyCount F] in
theorem Locks.release (h : Locks c) {x : String} {phase : Phase F}
    (hin : (c.phase p).holds = some x) (hout : phase.holds = none) :
    Locks { c.go p phase with lock := Function.update c.lock x none } := by
  intro q y
  show ((c.go p phase).phase q).holds = some y ↔ Function.update c.lock x none y = some q
  by_cases hq : q = p
  · subst hq
    rw [go_self, hout]
    by_cases hy : y = x
    · subst hy
      simp
    · have hnot : ¬ c.lock y = some q := by
        rw [← h q y, hin]
        exact fun e => hy (Option.some.inj e).symm
      simp [Function.update_of_ne hy, hnot]
  · rw [go_other phase hq]
    by_cases hy : y = x
    · subst hy
      have hnot : ¬ (c.phase q).holds = some y := fun e => hq (h.unique hin e)
      simp [hnot]
    · rw [Function.update_of_ne hy]
      exact h q y

omit [DecidableEq π] in
theorem holds_admission (env : Env F) (lease : Lease) (x : String) (loop : Loop)
    (content : Option (Content F)) : (admission env lease x loop content).holds = none := by
  unfold admission
  repeat' split
  all_goals rfl

omit [PyCount F] in
theorem holds_afterRead (x : String) (owner : Option Owner) (loop : Loop)
    (content : Option (Content F)) : (afterRead x owner loop content).holds = some x := by
  unfold afterRead
  split <;> rfl

omit [PyCount F] in
theorem holds_afterVerdict (x : String) (loop : Loop) (v : Verdict) :
    (afterVerdict x loop v : Phase F).holds = some x := by
  cases v <;> rfl

/-- Every step keeps the locks. -/
theorem Locks.step {tracked : String} (h : Locks c) (hs : Step env maxItems tracked c c') :
    Locks c' := by
  cases hs with
  | list p names hp hsorted hnames => exact h.go _ (by rw [hp]; rfl)
  | select p hp hwindow => exact h.go _ (by rw [hp]; rfl)
  | abort p hp herror => exact h.go _ (by rw [hp]; rfl)
  | finish p hp hrest => exact h.go .idle (by rw [hp]; rfl)
  | preread p lease hp hrest => exact h.go _ (by rw [hp, holds_admission]; rfl)
  | timeout p hp => exact h.go _ (by rw [hp]; rfl)
  | acquire p hp hfree => exact h.acquire hfree (by rw [hp]; rfl) rfl
  | check p hp => exact h.go _ (by rw [hp]; split <;> rfl)
  | read p hp => exact h.go _ (by rw [hp, holds_afterRead]; rfl)
  | decide p hp hverdict => exact h.go _ (by rw [hp, holds_afterVerdict]; rfl)
  | call p hp hverdict => exact h.go (.calling _ _) (by rw [hp]; rfl)
  | returns p hp => exact h.go (.unlinking _ _) (by rw [hp]; rfl)
  | raises p e hp => exact h.go _ (by rw [hp]; rfl)
  | write p now hp hpending hwrite =>
    exact Locks.go (c := c.put _ _) h _ (by show _ = (c.phase p).holds; rw [hp]; split <;> rfl)
  | writeNothing p now hp hnothing => exact h.go _ (by rw [hp]; rfl)
  | unlink p hp => exact Locks.go (c := c.put _ _) h _ (by show _ = (c.phase p).holds; rw [hp]; rfl)
  | move p hp hpending =>
    exact Locks.go (c := c.put _ _) h (.releasing _ _)
      (by show _ = (c.phase p).holds; rw [hp]; rfl)
  | moveFails p hp => exact h.go _ (by rw [hp]; rfl)
  | release p hp => exact h.release (by rw [hp]; rfl) rfl
  | enqueue x items hne hfree => exact h

/-! ## 4. One marker -/

omit [DecidableEq π] in
/-- What the verdicts that lead on from an inspection say of the marker. -/
theorem verdict_meaning {env : Env F} {owner : Option Owner} {items : List (String × Json F)} :
    (verdict env owner items = .oldShape → Json.hasKey items "marker_id" = false) ∧
    (verdict env owner items = .exhausted → exhausted? (attemptCount items) = some true) ∧
    (verdict env owner items = .handle → exhausted? (attemptCount items) = some false) := by
  unfold verdict
  split
  · exact ⟨nofun, nofun, nofun⟩
  · exact ⟨nofun, nofun, nofun⟩
  · unfold judge
    split
    · exact ⟨nofun, nofun, nofun⟩
    · split
      · rename_i hold
        simp only [isOldShape, Bool.and_eq_true, Bool.not_eq_true'] at hold
        exact ⟨fun _ => hold.1, nofun, nofun⟩
      · split
        · exact ⟨nofun, nofun, nofun⟩
        · split
          · exact ⟨nofun, nofun, nofun⟩
          · exact ⟨nofun, fun _ => by assumption, nofun⟩
          · split
            · exact ⟨nofun, nofun, fun _ => by assumption⟩
            · exact ⟨nofun, nofun, nofun⟩

/-- The marker the event is about. -/
def Event.marker : Event F → String
  | .called x => x
  | .returned x => x
  | .moved x _ => x

/-- A call of the marker's handler. -/
def Event.isCall (name : String) : Event F → Bool
  | .called x => x = name
  | _ => false

/-- How often the handler was called for the marker. -/
def Config.calls (name : String) (c : Config π F) : Nat := c.log.countP (Event.isCall name)

/-- A call is under way: the handler runs, or its result has not reached
the file. -/
def Phase.Engaged (name : String) : Phase F → Prop
  | .calling x _ => x = name
  | .failing x _ called _ => x = name ∧ called = true
  | .unlinking x _ => x = name
  | _ => False

/-- The file holds a marker with this many attempts. -/
def HasAttempts (name : String) (c : Config π F) (items : List (String × Json F)) (n : Nat) :
    Prop :=
  c.pending name = some (.object items) ∧ Json.hasKey items "marker_id" = true
    ∧ attemptCount items = .int n

/-- What a processor relies on while it holds the marker's lock. -/
def PhaseOk (name : String) (c : Config π F) : Phase F → Prop
  | .deciding x _ items _ => x = name → c.pending name = some (.object items)
  | .calling x _ =>
      x = name → ∃ items n, HasAttempts name c items n ∧ n < maxAttempts ∧ c.calls name ≤ n + 1
  | .failing x _ called _ => x = name → called = true →
      ∃ items n, HasAttempts name c items n ∧ n < maxAttempts ∧ c.calls name ≤ n + 1
  | .unlinking x _ => x = name → .returned name ∈ c.log
  | .moving x _ => x = name → ∃ items n, HasAttempts name c items n ∧ maxAttempts ≤ n
  | _ => True

/-- What holds of the marker in every configuration. -/
structure Sound (name : String) (c : Config π F) : Prop where
  locks : Locks c
  file : ∀ content, c.pending name = some content →
    ∃ items n, content = .object items ∧ HasAttempts name c items n
  /-- while no call is under way, each call has been counted in the file -/
  counted : ∀ items n, HasAttempts name c items n → (∀ p, ¬ (c.phase p).Engaged name) →
    c.calls name ≤ n
  phases : ∀ p, PhaseOk name c (c.phase p)
  calls : c.calls name ≤ maxAttempts
  /-- after a call that returned the file is gone, or about to be deleted -/
  returned : .returned name ∈ c.log → c.pending name = none ∨ ∃ p loop, c.phase p = .unlinking name loop
  last : ∀ later earlier, c.log = later ++ .returned name :: earlier →
    ∀ e ∈ later, e.isCall name = false
  left : c.pending name = none → .returned name ∈ c.log ∨
    ∃ items n, .moved name (.object items) ∈ c.log ∧ attemptCount items = .int n ∧ (maxAttempts : Int) ≤ n

omit [PyCount F] [DecidableEq π] in
theorem PhaseOk.of_not_holds {phase : Phase F} (h : phase.holds ≠ some name) :
    PhaseOk name c phase := by
  cases phase with
  | deciding x owner items loop => exact fun e => absurd (congrArg some e) h
  | calling x loop => exact fun e => absurd (congrArg some e) h
  | failing x error called loop => exact fun e => absurd (congrArg some e) h
  | unlinking x loop => exact fun e => absurd (congrArg some e) h
  | moving x loop => exact fun e => absurd (congrArg some e) h
  | _ => trivial

omit [PyCount F] [DecidableEq π] in
theorem Phase.Engaged.holds {phase : Phase F} (h : phase.Engaged name) : phase.holds = some name := by
  cases phase with
  | calling x loop => exact congrArg some h
  | failing x error called loop => exact congrArg some h.1
  | unlinking x loop => exact congrArg some h
  | _ => cases h

/-- What a step leaves alone: the marker's file and its events. -/
structure Apart (name : String) (c c' : Config π F) : Prop where
  pending : c'.pending name = c.pending name
  log : c'.log = c.log ∨ ∃ e, c'.log = e :: c.log ∧ e.marker ≠ name

namespace Apart

omit [PyCount F] [DecidableEq π]

theorem calls (h : Apart name c c') : c'.calls name = c.calls name := by
  unfold Config.calls
  rcases h.log with hlog | ⟨e, hlog, hne⟩
  · rw [hlog]
  · have hcall : e.isCall name = false := by
      cases e with
      | called x => exact decide_eq_false hne
      | returned x => rfl
      | moved x content => rfl
    rw [hlog, List.countP_cons_of_neg (by simp [hcall])]

theorem mem_log (h : Apart name c c') {e : Event F} (he : e.marker = name) :
    e ∈ c'.log ↔ e ∈ c.log := by
  rcases h.log with hlog | ⟨e', hlog, hne⟩
  · rw [hlog]
  · rw [hlog, List.mem_cons, or_iff_right]
    rintro rfl
    exact hne he

theorem hasAttempts (h : Apart name c c') {items : List (String × Json F)} {n : Nat} :
    HasAttempts name c' items n ↔ HasAttempts name c items n := by
  rw [HasAttempts, HasAttempts, h.pending]

theorem phaseOk (h : Apart name c c') {phase : Phase F} (hok : PhaseOk name c phase) :
    PhaseOk name c' phase := by
  cases phase with
  | deciding x owner items loop => exact fun e => h.pending.trans (hok e)
  | calling x loop =>
    intro e
    obtain ⟨items, n, hattempts, hlt, hcalls⟩ := hok e
    exact ⟨items, n, h.hasAttempts.mpr hattempts, hlt, by rw [h.calls]; exact hcalls⟩
  | failing x error called loop =>
    intro e hcalled
    obtain ⟨items, n, hattempts, hlt, hcalls⟩ := hok e hcalled
    exact ⟨items, n, h.hasAttempts.mpr hattempts, hlt, by rw [h.calls]; exact hcalls⟩
  | unlinking x loop => exact fun e => (h.mem_log rfl).mpr (hok e)
  | moving x loop =>
    intro e
    obtain ⟨items, n, hattempts, hle⟩ := hok e
    exact ⟨items, n, h.hasAttempts.mpr hattempts, hle⟩
  | _ => trivial

theorem last (h : Apart name c c')
    (hlast : ∀ later earlier, c.log = later ++ .returned name :: earlier →
      ∀ e ∈ later, e.isCall name = false) :
    ∀ later earlier, c'.log = later ++ .returned name :: earlier →
      ∀ e ∈ later, e.isCall name = false := by
  intro later earlier heq
  rcases h.log with hlog | ⟨e', hlog, hne⟩
  · exact hlast later earlier (hlog ▸ heq)
  · rw [hlog] at heq
    cases later with
    | nil =>
      rw [List.nil_append, List.cons.injEq] at heq
      exact absurd (congrArg Event.marker heq.1) hne
    | cons d later =>
      rw [List.cons_append, List.cons.injEq] at heq
      intro e he
      rcases List.mem_cons.mp he with rfl | he
      · rw [← heq.1]
        cases e' with
        | called x => exact decide_eq_false hne
        | returned x => rfl
        | moved x content => rfl
      · exact hlast later earlier heq.2 e he

end Apart

omit [PyCount F] [DecidableEq π] in
/-- A step that leaves the marker's file and events alone keeps what holds
of it, if each processor stays where it is or keeps to the rules. -/
theorem Sound.apart (h : Sound name c) (hlocks : Locks c') (hapart : Apart name c c')
    (hphase : ∀ q, c'.phase q = c.phase q ∨ PhaseOk name c' (c'.phase q)
      ∧ ((c.phase q).Engaged name → (c'.phase q).Engaged name)
      ∧ ∀ loop, c.phase q ≠ .unlinking name loop) : Sound name c' where
  locks := hlocks
  file := by
    intro content hcontent
    rw [hapart.pending] at hcontent
    obtain ⟨items, n, rfl, hattempts⟩ := h.file content hcontent
    exact ⟨items, n, rfl, hapart.hasAttempts.mpr hattempts⟩
  counted := by
    intro items n hattempts hnone
    rw [hapart.calls]
    refine h.counted items n (hapart.hasAttempts.mp hattempts) fun q hq => hnone q ?_
    rcases hphase q with hsame | ⟨-, hengaged, -⟩
    · rw [hsame]
      exact hq
    · exact hengaged hq
  phases := by
    intro q
    rcases hphase q with hsame | ⟨hok, -, -⟩
    · rw [hsame]
      exact hapart.phaseOk (h.phases q)
    · exact hok
  calls := by
    rw [hapart.calls]
    exact h.calls
  returned := by
    intro hmem
    rw [hapart.pending]
    rcases h.returned ((hapart.mem_log rfl).mp hmem) with hnone | ⟨q, loop, hq⟩
    · exact .inl hnone
    · rcases hphase q with hsame | ⟨-, -, hunlink⟩
      · exact .inr ⟨q, loop, hsame.trans hq⟩
      · exact absurd hq (hunlink loop)
  last := hapart.last h.last
  left := by
    intro hnone
    rw [hapart.pending] at hnone
    rcases h.left hnone with hmem | ⟨items, n, hmem, hrest⟩
    · exact .inl ((hapart.mem_log rfl).mpr hmem)
    · exact .inr ⟨items, n, (hapart.mem_log rfl).mpr hmem, hrest⟩

omit [PyCount F] in
/-- Such a step by one processor. -/
theorem Sound.by (h : Sound name c) {phase : Phase F} (hlocks : Locks c') (hapart : Apart name c c')
    (hphase : c'.phase = (c.go p phase).phase) (hok : PhaseOk name c' phase)
    (hengaged : (c.phase p).Engaged name → phase.Engaged name)
    (hunlink : ∀ loop, c.phase p ≠ .unlinking name loop) : Sound name c' := by
  refine h.apart hlocks hapart fun q => ?_
  rw [hphase]
  by_cases hq : q = p
  · subst hq
    rw [go_self]
    exact .inr ⟨hok, hengaged, hunlink⟩
  · exact .inl (go_other phase hq)

/-! ## 5. Steps and the marker -/

omit [PyCount F] in
/-- A step that changes the phase only. -/
theorem Sound.go (h : Sound name c) {phase : Phase F} (hholds : phase.holds = (c.phase p).holds)
    (hok : PhaseOk name c phase) (hengaged : (c.phase p).Engaged name → phase.Engaged name)
    (hunlink : ∀ loop, c.phase p ≠ .unlinking name loop) : Sound name (c.go p phase) :=
  h.by (h.locks.go _ hholds) ⟨rfl, .inl rfl⟩ rfl (Apart.phaseOk ⟨rfl, .inl rfl⟩ hok) hengaged hunlink

omit [PyCount F] [DecidableEq π] in
/-- While a processor holds the lock without a call, none is under way. -/
theorem Sound.not_engaged (h : Sound name c) (hp : (c.phase p).holds = some name)
    (hidle : ¬ (c.phase p).Engaged name) (q : π) : ¬ (c.phase q).Engaged name := by
  intro hq
  obtain rfl := h.locks.unique hp hq.holds
  exact hidle hq

omit [PyCount F] [DecidableEq π] in
/-- A call that returned and a file that is still there: the file is about
to be deleted by the processor that holds the lock. -/
theorem Sound.not_returned (h : Sound name c) (hp : (c.phase p).holds = some name)
    (hunlink : ∀ loop, c.phase p ≠ .unlinking name loop) {content : Content F}
    (hfile : c.pending name = some content) : .returned name ∉ c.log := by
  intro hmem
  rcases h.returned hmem with hnone | ⟨q, loop, hq⟩
  · rw [hfile] at hnone
    cases hnone
  · obtain rfl := h.locks.unique hp (by rw [hq]; rfl : (c.phase q).holds = some name)
    exact hunlink loop hq

omit [PyCount F] [DecidableEq π] in
/-- No call comes after one that returned. -/
theorem last_of_not_mem {log : List (Event F)} (h : .returned name ∉ log) (e : Event F)
    (later earlier : List (Event F)) (heq : e :: log = later ++ .returned name :: earlier) :
    ∀ e ∈ later, e.isCall name = false := by
  cases later with
  | nil => exact nofun
  | cons d later =>
    rw [List.cons_append, List.cons.injEq] at heq
    exact absurd (heq.2 ▸ List.mem_append_right later List.mem_cons_self) h

/-- The handler of the marker is called. -/
theorem Sound.call (h : Sound name c) {env : Env F} {owner : Option Owner}
    {items : List (String × Json F)} {loop : Loop} (hp : c.phase p = .deciding name owner items loop)
    (hverdict : verdict env owner items = .handle) :
    Sound name { c.go p (.calling name loop) with log := .called name :: c.log } := by
  have hfile : c.pending name = some (.object items) := by
    have hok := h.phases p
    rw [hp] at hok
    exact hok rfl
  have hholds : (c.phase p).holds = some name := by rw [hp]; rfl
  obtain ⟨items', n, heq, hattempts⟩ := h.file _ hfile
  cases heq
  have hlt : n < maxAttempts := by
    have hcount := verdict_meaning.2.2 hverdict
    rw [hattempts.2.2] at hcount
    simpa [exhausted?] using hcount
  have hcalls := h.counted items n hattempts (h.not_engaged hholds (by rw [hp]; exact not_false))
  have hnew : ∀ c' : Config π F, c'.log = .called name :: c.log → c'.calls name = c.calls name + 1 := by
    intro c' hlog
    rw [Config.calls, hlog, List.countP_cons_of_pos (by simp [Event.isCall])]
    rfl
  have hother : ∀ q ≠ p, (c.phase q).holds ≠ some name := fun q hq hq' => hq (h.locks.unique hholds hq')
  have hnot := h.not_returned hholds (by rw [hp]; exact nofun) hfile
  refine ⟨Locks.go h.locks (.calling name loop) (by rw [hp]; rfl), h.file, ?_, ?_, ?_, ?_,
    ?_, ?_⟩
  · intro items' n' _ hnone
    exact absurd (show ((c.go p (.calling name loop)).phase p).Engaged name by
      rw [go_self]; rfl) (hnone p)
  · intro q
    by_cases hq : q = p
    · subst hq
      show PhaseOk name _ ((c.go q (.calling name loop)).phase q)
      rw [go_self]
      intro _
      exact ⟨items, n, hattempts, hlt, by rw [hnew _ rfl]; omega⟩
    · refine PhaseOk.of_not_holds ?_
      show ((c.go p (.calling name loop)).phase q).holds ≠ some name
      rw [go_other _ hq]
      exact hother q hq
  · rw [hnew _ rfl]
    omega
  · intro hmem
    rcases List.mem_cons.mp hmem with heq | hmem
    · cases heq
    · exact absurd hmem hnot
  · exact fun later earlier heq => last_of_not_mem hnot _ later earlier heq
  · intro hnone
    rw [show c.pending name = none from hnone] at hfile
    cases hfile

omit [PyCount F] in
/-- The handler returned. -/
theorem Sound.returns (h : Sound name c) {loop : Loop} (hp : c.phase p = .calling name loop) :
    Sound name { c.go p (.unlinking name loop) with log := .returned name :: c.log } := by
  have hok := h.phases p
  rw [hp] at hok
  obtain ⟨items, n, hattempts, -, -⟩ := hok rfl
  have hholds : (c.phase p).holds = some name := by rw [hp]; rfl
  have hnot := h.not_returned hholds (by rw [hp]; exact nofun) hattempts.1
  have hcalls : ∀ c' : Config π F, c'.log = .returned name :: c.log → c'.calls name = c.calls name := by
    intro c' hlog
    rw [Config.calls, hlog, List.countP_cons_of_neg (by simp [Event.isCall])]
    rfl
  have hphase : ((c.go p (.unlinking name loop)).phase p) = .unlinking name loop := go_self c p _
  refine ⟨Locks.go h.locks (.unlinking name loop) (by rw [hp]; rfl), h.file, ?_, ?_, ?_, ?_,
    ?_, fun _ => .inl List.mem_cons_self⟩
  · intro items' n' _ hnone
    exact absurd (show ((c.go p (.unlinking name loop)).phase p).Engaged name by
      rw [hphase]; rfl) (hnone p)
  · intro q
    by_cases hq : q = p
    · subst hq
      show PhaseOk name _ ((c.go q (.unlinking name loop)).phase q)
      rw [go_self]
      exact fun _ => List.mem_cons_self
    · refine PhaseOk.of_not_holds ?_
      show ((c.go p (.unlinking name loop)).phase q).holds ≠ some name
      rw [go_other _ hq]
      exact fun hq' => hq (h.locks.unique hholds hq')
  · rw [hcalls _ rfl]
    exact h.calls
  · exact fun _ => .inr ⟨p, loop, hphase⟩
  · exact fun later earlier heq => last_of_not_mem hnot _ later earlier heq

/-- The failure is written into the file. -/
theorem Sound.write (h : Sound name c) {env : Env F} {now error : String} {called : Bool}
    {loop : Loop} {items items' : List (String × Json F)} {count : Json F}
    (hp : c.phase p = .failing name error called loop)
    (hfile : c.pending name = some (.object items))
    (hwrite : withError env now error items = some (items', count)) :
    Sound name ((c.put name (some (.object items'))).go p
      (if exhausted? count = some true then .moving name loop else .releasing name loop)) := by
  obtain ⟨items₀, n, heq, -, hmarker, hcount⟩ := h.file _ hfile
  cases heq
  obtain ⟨hadd, -, hattempts, hsame⟩ := withError_cases hwrite
  rw [hcount, addOne?] at hadd
  obtain rfl := Option.some.inj hadd
  have hholds : (c.phase p).holds = some name := by rw [hp]; rfl
  have hput : (c.put name (some (.object items'))).pending name = some (.object items') :=
    Function.update_self name _ c.pending
  have hmarker' : Json.hasKey items' "marker_id" = true := by
    rw [Json.hasKey, hsame "marker_id" (by decide)]
    exact hmarker
  have hnew : ∀ phase : Phase F, HasAttempts name
      ((c.put name (some (.object items'))).go p phase) items' (n + 1) :=
    fun _ => ⟨hput, hmarker', hattempts⟩
  have hcalls : c.calls name ≤ n + 1 := by
    have hok := h.phases p
    rw [hp] at hok
    cases called with
    | true =>
      obtain ⟨items₁, m, ⟨hfile', -, hcount'⟩, -, hle⟩ := hok rfl rfl
      rw [hfile] at hfile'
      cases hfile'
      rw [hcount] at hcount'
      cases hcount'
      exact hle
    | false =>
      have hle := h.counted items n ⟨hfile, hmarker, hcount⟩
        (h.not_engaged hholds (by rw [hp]; exact fun e => Bool.false_ne_true e.2))
      omega
  have hnot := h.not_returned hholds (by rw [hp]; exact nofun) hfile
  refine ⟨?_, ?_, ?_, ?_, h.calls, fun hmem => absurd hmem hnot, h.last, fun hnone => ?_⟩
  · refine Locks.go (c := c.put name (some (.object items'))) h.locks _ ?_
    show _ = (c.phase p).holds
    rw [hholds]
    split <;> rfl
  · intro content hcontent
    obtain rfl := Option.some.inj (hput.symm.trans hcontent)
    exact ⟨items', n + 1, rfl, hnew _⟩
  · intro items₁ m hattempts' _
    obtain ⟨hfile', -, hcount'⟩ := hattempts'
    obtain rfl := Content.object.inj (Option.some.inj (hput.symm.trans hfile'))
    rw [hattempts] at hcount'
    have hm := Json.int.inj hcount'
    have hle : c.calls name ≤ m := by omega
    exact hle
  · intro q
    by_cases hq : q = p
    · subst hq
      rw [go_self]
      split
      · rename_i hexhausted
        intro _
        refine ⟨items', n + 1, hnew _, ?_⟩
        simp only [exhausted?, Option.some.injEq, decide_eq_true_eq] at hexhausted
        omega
      · trivial
    · refine PhaseOk.of_not_holds ?_
      rw [go_other _ hq]
      exact fun hq' => hq (h.locks.unique hholds hq')
  · exact absurd (hput.symm.trans hnone) nofun

omit [PyCount F] in
/-- The file goes away after a call that returned or with the attempts used
up. -/
theorem Sound.remove (h : Sound name c) {loop : Loop} (hholds : (c.phase p).holds = some name)
    (hlog : c'.log = c.log ∨ ∃ content, c'.log = .moved name content :: c.log)
    (hpending : c'.pending name = none) (hlocks : Locks c')
    (hphase : c'.phase = (c.go p (.releasing name loop)).phase)
    (hleft : .returned name ∈ c'.log ∨ ∃ items n, .moved name (.object items) ∈ c'.log
      ∧ attemptCount items = .int n ∧ (maxAttempts : Int) ≤ n) : Sound name c' := by
  have hcalls : c'.calls name = c.calls name := by
    unfold Config.calls
    rcases hlog with hlog | ⟨content, hlog⟩
    · rw [hlog]
    · rw [hlog, List.countP_cons_of_neg (by simp [Event.isCall])]
  refine ⟨hlocks, fun content hcontent => ?_, fun items n hattempts _ => ?_, fun q => ?_, ?_,
    fun _ => .inl hpending, ?_, fun _ => hleft⟩
  · rw [hpending] at hcontent
    cases hcontent
  · have hfile := hattempts.1
    rw [hpending] at hfile
    cases hfile
  · rw [hphase]
    by_cases hq : q = p
    · subst hq
      rw [go_self]
      trivial
    · rw [go_other _ hq]
      exact PhaseOk.of_not_holds fun hq' => hq (h.locks.unique hholds hq')
  · rw [hcalls]
    exact h.calls
  · intro later earlier heq
    rcases hlog with hlog | ⟨content, hlog⟩
    · exact h.last later earlier (hlog ▸ heq)
    · rw [hlog] at heq
      cases later with
      | nil =>
        rw [List.nil_append, List.cons.injEq] at heq
        cases heq.1
      | cons d later =>
        rw [List.cons_append, List.cons.injEq] at heq
        intro e he
        rcases List.mem_cons.mp he with rfl | he
        · rw [← heq.1]
          rfl
        · exact h.last later earlier heq.2 e he

/-! ## 6. Runs -/

/-- The attempt count that has been counted to can be written. -/
theorem withError_isSome {env : Env F} {now error : String} {items : List (String × Json F)} {n : Nat}
    (hn : n < maxAttempts) (hcount : attemptCount items = .int n) :
    withError env now error items ≠ none := by
  have hwritable : isWritable env (.int ((n : Int) + 1) : Json F) = true := by
    rcases env.limit with hzero | hlimit
    · simp [isWritable, hzero]
    · have hten : 10 ^ 1 ≤ 10 ^ env.intMaxStrDigits := Nat.pow_le_pow_right (by decide) (by omega)
      have hlt : ((n : Int) + 1).natAbs < 10 ^ env.intMaxStrDigits := by
        unfold maxAttempts at hn
        omega
      simp [isWritable, hlt]
  unfold withError
  rw [hcount, addOne?]
  simp only
  rw [if_pos hwritable]
  exact nofun

/-- Every step keeps what holds of the marker. -/
theorem Sound.step (h : Sound name c) (hs : Step env maxItems name c c') : Sound name c' := by
  have hlocks := h.locks.step hs
  cases hs with
  | list p names hp hsorted hnames =>
    exact h.go (by rw [hp]; rfl) trivial (by rw [hp]; exact False.elim) (by rw [hp]; rintro _ ⟨⟩)
  | select p hp hwindow =>
    exact h.go (by rw [hp]; rfl) trivial (by rw [hp]; exact False.elim) (by rw [hp]; rintro _ ⟨⟩)
  | abort p hp herror =>
    exact h.go (by rw [hp]; rfl) trivial (by rw [hp]; exact False.elim) (by rw [hp]; rintro _ ⟨⟩)
  | finish p hp hrest =>
    exact h.by hlocks ⟨rfl, .inl rfl⟩ rfl trivial (by rw [hp]; exact False.elim)
      (by rw [hp]; rintro _ ⟨⟩)
  | preread p lease hp hrest =>
    have hout := holds_admission (env p) lease
    exact h.go (by rw [hp, hout]; rfl) (PhaseOk.of_not_holds (by rw [hout]; rintro ⟨⟩))
      (by rw [hp]; exact False.elim) (by rw [hp]; rintro _ ⟨⟩)
  | timeout p hp =>
    exact h.go (by rw [hp]; rfl) trivial (by rw [hp]; exact False.elim) (by rw [hp]; rintro _ ⟨⟩)
  | acquire p hp hfree =>
    exact h.by hlocks ⟨rfl, .inl rfl⟩ rfl trivial (by rw [hp]; exact False.elim)
      (by rw [hp]; rintro _ ⟨⟩)
  | check p hp =>
    exact h.go (by rw [hp]; split <;> rfl) (by split <;> trivial) (by rw [hp]; exact False.elim)
      (by rw [hp]; rintro _ ⟨⟩)
  | @read p x owner loop hp =>
    refine h.go (by rw [hp, holds_afterRead]; rfl) ?_ (by rw [hp]; exact False.elim)
      (by rw [hp]; rintro _ ⟨⟩)
    cases hfile : c.pending x with
    | none => trivial
    | some content =>
      cases content with
      | object items =>
        intro hx
        rw [← hx]
        exact hfile
      | corrupted reason =>
        -- the file of this marker always holds an object
        intro hx
        obtain ⟨items, n, heq, -⟩ := h.file _ (hx ▸ hfile)
        cases heq
      | unreadable reason => trivial
      | escaping reason => trivial
  | @decide p x owner items loop hp hverdict =>
    have hok := h.phases p
    rw [hp] at hok
    refine h.go (by rw [hp, holds_afterVerdict]; rfl) ?_ (by rw [hp]; exact False.elim)
      (by rw [hp]; rintro _ ⟨⟩)
    cases hv : verdict (env p) owner items with
    | handle => exact absurd hv hverdict
    | oldShape =>
      intro hx
      obtain ⟨items', n, heq, -, hmarker, -⟩ := h.file _ (hok hx)
      cases heq
      rw [verdict_meaning.1 hv] at hmarker
      cases hmarker
    | invalid error =>
      intro _ hcalled
      cases hcalled
    | exhausted =>
      intro hx
      obtain ⟨items', n, heq, hattempts⟩ := h.file _ (hok hx)
      cases heq
      refine ⟨items, n, hattempts, ?_⟩
      have hcount := verdict_meaning.2.1 hv
      rw [hattempts.2.2] at hcount
      simpa [exhausted?] using hcount
    | raises => trivial
    | changed => trivial
    | newerSchema version => trivial
    | unhandled => trivial
  | @call p x owner items loop hp hverdict =>
    by_cases hx : x = name
    · subst hx
      exact h.call hp hverdict
    · exact h.by hlocks ⟨rfl, .inr ⟨_, rfl, hx⟩⟩ rfl (fun e => absurd e hx)
        (by rw [hp]; exact False.elim) (by rw [hp]; rintro _ ⟨⟩)
  | @returns p x loop hp =>
    by_cases hx : x = name
    · subst hx
      exact h.returns hp
    · exact h.by hlocks ⟨rfl, .inr ⟨_, rfl, hx⟩⟩ rfl (fun e => absurd e hx)
        (by rw [hp]; exact fun e => absurd e hx) (by rw [hp]; rintro _ ⟨⟩)
  | @raises p x loop e hp =>
    have hok := h.phases p
    rw [hp] at hok
    exact h.go (by rw [hp]; rfl) (fun hx _ => hok hx) (by rw [hp]; exact fun hx => ⟨hx, rfl⟩)
      (by rw [hp]; rintro _ ⟨⟩)
  | @write p x error called loop items items' count now hp hfile hwrite =>
    by_cases hx : x = name
    · subst hx
      exact h.write hp hfile hwrite
    · refine h.by hlocks ⟨Function.update_of_ne (Ne.symm hx) _ _, .inl rfl⟩ rfl ?_
        (by rw [hp]; exact fun e => absurd e.1 hx) (by rw [hp]; rintro _ ⟨⟩)
      split
      · exact fun e => absurd e hx
      · trivial
  | @writeNothing p x error called loop now hp hnothing =>
    have hok := h.phases p
    rw [hp] at hok
    refine h.go (by rw [hp]; rfl) trivial ?_ (by rw [hp]; rintro _ ⟨⟩)
    rw [hp]
    rintro ⟨rfl, rfl⟩
    obtain ⟨items, n, hattempts, hlt, -⟩ := hok rfl rfl
    exact absurd (hnothing items hattempts.1) (withError_isSome hlt hattempts.2.2)
  | @unlink p x loop hp =>
    have hok := h.phases p
    rw [hp] at hok
    by_cases hx : x = name
    · subst hx
      exact h.remove (by rw [hp]; rfl) (.inl rfl) (Function.update_self x _ _) hlocks rfl
        (.inl (hok rfl))
    · refine h.by hlocks ⟨Function.update_of_ne (Ne.symm hx) _ _, .inl rfl⟩ rfl trivial
        (by rw [hp]; exact fun e => absurd e hx) fun loop' heq => ?_
      rw [hp] at heq
      cases heq
      exact hx rfl
  | @move p x content loop hp hfile =>
    have hok := h.phases p
    rw [hp] at hok
    by_cases hx : x = name
    · subst hx
      obtain ⟨items, n, hattempts, hle⟩ := hok rfl
      obtain rfl := Option.some.inj (hattempts.1.symm.trans hfile)
      exact h.remove (by rw [hp]; rfl) (.inr ⟨_, rfl⟩) (Function.update_self x _ _) hlocks rfl
        (.inr ⟨items, n, List.mem_cons_self, hattempts.2.2, by omega⟩)
    · exact h.by hlocks ⟨Function.update_of_ne (Ne.symm hx) _ _, .inr ⟨_, rfl, hx⟩⟩ rfl trivial
        (by rw [hp]; exact False.elim) (by rw [hp]; rintro _ ⟨⟩)
  | moveFails p hp =>
    exact h.go (by rw [hp]; rfl) trivial (by rw [hp]; exact False.elim) (by rw [hp]; rintro _ ⟨⟩)
  | release p hp =>
    exact h.by hlocks ⟨rfl, .inl rfl⟩ rfl trivial (by rw [hp]; exact False.elim)
      (by rw [hp]; rintro _ ⟨⟩)
  | enqueue x items hx hfree =>
    exact h.apart hlocks ⟨Function.update_of_ne (Ne.symm hx) _ _, .inl rfl⟩ fun _ => .inl rfl

/-! ## 7. The life of a marker -/

/-- `marker_path(marker_id).name`; `none` is a `ValueError`. -/
def markerName (markerId : String) : Option String :=
  if isSafeMarkerId markerId then some (markerId ++ ".json") else none

/-- `marker_data` of `enqueue` -/
def markerData (forgeVersion now kind markerId : String) (payload : List (String × Json F)) :
    List (String × Json F) :=
  [("schema_version", .int markerSchemaVersion), ("kind", .str kind), ("marker_id", .str markerId),
    ("forge_version", .str forgeVersion), ("created_at", .str now), ("payload", .obj payload),
    ("attempt_count", .int 0), ("last_attempt_at", .null), ("last_error", .null)]

/-- `enqueue` has just written the marker and released its lock; the
processors may be anywhere in their invocations. -/
structure Enqueued (name : String) (c : Config π F) : Prop where
  locks : Locks c
  free : c.lock name = none
  fresh : ∀ e ∈ c.log, e.marker ≠ name
  written : ∃ forgeVersion now kind markerId payload, markerName markerId = some name ∧
    c.pending name = some (.object (markerData forgeVersion now kind markerId payload))

/-- What a marker's life is like up to a configuration. -/
structure Life (name : String) (c : Config π F) : Prop where
  /-- the handler is called a limited number of times -/
  calls : c.calls name ≤ maxAttempts
  /-- and never after a call that returned -/
  last : ∀ later earlier, c.log = later ++ .returned name :: earlier →
    ∀ e ∈ later, e.isCall name = false
  /-- the marker leaves after such a call, or with its attempts used up -/
  left : c.pending name = none → .returned name ∈ c.log ∨
    ∃ items n, .moved name (.object items) ∈ c.log ∧ attemptCount items = .int n
      ∧ (maxAttempts : Int) ≤ n

omit [PyCount F] [DecidableEq π] in
theorem Enqueued.sound (h : Enqueued name c) : Sound name c := by
  obtain ⟨forgeVersion, now, kind, markerId, payload, -, hfile⟩ := h.written
  have hout : ∀ p, (c.phase p).holds ≠ some name := by
    intro p hp
    have hlock := (h.locks p name).mp hp
    rw [h.free] at hlock
    cases hlock
  have hcalls : c.calls name = 0 := by
    rw [Config.calls, List.countP_eq_zero]
    intro e he hcall
    refine h.fresh e he ?_
    cases e with
    | called x => exact of_decide_eq_true hcall
    | returned x => cases hcall
    | moved x content => cases hcall
  have hnot : .returned name ∉ c.log := fun hmem => h.fresh _ hmem rfl
  refine ⟨h.locks, fun content hcontent => ?_, fun _ _ _ _ => by rw [hcalls]; exact Nat.zero_le _,
    fun p => PhaseOk.of_not_holds (hout p), by rw [hcalls]; exact Nat.zero_le _,
    fun hmem => absurd hmem hnot, fun later earlier heq => ?_, fun hnone => ?_⟩
  · obtain rfl := Option.some.inj (hfile.symm.trans hcontent)
    exact ⟨_, 0, rfl, hfile, rfl, rfl⟩
  · exact absurd (heq ▸ List.mem_append_right later List.mem_cons_self) hnot
  · rw [hfile] at hnone
    cases hnone

theorem Reachable.sound {c₀ : Config π F} (h₀ : Sound name c₀)
    (h : Reachable env maxItems name c₀ c) : Sound name c := by
  induction h with
  | start => exact h₀
  | step _ hs ih => exact ih.step hs

/-- One processor that has not started, and one marker. -/
def oneMarker : Config Unit Empty where
  pending name :=
    if name = "a.json" then some (.object (markerData "1.0" "2026-01-07T12:00:00Z" "stop" "a" []))
    else none
  failed := []
  cursor := none
  lock _ := none
  phase _ := .idle
  log := []

end MultiForge.Workqueue.Lifecycle
