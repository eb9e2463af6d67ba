/-
MultiForge.Session.ActiveSessions — `forge.session.active`: the registry of
running launches.

`track_active_session` puts an entry under the key of a session when a
launch begins and deletes what is under the key when it ends; nothing in
the entry says which launch it is of. `get_session` and `list_sessions`
look at a copy of the registry, and prune in a second critical section what
they found dead and still find dead there.

Every critical section of the registry lock is one step, and so is every
look at the processes in between; the processes and containers of the
machine come and go in steps of their own. `visible_iff` says when every
open launch can be seen in every state of a run: exactly when no launch
ends while another one of its session is open.
-/
import Mathlib.Data.List.Induction
import MultiForge.Session.World

namespace MultiForge.Session

/-! ## 1. The registry -/

/-- `ActiveSessionEntry` -/
structure ActiveSessionEntry where
  worktreePath : String
  launchMode : String
  launcherPid : Option ℕ
  claudeSessionId : Option String
  containerName : Option String
  forgeRoot : Option String
  deriving DecidableEq

abbrev ActiveIndex : Type := Dict ScopedKey ActiveSessionEntry

/-- The arguments of `track_active_session`, and its process. -/
structure Launch where
  sessionName : String
  worktreePath : String
  launchMode : String
  forgeRoot : Option String := none
  claudeSessionId : Option String := none
  launcherPid : Option ℕ := none
  containerName : Option String := none
  /-- `os.getpid()` -/
  pid : ℕ
  deriving DecidableEq

/-- `forge_root or worktree_path` -/
def Launch.root (l : Launch) : String := (l.forgeRoot.filter (· ≠ "")).getD l.worktreePath

def Launch.key (host : Host) (l : Launch) : ScopedKey := host.scopedKey ⟨l.root, l.sessionName⟩

/-- The process that has to live. -/
def Launch.launcher (l : Launch) : ℕ := l.launcherPid.getD l.pid

/-- The entry that `upsert_session` writes. -/
def Launch.entry (l : Launch) : ActiveSessionEntry where
  worktreePath := l.worktreePath
  launchMode := l.launchMode
  launcherPid := some l.launcher
  claudeSessionId := l.claudeSessionId
  containerName := l.containerName
  forgeRoot := some l.root

/-- `resolve_key_strict`, nothing where it raises for ambiguity. -/
def resolveActiveStrict (host : Host) (index : ActiveIndex) (name : String)
    (root : Option String) : Option (Option ScopedKey) :=
  match root with
  | some root =>
      let key := host.scopedKey ⟨root, name⟩
      some (if (index.get? key).isSome then some key else none)
  | none =>
      match index.entries.filter fun e => e.1.name = name with
      | [] => some none
      | [e] => some (some e.1)
      | _ => none

/-- `resolve_key_best_effort` -/
def resolveActiveBestEffort (host : Host) (index : ActiveIndex) (name : String)
    (root : Option String) : Option ScopedKey :=
  match root with
  | some root =>
      let key := host.scopedKey ⟨root, name⟩
      if (index.get? key).isSome then some key else none
  | none => (index.entries.find? fun e => e.1.name = name).map Prod.fst

/-! ## 2. The machine -/

/-- What runs on the machine. -/
structure Running where
  process : ℕ → Bool
  container : String → Bool

/-- `_entry_is_live` -/
def Running.isLive (r : Running) (e : ActiveSessionEntry) : Bool :=
  (e.launchMode == "sidecar" && (e.containerName.filter (· ≠ "")).any r.container) ||
    e.launcherPid.any r.process

/-- Delete what is under the keys and not alive. -/
def Running.prune (r : Running) (keys : List ScopedKey) (index : ActiveIndex) : ActiveIndex :=
  keys.foldl (fun index key =>
    match index.get? key with
    | none => index
    | some e => if r.isLive e then index else index.erase key) index

/-- Who uses the registry. -/
inductive Actor where
  /-- `with track_active_session(...)` -/
  | launch (l : Launch)
  | getSession (name : String) (root : Option String)
  | listSessions
  | updateUuid (name uuid : String) (root : Option String)

/-- Where an actor is. -/
inductive ActorPhase where
  | idle
  /-- the context is open -/
  | opened
  /-- looking at entries of the copy, with the keys found dead -/
  | looking (entries : List (ScopedKey × ActiveSessionEntry)) (stale : List ScopedKey)
  | finished

structure ActiveWorld where
  sessions : ActiveIndex
  phase : ℕ → ActorPhase
  running : Running

inductive ActiveEvent where
  /-- the next step of an actor -/
  | turn (i : ℕ)
  /-- processes and containers come and go -/
  | machine (running : Running)

section

variable (host : Host) (actors : ℕ → Actor)

namespace ActiveWorld

def moveTo (w : ActiveWorld) (i : ℕ) (p : ActorPhase) : ActiveWorld :=
  { w with phase := Function.update w.phase i p }

/-- What `get_session` goes on to look at. -/
def firstLook (w : ActiveWorld) (name : String) (root : Option String) :
    List (ScopedKey × ActiveSessionEntry) :=
  match resolveActiveStrict host w.sessions name root with
  | some (some key) => ((w.sessions.get? key).map fun e => (key, e)).toList
  | _ => []

/-- One step of an actor. -/
def turn (w : ActiveWorld) (i : ℕ) : ActiveWorld :=
  match actors i, w.phase i with
  | .launch l, .idle =>
      { w.moveTo i .opened with sessions := w.sessions.set (l.key host) l.entry }
  | .launch l, .opened =>
      { w.moveTo i .finished with sessions := w.sessions.erase (l.key host) }
  | .getSession name root, .idle => w.moveTo i (.looking (w.firstLook host name root) [])
  | .listSessions, .idle => w.moveTo i (.looking w.sessions.entries [])
  | _, .looking ((key, e) :: rest) stale =>
      w.moveTo i (.looking rest (if w.running.isLive e then stale else stale ++ [key]))
  | _, .looking [] stale =>
      { w.moveTo i .finished with sessions := w.running.prune stale w.sessions }
  | .updateUuid name uuid root, .idle =>
      { w.moveTo i .finished with
        sessions :=
          match resolveActiveBestEffort host w.sessions name root with
          | none => w.sessions
          | some key => w.sessions.alter key fun e => some { e with claudeSessionId := some uuid } }
  | _, _ => w

def step (w : ActiveWorld) : ActiveEvent → ActiveWorld
  | .turn i => w.turn host actors i
  | .machine running => { w with running := running }

def run (w : ActiveWorld) (events : List ActiveEvent) : ActiveWorld :=
  events.foldl (step host actors) w

/-- `get_session`, called in one state. -/
def getSession (w : ActiveWorld) (name : String) (root : Option String) :
    Option ActiveSessionEntry :=
  match w.firstLook host name root with
  | (_, e) :: _ => if w.running.isLive e then some e else none
  | [] => none

/-- The context of a launch is open. -/
def IsOpen (w : ActiveWorld) (i : ℕ) (l : Launch) : Prop :=
  actors i = .launch l ∧ w.phase i = .opened

/-- The launchers of all open contexts are alive. -/
def LaunchersAlive (w : ActiveWorld) : Prop :=
  ∀ i l, w.IsOpen actors i l → w.running.process l.launcher = true

/-- Every open launch is seen, alive. -/
def Visible (w : ActiveWorld) : Prop :=
  ∀ i l, w.IsOpen actors i l →
    ∃ e, w.getSession host l.sessionName (some l.root) = some e ∧ w.running.isLive e = true

/-- A context that ends in this step is the only one of its session. -/
def EndsAlone (w : ActiveWorld) : ActiveEvent → Prop
  | .turn i => ∀ l, w.IsOpen actors i l → ∀ j l', w.IsOpen actors j l' →
      l'.key host = l.key host → j = i
  | .machine _ => True

/-- A step deletes nothing but the entry of the session whose context ends,
and entries that are dead. -/
def Deletes (w : ActiveWorld) (event : ActiveEvent) : Prop :=
  ∀ key e, w.sessions.get? key = some e →
    ((w.step host actors event).sessions.get? key).isSome ∨ w.running.isLive e = false ∨
      ∃ i l, event = .turn i ∧ w.IsOpen actors i l ∧ l.key host = key

/-- Under the key of an open launch is an entry of one that is open. -/
def Held (w : ActiveWorld) : Prop :=
  ∀ i l, w.IsOpen actors i l → ∃ e j l', w.sessions.get? (l.key host) = some e ∧
    w.IsOpen actors j l' ∧ l'.key host = l.key host ∧ e.launcherPid = some l'.launcher

end ActiveWorld

end

/-! ## 3. Pruning -/

theorem Running.isLive_of_launcher {r : Running} {e : ActiveSessionEntry} {pid : ℕ}
    (he : e.launcherPid = some pid) (h : r.process pid = true) : r.isLive e = true := by
  unfold Running.isLive
  simp [he, h]

/-- What is alive stays. -/
theorem Running.prune_live {r : Running} {key : ScopedKey} {e : ActiveSessionEntry}
    (hlive : r.isLive e = true) (keys : List ScopedKey) {index : ActiveIndex}
    (h : index.get? key = some e) : (r.prune keys index).get? key = some e := by
  unfold Running.prune
  induction keys generalizing index with
  | nil => exact h
  | cons k rest ih =>
    rw [List.foldl_cons]
    refine ih ?_
    cases hk : index.get? k with
    | none => exact h
    | some e' =>
      simp only
      split
      · exact h
      · rename_i hdead
        rw [Dict.get?_erase]
        split
        · rename_i heq
          subst heq
          rw [h] at hk
          cases hk
          exact absurd hlive hdead
        · exact h

/-! ## 4. Steps -/

namespace ActiveWorld

variable {host : Host} {actors : ℕ → Actor} {w : ActiveWorld} {i : ℕ}

theorem isOpen_moveTo {p : ActorPhase} (hold : ∀ l, ¬ w.IsOpen actors i l) (hnew : p ≠ .opened)
    (j : ℕ) (l : Launch) : (w.moveTo i p).IsOpen actors j l ↔ w.IsOpen actors j l := by
  unfold IsOpen moveTo
  simp only
  by_cases hj : j = i
  · subst hj
    rw [Function.update_self]
    constructor
    · exact fun h => absurd h.2 hnew
    · exact fun h => absurd h (hold l)
  · rw [Function.update_of_ne hj]

/-- A step that opens and closes no context and keeps what is alive. -/
structure Keeps (actors : ℕ → Actor) (w w' : ActiveWorld) : Prop where
  isOpen : ∀ j l, w'.IsOpen actors j l ↔ w.IsOpen actors j l
  running : w'.running = w.running
  entries : ∀ key e, w.sessions.get? key = some e → w.running.isLive e = true →
    ∃ e', w'.sessions.get? key = some e' ∧ e'.launcherPid = e.launcherPid

theorem Keeps.moveTo {p : ActorPhase} (hold : ∀ l, ¬ w.IsOpen actors i l) (hnew : p ≠ .opened) :
    Keeps actors w (w.moveTo i p) where
  isOpen := isOpen_moveTo hold hnew
  running := rfl
  entries := fun _ e he _ => ⟨e, he, rfl⟩

/-- Everything an actor can do in a step. -/
theorem turn_cases (host : Host) (actors : ℕ → Actor) (w : ActiveWorld) (i : ℕ) :
    (∃ l, actors i = .launch l ∧ w.phase i = .idle ∧ w.turn host actors i =
      { w.moveTo i .opened with sessions := w.sessions.set (l.key host) l.entry }) ∨
    (∃ l, w.IsOpen actors i l ∧ w.turn host actors i =
      { w.moveTo i .finished with sessions := w.sessions.erase (l.key host) }) ∨
    (∀ l, ¬ w.IsOpen actors i l) ∧ Keeps actors w (w.turn host actors i) := by
  have hpruned : ∀ stale, (∀ l, ¬ w.IsOpen actors i l) → Keeps actors w
      { w.moveTo i .finished with sessions := w.running.prune stale w.sessions } :=
    fun stale hold =>
      { isOpen := isOpen_moveTo hold (by simp)
        running := rfl
        entries := fun _ e he hlive => ⟨e, Running.prune_live hlive stale he, rfl⟩ }
  have hsame : Keeps actors w w :=
    ⟨fun _ _ => Iff.rfl, rfl, fun _ e he _ => ⟨e, he, rfl⟩⟩
  unfold turn
  cases hphase : w.phase i with
  | idle =>
    have hold : ∀ l, ¬ w.IsOpen actors i l := by
      rintro l ⟨-, hopen⟩
      rw [hphase] at hopen
      cases hopen
    cases hactor : actors i with
    | launch l => exact .inl ⟨l, rfl, rfl, rfl⟩
    | getSession name root => exact .inr (.inr ⟨hold, .moveTo hold (by simp)⟩)
    | listSessions => exact .inr (.inr ⟨hold, .moveTo hold (by simp)⟩)
    | updateUuid name uuid root =>
      refine .inr (.inr ⟨hold, isOpen_moveTo hold (by simp), rfl, fun key e he _ => ?_⟩)
      show ∃ e', (match resolveActiveBestEffort host w.sessions name root with
        | none => w.sessions
        | some key => w.sessions.alter key fun e =>
            some { e with claudeSessionId := some uuid }).get? key = some e' ∧ _
      split
      · exact ⟨e, he, rfl⟩
      · rename_i k _
        rw [Dict.get?_alter]
        split
        · rename_i hk
          subst hk
          rw [he]
          exact ⟨_, rfl, rfl⟩
        · exact ⟨e, he, rfl⟩
  | opened =>
    cases hactor : actors i with
    | launch l => exact .inr (.inl ⟨l, ⟨hactor, hphase⟩, rfl⟩)
    | getSession name root =>
      refine .inr (.inr ⟨fun l h => ?_, hsame⟩)
      rw [h.1] at hactor
      cases hactor
    | listSessions =>
      refine .inr (.inr ⟨fun l h => ?_, hsame⟩)
      rw [h.1] at hactor
      cases hactor
    | updateUuid name uuid root =>
      refine .inr (.inr ⟨fun l h => ?_, hsame⟩)
      rw [h.1] at hactor
      cases hactor
  | looking entries stale =>
    have hold : ∀ l, ¬ w.IsOpen actors i l := by
      rintro l ⟨-, hopen⟩
      rw [hphase] at hopen
      cases hopen
    refine .inr (.inr ⟨hold, ?_⟩)
    cases entries with
    | nil => cases actors i <;> exact hpruned stale hold
    | cons entry rest => cases actors i <;> exact .moveTo hold (by simp)
  | finished =>
    have hold : ∀ l, ¬ w.IsOpen actors i l := by
      rintro l ⟨-, hopen⟩
      rw [hphase] at hopen
      cases hopen
    refine .inr (.inr ⟨hold, ?_⟩)
    cases actors i <;> exact hsame

theorem step_turn (host : Host) (actors : ℕ → Actor) (w : ActiveWorld) (i : ℕ) :
    w.step host actors (.turn i) = w.turn host actors i := rfl

theorem deletes (host : Host) (actors : ℕ → Actor) (w : ActiveWorld) (event : ActiveEvent) :
    w.Deletes host actors event := by
  intro key e he
  cases event with
  | machine running =>
    refine .inl ?_
    show (w.sessions.get? key).isSome
    rw [he]
    rfl
  | turn i =>
    rw [step_turn]
    rcases turn_cases host actors w i with ⟨l, -, -, hturn⟩ | ⟨l, hopen, hturn⟩ | ⟨-, hkeeps⟩
    · refine .inl ?_
      rw [hturn, Dict.get?_set]
      split
      · rfl
      · rw [he]
        rfl
    · rw [hturn, Dict.get?_erase]
      split
      · rename_i hkey
        exact .inr (.inr ⟨i, l, rfl, hopen, hkey.symm⟩)
      · refine .inl ?_
        rw [he]
        rfl
    · cases hlive : w.running.isLive e with
      | false => exact .inr (.inl rfl)
      | true =>
        obtain ⟨e', he', -⟩ := hkeeps.entries key e he hlive
        refine .inl ?_
        rw [he']
        rfl

/-! ## 5. Open launches -/

/-- What is seen of an open launch is what is under its key. -/
theorem getSession_eq (host : Host) (w : ActiveWorld) (l : Launch) :
    w.getSession host l.sessionName (some l.root)
      = (w.sessions.get? (l.key host)).filter w.running.isLive := by
  have hkey : host.scopedKey ⟨l.root, l.sessionName⟩ = l.key host := rfl
  unfold getSession firstLook resolveActiveStrict
  simp only [hkey]
  cases he : w.sessions.get? (l.key host) with
  | none => simp
  | some e => simp [he, Option.filter_some]

theorem Held.visible (hheld : w.Held host actors) (halive : w.LaunchersAlive actors) :
    w.Visible host actors := by
  intro i l hopen
  obtain ⟨e, j, l', he, hopen', -, hpid⟩ := hheld i l hopen
  have hlive : w.running.isLive e = true :=
    Running.isLive_of_launcher hpid (halive j l' hopen')
  refine ⟨e, ?_, hlive⟩
  rw [getSession_eq, he]
  simp [hlive]

/-- A step whose context ends alone keeps every open launch. -/
theorem Held.step (hheld : w.Held host actors) (halive : w.LaunchersAlive actors)
    {event : ActiveEvent} (halone : w.EndsAlone host actors event) :
    (w.step host actors event).Held host actors := by
  cases event with
  | machine running => exact hheld
  | turn i =>
    rw [step_turn]
    rcases turn_cases host actors w i with ⟨l, hactor, hidle, hturn⟩ | ⟨l, hopen, hturn⟩ |
      ⟨-, hkeeps⟩
    · rw [hturn]
      have hopened : ∀ j l', ({ w.moveTo i .opened with
          sessions := w.sessions.set (l.key host) l.entry } : ActiveWorld).IsOpen actors j l' ↔
          w.IsOpen actors j l' ∨ j = i ∧ l' = l := by
        intro j l'
        unfold IsOpen moveTo
        simp only
        by_cases hj : j = i
        · subst hj
          rw [Function.update_self, hactor, hidle]
          simp [eq_comm]
        · rw [Function.update_of_ne hj]
          simp [hj]
      intro j l' hj
      show ∃ e k m, (w.sessions.set (l.key host) l.entry).get? (l'.key host) = some e ∧ _
      rw [Dict.get?_set]
      split
      · rename_i hkey
        exact ⟨l.entry, i, l, rfl, (hopened i l).mpr (.inr ⟨rfl, rfl⟩), hkey.symm, rfl⟩
      · rename_i hkey
        rcases (hopened j l').mp hj with hj | ⟨-, rfl⟩
        · obtain ⟨e, k, m, he, hm, hmk, hpid⟩ := hheld j l' hj
          exact ⟨e, k, m, he, (hopened k m).mpr (.inl hm), hmk, hpid⟩
        · exact absurd rfl hkey
    · rw [hturn]
      have hclosed : ∀ j l', ({ w.moveTo i .finished with
          sessions := w.sessions.erase (l.key host) } : ActiveWorld).IsOpen actors j l' ↔
          w.IsOpen actors j l' ∧ j ≠ i := by
        intro j l'
        unfold IsOpen moveTo
        simp only
        by_cases hj : j = i
        · subst hj
          rw [Function.update_self]
          simp
        · rw [Function.update_of_ne hj]
          simp [hj]
      intro j l' hj
      obtain ⟨hj, hne⟩ := (hclosed j l').mp hj
      show ∃ e k m, (w.sessions.erase (l.key host)).get? (l'.key host) = some e ∧ _
      rw [Dict.get?_erase]
      split
      · rename_i hkey
        exact absurd (halone l hopen j l' hj hkey) hne
      · rename_i hkey
        obtain ⟨e, k, m, he, hm, hmk, hpid⟩ := hheld j l' hj
        refine ⟨e, k, m, he, (hclosed k m).mpr ⟨hm, fun hk => hkey ?_⟩, hmk, hpid⟩
        subst hk
        have hsame := hm.1.symm.trans hopen.1
        cases hsame
        exact hmk.symm
    · intro j l' hj
      obtain ⟨e, k, m, he, hm, hmk, hpid⟩ := hheld j l' ((hkeeps.isOpen j l').mp hj)
      have hlive : w.running.isLive e = true := Running.isLive_of_launcher hpid (halive k m hm)
      obtain ⟨e', he', hpid'⟩ := hkeeps.entries _ e he hlive
      exact ⟨e', k, m, he', (hkeeps.isOpen k m).mpr hm, hmk, hpid'.trans hpid⟩

/-- After the end of one of two contexts of a session, the other one is not
seen. -/
theorem endsAlone_of_visible {event : ActiveEvent}
    (hvisible : (w.step host actors event).Visible host actors) :
    w.EndsAlone host actors event := by
  cases event with
  | machine running => trivial
  | turn i =>
    intro l hopen j l' hj hkey
    by_contra hne
    rcases turn_cases host actors w i with ⟨m, -, hidle, -⟩ | ⟨m, hm, hturn⟩ | ⟨hold, -⟩
    · have hphase := hopen.2
      rw [hidle] at hphase
      cases hphase
    · have hsame := hm.1.symm.trans hopen.1
      cases hsame
      rw [step_turn] at hvisible
      have hstill : (w.turn host actors i).IsOpen actors j l' := by
        rw [hturn]
        exact ⟨hj.1, (Function.update_of_ne hne _ _).trans hj.2⟩
      obtain ⟨e, he, -⟩ := hvisible j l' hstill
      rw [getSession_eq, hturn, hkey] at he
      have hnone : (w.sessions.erase (l.key host)).get? (l.key host) = none := by
        rw [Dict.get?_erase, if_pos rfl]
      rw [hnone] at he
      cases he
    · exact hold l hopen

theorem run_snoc (host : Host) (actors : ℕ → Actor) (w : ActiveWorld) (events : List ActiveEvent)
    (event : ActiveEvent) :
    w.run host actors (events ++ [event]) = (w.run host actors events).step host actors event := by
  unfold run
  rw [List.foldl_append]
  rfl

/-- **Running launches are visible.** In a run whose launchers live while
their contexts are open, every open launch is seen in every state exactly
when no context ends while another one of its session is open; and no step
of any run deletes more than the entry of the session whose context ends,
and entries that are dead. -/
theorem visible_iff (host : Host) (actors : ℕ → Actor) (w : ActiveWorld)
    (hstart : ∀ i l, ¬ w.IsOpen actors i l) (events : List ActiveEvent)
    (halive : ∀ pre post, events = pre ++ post → (w.run host actors pre).LaunchersAlive actors) :
    ((∀ pre post, events = pre ++ post → (w.run host actors pre).Visible host actors) ↔
      ∀ pre event post, events = pre ++ event :: post →
        (w.run host actors pre).EndsAlone host actors event) ∧
    ∀ pre event post, events = pre ++ event :: post →
      (w.run host actors pre).Deletes host actors event := by
  refine ⟨⟨?_, ?_⟩, fun pre event _ _ => deletes host actors _ event⟩
  · intro hvisible pre event post hevents
    have hafter := hvisible (pre ++ [event]) post (by rw [hevents, List.append_assoc]; rfl)
    rw [run_snoc] at hafter
    exact endsAlone_of_visible hafter
  · intro halone pre post hevents
    have hheld : (w.run host actors pre).Held host actors := by
      induction pre using List.reverseRecOn generalizing post with
      | nil => exact fun i l hopen => absurd hopen (hstart i l)
      | append_singleton pre event ih =>
        rw [List.append_assoc] at hevents
        rw [run_snoc]
        exact (ih _ hevents).step (halive pre _ hevents) (halone pre event post hevents)
    exact hheld.visible (halive pre post hevents)

theorem turn_running (host : Host) (actors : ℕ → Actor) (w : ActiveWorld) (i : ℕ) :
    (w.turn host actors i).running = w.running := by
  rcases turn_cases host actors w i with ⟨l, -, -, hturn⟩ | ⟨l, -, hturn⟩ | ⟨-, hkeeps⟩
  · rw [hturn]
    rfl
  · rw [hturn]
    rfl
  · exact hkeeps.running

/-- Turns alone leave the machine as it is. -/
theorem run_turns_alive (host : Host) (actors : ℕ → Actor) {w : ActiveWorld}
    (halive : ∀ pid, w.running.process pid = true) (turns : List ℕ) :
    ∀ pre post, turns.map ActiveEvent.turn = pre ++ post →
      (w.run host actors pre).LaunchersAlive actors := by
  intro pre post hevents
  obtain ⟨is, js, -, rfl, -⟩ := List.map_eq_append_iff.mp hevents
  have hrunning : (w.run host actors (is.map .turn)).running = w.running := by
    clear hevents
    induction is using List.reverseRecOn with
    | nil => rfl
    | append_singleton is i ih =>
      rw [List.map_append, List.map_singleton, run_snoc, step_turn, turn_running, ih]
  intro i l _
  rw [hrunning]
  exact halive l.launcher

end ActiveWorld

/-! ## 6. Two launches of one session -/

def sampleLaunch (pid : ℕ) : Launch where
  sessionName := "planner"
  worktreePath := "/repo"
  launchMode := "host"
  pid := pid

def emptyRegistry : ActiveWorld where
  sessions := Dict.empty
  phase := fun _ => .idle
  running := ⟨fun _ => true, fun _ => false⟩

def plainHost : Host := ⟨id, fun _ _ => true, fun _ => true⟩

/-- The first of two launches ends: the second one is open and not seen. -/
theorem overlappingLaunches_hidden :
    ∃ (host : Host) (actors : ℕ → Actor) (w : ActiveWorld) (events : List ActiveEvent),
      (∀ i l, ¬ w.IsOpen actors i l) ∧
      (∀ pre post, events = pre ++ post → (w.run host actors pre).LaunchersAlive actors) ∧
      (w.run host actors events).IsOpen actors 1 (sampleLaunch 1) ∧
      (w.run host actors events).getSession host "planner" (some "/repo") = none := by
  refine ⟨plainHost, fun i => .launch (sampleLaunch i), emptyRegistry,
    [0, 1, 0].map ActiveEvent.turn, ?_, ?_, ⟨rfl, rfl⟩, by decide +kernel⟩
  · rintro i l ⟨-, hopen⟩
    cases hopen
  · exact ActiveWorld.run_turns_alive _ _ (fun _ => rfl) _

/-- One launch is seen while it is open. -/
theorem singleLaunch_visible :
    (emptyRegistry.run plainHost (fun i => if i = 0 then .launch (sampleLaunch 0) else .listSessions)
      [.turn 0]).Visible plainHost
      (fun i => if i = 0 then .launch (sampleLaunch 0) else .listSessions) := by
  have hzero : ∀ (w : ActiveWorld) i l, w.IsOpen
      (fun i => if i = 0 then .launch (sampleLaunch 0) else .listSessions) i l → i = 0 := by
    rintro w i l ⟨hactor, -⟩
    by_contra hne
    simp [hne] at hactor
  refine (ActiveWorld.visible_iff plainHost _ emptyRegistry ?_ ([0].map ActiveEvent.turn)
    (ActiveWorld.run_turns_alive _ _ (fun _ => rfl) _)).1.mpr ?_ _ [] rfl
  · rintro i l ⟨-, hopen⟩
    cases hopen
  · intro pre event post _
    cases event with
    | machine running => trivial
    | turn i =>
      intro l hopen j l' hj _
      rw [hzero _ i l hopen, hzero _ j l' hj]

end MultiForge.Session
