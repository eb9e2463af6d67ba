/-
MultiForge.Session.Journal — appending to a journal of session events.

`append_session_event` writes one line under the lock of the journal, in a
loop of partial writes that an error or a kill can end anywhere. The
program below is that function, action by action; `log` is what a journal
does not show: which appends have opened it, in order, and how much of its
line each has written.

What appenders write never mixes, in any interleaving: the file is what it
was and then the pieces of the log, each the beginning of one line. But a
piece that is neither empty nor a whole line makes the strict reader
refuse the file, and nothing takes it back:
`interruptedAppend_readable_iff`.
-/
import MultiForge.Lib.Locked
import MultiForge.Session.Events

namespace MultiForge.Session

open Json Locked

variable {F : Type} [PyFloatText F]

/-! ## 1. Lines of events -/

/-- A valid event of a journal. -/
structure JournalEvent (lib : Stdlib F) (vals : Validators F) (session : String) where
  event : SessionEvent F
  valid : event.Valid lib vals
  session_eq : event.session = session
  /-- a payload is a `dict` -/
  proper : Proper (.obj event.payload)

variable {lib : Stdlib F} {vals : Validators F} {session : String}

theorem encode_body_printable (e : SessionEvent F) :
    ∀ c ∈ dumpChars .compact (sortKeys e.asdict), Printable c :=
  dumpChars_printable Separators.compact_printable _

theorem encode_body_newline (e : SessionEvent F) :
    ∀ c ∈ dumpChars .compact (sortKeys e.asdict), decide (c = '\n') = false := by
  intro c hc
  refine decide_eq_false ?_
  rintro rfl
  exact absurd (encode_body_printable e _ hc) (by decide)

theorem encode_eq (e : SessionEvent F) :
    encode e = dumpChars .compact (sortKeys e.asdict) ++ ['\n'] := by
  unfold encode
  rfl

theorem encode_no_return (e : SessionEvent F) : ∀ c ∈ encode e, c ≠ '\r' := by
  intro c hc
  rw [encode_eq] at hc
  rcases List.mem_append.mp hc with hc | hc
  · rintro rfl
    exact absurd (encode_body_printable e _ hc) (by decide)
  · rw [List.mem_singleton.mp hc]
    decide

theorem encode_head (e : SessionEvent F) : ∃ cs, encode e = '{' :: cs := by
  rw [encode_eq, sortKeys_asdict, dumpChars]
  exact ⟨_, rfl⟩

/-- The line of an event is one line. -/
theorem readlines_encode (e : SessionEvent F) : Lines.readlines (encode e) = [encode e] := by
  unfold Lines.readlines
  rw [Lines.translate_plain (encode_no_return e), encode_eq]
  exact Lines.splitAfter_closed (by decide) (encode_body_newline e)

theorem encode_proper (e : JournalEvent lib vals session) :
    Proper (sortKeys e.event.asdict) := by
  have hopt : ∀ o, Proper (optStr (F := F) o) := by
    intro o
    cases o <;> trivial
  refine Proper.sortKeys ?_
  have hpayload := e.proper
  simp only [SessionEvent.asdict, Proper, ProperItems, hopt] at hpayload ⊢
  simpa using hpayload

/-- Reading the line of an event gives the event. -/
theorem readLine_encode (n : Nat) (e : JournalEvent lib vals session) :
    readLine lib vals session n (encode e.event) = .ok e.event.canonical := by
  have hblank : Lines.isBlank (encode e.event) = false := by
    obtain ⟨cs, hcs⟩ := encode_head e.event
    rw [hcs]
    rfl
  have hws : ∀ c ∈ ['\n'], isWs c = true := by simp [isWs]
  have hload : loads (String.ofList (encode e.event)) = some (sortKeys e.event.asdict) := by
    rw [encode_eq]
    exact loads_dumpChars Separators.compact_valid (encode_proper e) hws
  unfold readLine
  rw [hblank, if_neg Bool.false_ne_true, hload]
  exact validate_record e.valid (by simp [e.session_eq])

/-! ## 2. Reading what was appended -/

theorem readLines_append {n : Nat} {lines lines' : List (List Char)} {ids : List String}
    {events events' : List (SessionEvent F)}
    (h : readLines lib vals session n ids lines = .ok events)
    (h' : readLines lib vals session (n + lines.length)
      ((events.map (·.eventId)).reverse ++ ids) lines' = .ok events') :
    readLines lib vals session n ids (lines ++ lines') = .ok (events ++ events') := by
  induction lines generalizing n ids events with
  | nil =>
    cases h
    exact h'
  | cons line lines ih =>
    unfold readLines at h
    rw [List.cons_append, readLines]
    cases hline : readLine lib vals session n line with
    | error e => simp [hline] at h
    | ok event =>
      simp only [hline] at h ⊢
      split at h
      · cases h
      rename_i hnew
      rw [if_neg hnew]
      cases hrest : readLines lib vals session (n + 1) (event.eventId :: ids) lines with
      | error e => simp [hrest] at h
      | ok rest =>
        rw [hrest] at h
        cases h
        rw [ih hrest (by
          rw [List.length_cons, List.map_cons, List.reverse_cons, List.append_assoc] at h'
          rw [Nat.add_assoc, Nat.add_comm 1]
          exact h')]
        rfl

/-- **What the reader accepts.** -/
theorem readText_ok {text : List Char} {max : Option Nat} {events : List (SessionEvent F)} :
    readText lib vals session max text = .ok events ↔
      max.any (· < byteSize text) = false ∧ Lines.Ended (· = '\n') (Lines.translate text) ∧
        readLines lib vals session 1 [] (Lines.readlines text) = .ok events := by
  have hlast : (Lines.readlines text).getLast?.any (·.getLast? != some '\n') = false ↔
      Lines.Ended (· = '\n') (Lines.translate text) := by
    rw [Lines.ended_iff_last]
    show (Lines.readlines text).getLast?.any _ = false ↔
      ∀ l, (Lines.readlines text).getLast? = some l → _
    cases hline : (Lines.readlines text).getLast? with
    | none => simp
    | some line =>
      have hne : line ≠ [] := Lines.splitAfter_ne_nil (List.mem_of_getLast? hline)
      obtain ⟨c, hc⟩ : ∃ c, line.getLast? = some c :=
        ⟨_, List.getLast?_eq_some_getLast hne⟩
      simp [Lines.Ended, hc]
  unfold readText readAll
  split
  · rename_i hbig
    exact ⟨nofun, fun h => absurd hbig (by rw [h.1]; exact Bool.false_ne_true)⟩
  rename_i hsize
  split
  · rename_i hcut
    exact ⟨nofun, fun h => absurd hcut (by rw [hlast.mpr h.2.1]; exact Bool.false_ne_true)⟩
  rename_i hwhole
  have hended := hlast.mp (Bool.eq_false_iff.mpr hwhole)
  cases hlines : readLines lib vals session 1 [] (Lines.readlines text) with
  | error e => exact ⟨nofun, fun h => nomatch h.2.2⟩
  | ok es =>
    refine ⟨fun h => ⟨Bool.eq_false_iff.mpr hsize, hended, ?_⟩, fun h => ?_⟩
    · exact congrArg _ (Except.ok.inj h)
    · exact congrArg _ (Except.ok.inj h.2.2)

/-- **Appending the line of an event appends the event.** -/
theorem readText_append {text : List Char} {max : Option Nat} {events : List (SessionEvent F)}
    (h : readText lib vals session max text = .ok events) (e : JournalEvent lib vals session)
    (hnew : e.event.eventId ∉ events.map (·.eventId))
    (hsize : max.any (· < byteSize (text ++ encode e.event)) = false) :
    readText lib vals session max (text ++ encode e.event) = .ok (events ++ [e.event.canonical]) := by
  obtain ⟨-, hended, hlines⟩ := readText_ok.mp h
  obtain ⟨cs, hcs⟩ := encode_head e.event
  have hhead : (encode e.event).head? ≠ some '\n' := by
    rw [hcs]
    exact fun heq => absurd (Option.some.inj heq) (by decide)
  have htext : Lines.translate (text ++ encode e.event)
      = Lines.translate text ++ encode e.event := by
    rw [Lines.translate_append hhead, Lines.translate_plain (encode_no_return e.event)]
  have hread : Lines.readlines (text ++ encode e.event)
      = Lines.readlines text ++ [encode e.event] := by
    have hone := readlines_encode e.event
    unfold Lines.readlines at hone ⊢
    rw [Lines.translate_plain (encode_no_return e.event)] at hone
    rw [htext, Lines.splitAfter_append _ hended, hone]
  refine readText_ok.mpr ⟨hsize, ?_, ?_⟩
  · rw [htext, encode_eq]
    exact hended.append (Lines.ended_append_singleton (by decide) _)
  · rw [hread]
    refine readLines_append hlines ?_
    have hseen : e.event.canonical.eventId ∉ (events.map (·.eventId)).reverse ++ [] := by
      simpa using hnew
    rw [readLines, readLine_encode]
    simp only [if_neg hseen, readLines]

/-- A line that is not complete makes the reader refuse the journal. -/
theorem readText_truncated {text : List Char} {events : List (SessionEvent F)}
    (h : readText lib vals session none text = .ok events) (e : SessionEvent F) {k : Nat}
    (hk : 0 < k) (hlt : k < (encode e).length) :
    ∃ n, readText lib vals session none (text ++ (encode e).take k)
      = .error (.invalid ⟨"truncated JSONL record (missing newline)", some n, none⟩) := by
  obtain ⟨-, hended, -⟩ := readText_ok.mp h
  obtain ⟨cs, hcs⟩ := encode_head e
  have hbody : (encode e).take k = (dumpChars .compact (sortKeys e.asdict)).take k := by
    rw [encode_eq] at hlt ⊢
    rw [List.length_append] at hlt
    exact List.take_append_of_le_length (Nat.lt_succ_iff.mp hlt)
  have hline : ∀ c ∈ (encode e).take k, decide (c = '\n') = false := by
    intro c hc
    rw [hbody] at hc
    exact encode_body_newline e c (List.mem_of_mem_take hc)
  have hne : (encode e).take k ≠ [] := by
    rw [hcs]
    intro hnil
    have := congrArg List.length hnil
    rw [List.length_take] at this
    simp only [List.length_cons, List.length_nil] at this
    omega
  have hhead : ((encode e).take k).head? ≠ some '\n' := by
    intro hn
    have := hline '\n' (List.mem_of_mem_head? hn)
    simp at this
  have hread : Lines.readlines (text ++ (encode e).take k)
      = Lines.readlines text ++ [(encode e).take k] := by
    unfold Lines.readlines
    rw [Lines.translate_append hhead, Lines.translate_plain fun c hc =>
        encode_no_return e c (List.mem_of_mem_take hc),
      Lines.splitAfter_append _ hended, Lines.splitAfter_open hline hne]
  have hcut : (Lines.readlines (text ++ (encode e).take k)).getLast?.any
      (·.getLast? != some '\n') = true := by
    rw [hread, List.getLast?_concat]
    show (((encode e).take k).getLast? != some '\n') = true
    refine bne_iff_ne.mpr fun hn => ?_
    have := hline '\n' (List.mem_of_getLast? hn)
    simp at this
  refine ⟨(Lines.readlines (text ++ (encode e).take k)).length, ?_⟩
  show readAll lib vals session (Lines.readlines (text ++ (encode e).take k)) = _
  unfold readAll
  rw [if_pos hcut]

/-! ## 3. An append that is interrupted -/

/-- The journal after an append that has written so much of its line when
it returns, raises or is killed. Before it has opened the file it leaves
no file behind. -/
inductive Written (journal : Option (List Char)) (line : List Char) : Nat → Option (List Char) → Prop
  | unopened : Written journal line 0 journal
  | opened (k : Nat) : k ≤ line.length → Written journal line k (some (journal.getD [] ++ line.take k))

variable (lib vals session) in
/-- The journal is readable after an append of an event: it has the old
sequence or that and the event, and a later successful append goes on
from there. -/
def Resumes (events : List (SessionEvent F)) (e : SessionEvent F) (after : Option (List Char)) :
    Prop :=
  ∃ seq, (seq = events ∨ seq = events ++ [e.canonical]) ∧
    readSessionEvents lib vals session none after = .ok seq ∧
    ∀ (e' : JournalEvent lib vals session) (later : Option (List Char)),
      e'.event.eventId ∉ seq.map (·.eventId) →
      Written after (encode e'.event) (encode e'.event).length later →
      readSessionEvents lib vals session none later = .ok (seq ++ [e'.event.canonical])

theorem encode_length_pos (e : SessionEvent F) : 0 < (encode e).length := by
  obtain ⟨cs, hcs⟩ := encode_head e
  rw [hcs]
  exact Nat.succ_pos _

/-- A journal that does not exist reads as an empty one. -/
theorem readSessionEvents_getD {journal : Option (List Char)} {events : List (SessionEvent F)} :
    readSessionEvents lib vals session none journal = .ok events ↔
      readText lib vals session none (journal.getD []) = .ok events := by
  cases journal with
  | none => exact Iff.rfl
  | some text => exact Iff.rfl

/-- A complete append to a journal that reads. -/
theorem written_whole {journal after : Option (List Char)} {events : List (SessionEvent F)}
    (h : readSessionEvents lib vals session none journal = .ok events)
    (e : JournalEvent lib vals session) (hnew : e.event.eventId ∉ events.map (·.eventId))
    (hw : Written journal (encode e.event) (encode e.event).length after) :
    readSessionEvents lib vals session none after = .ok (events ++ [e.event.canonical]) := by
  generalize hk : (encode e.event).length = k at hw
  cases hw with
  | unopened => exact absurd hk (Nat.ne_of_gt (encode_length_pos e.event))
  | opened k hle =>
    rw [← hk, List.take_length]
    exact readText_append (readSessionEvents_getD.mp h) e hnew rfl

/-- **One append, stopped anywhere**: the journal is readable when it has
written nothing or the whole line, and only then. -/
theorem resumes_iff {journal : Option (List Char)} {events : List (SessionEvent F)}
    (h : readSessionEvents lib vals session none journal = .ok events)
    (e : JournalEvent lib vals session) (hnew : e.event.eventId ∉ events.map (·.eventId))
    {k : Nat} {after : Option (List Char)} (hw : Written journal (encode e.event) k after) :
    Resumes lib vals session events e.event after ↔ k = 0 ∨ k = (encode e.event).length := by
  constructor
  · rintro ⟨seq, -, hread, -⟩
    cases hw with
    | unopened => exact .inl rfl
    | opened k hle =>
      by_cases hk : k = 0
      · exact .inl hk
      refine .inr (Nat.le_antisymm hle (Nat.le_of_not_lt fun hlt => ?_))
      obtain ⟨n, hbad⟩ := readText_truncated (readSessionEvents_getD.mp h) e.event
        (Nat.pos_of_ne_zero hk) hlt
      have hread' : readText lib vals session none
          (journal.getD [] ++ (encode e.event).take k) = .ok seq := hread
      rw [hbad] at hread'
      cases hread'
  · rintro (rfl | rfl)
    · refine ⟨events, .inl rfl, ?_, fun e' later hnew' hw' => ?_⟩
      · cases hw with
        | unopened => exact h
        | opened =>
          rw [List.take_zero, List.append_nil]
          exact readSessionEvents_getD.mp h
      · refine written_whole ?_ e' hnew' hw'
        cases hw with
        | unopened => exact h
        | opened =>
          rw [List.take_zero, List.append_nil]
          exact readSessionEvents_getD.mp h
    · have hread := written_whole h e hnew hw
      exact ⟨events ++ [e.event.canonical], .inr rfl, hread,
        fun e' later hnew' hw' => written_whole hread e' hnew' hw'⟩

/-! ## 4. Appenders -/

/-- What one append has written of the line of its event. -/
structure Piece (F : Type) where
  event : SessionEvent F
  written : List Char

/-- A journal and what the appends of a run have written to it, in the
order in which they opened it. -/
structure Journal (F : Type) where
  file : Option (List Char)
  log : List (Piece F)

/-- `SessionEventWriteError`, or a lock that is not acquired in time. -/
inductive AppendError where
  | lockTimeout
  | write

/-- `os.open` with `O_CREAT | O_APPEND` -/
def Journal.opened (e : SessionEvent F) (s : Journal F) : Journal F where
  file := some (s.file.getD [])
  log := s.log ++ [⟨e, []⟩]

/-- `os.write` at the end of the file. -/
def Journal.wrote (cs : List Char) (s : Journal F) : Journal F where
  file := some (s.file.getD [] ++ cs)
  log := s.log.dropLast ++ s.log.getLast?.toList.map fun p => { p with written := p.written ++ cs }

abbrev AppendTxn (F α : Type) : Type 1 := Txn (Journal F) AppendError α

/-- An action that can fail at any time. -/
def AppendTxn.act {α : Type} (rel : Journal F → α → Journal F → Prop) : AppendTxn F α :=
  Txn.attempt (fun _ => True) .write rel

/-- The loop of `os.write`: each call writes a part of what is left that
is not empty. -/
def writeAll (encoded : List Char) : AppendTxn F Unit :=
  if h : encoded = [] then pure ()
  else do
    let written ← AppendTxn.act fun s (n : { n // 0 < n ∧ n ≤ encoded.length }) s' =>
      s' = s.wrote (encoded.take n)
    have : encoded.length - written.val < encoded.length := by
      have := written.property
      omega
    writeAll (encoded.drop written)
  termination_by encoded.length
  decreasing_by rwa [List.length_drop]

/-- What `append_session_event` does under the lock. -/
def appendLocked (e : SessionEvent F) : AppendTxn F Unit := do
  AppendTxn.act fun s (_ : Unit) s' => s' = s.opened e
  -- `os.fstat` and `os.fchmod`
  AppendTxn.act fun s (_ : Unit) s' => s' = s
  writeAll (encode e)
  -- `os.fsync` of the file and of its directory
  AppendTxn.act fun s (_ : Unit) s' => s' = s
  AppendTxn.act fun s (_ : Unit) s' => s' = s

/-- The lock is acquired, or not in time. -/
def acquireLock : Job (Journal F) AppendError Unit :=
  Program.one fun s r s' => s' = s ∧ (r = .ok () ∨ r = .error .lockTimeout)

/-- `append_session_event` of a validated event. -/
def appendSessionEvent (e : SessionEvent F) : Job (Journal F) AppendError Unit := do
  acquireLock
  Job.locked (appendLocked e)

/-- Processes that append events to one journal, and that can be killed at
any time. -/
def appendSystem (lib : Stdlib F) (vals : Validators F) (session : String) :
    System (JournalEvent lib vals session) (Journal F) (Except AppendError Unit) where
  code e := (appendSessionEvent e.event).run
  faulty _ := True
  release := id

/-! ## 5. What they keep to -/

section Appenders

variable {file₀ : Option (List Char)} {s s' : Journal F}

/-- The file is what it was and what the log says. -/
structure Faithful (lib : Stdlib F) (vals : Validators F) (session : String)
    (file₀ : Option (List Char)) (s : Journal F) : Prop where
  file : s.file.getD [] = file₀.getD [] ++ (s.log.map (·.written)).flatten
  valid : ∀ p ∈ s.log, ∃ e : JournalEvent lib vals session, e.event = p.event
  pieces : ∀ p ∈ s.log, p.written <+: encode p.event

/-- Complete lines stay. -/
def KeepsWhole (s s' : Journal F) : Prop :=
  ∀ p ∈ s.log, p.written = encode p.event → p ∈ s'.log

def appending (lib : Stdlib F) (vals : Validators F) (session : String)
    (file₀ : Option (List Char)) : Discipline (Journal F) where
  inv := Faithful lib vals session file₀
  free _ := True
  step := KeepsWhole
  quiet := Eq
  faulty _ := True
  release := id
  step_refl _ _ hp _ := hp
  step_trans hab hbc p hp hw := hbc p (hab p hp hw) hw
  quiet_refl _ := rfl
  quiet_trans := Eq.trans
  quiet_step := by
    rintro a b rfl p hp -
    exact hp
  quiet_inv := by
    rintro a b h rfl
    exact h
  quiet_free _ _ _ := trivial
  release_step _ _ hp _ := hp

theorem Faithful.closed (h : Faithful lib vals session file₀ s) :
    (appending lib vals session file₀).Closed s := ⟨h, h, trivial⟩

theorem Faithful.opened (h : Faithful lib vals session file₀ s)
    (e : JournalEvent lib vals session) : Faithful lib vals session file₀ (s.opened e.event) where
  file := by
    show (some (s.file.getD [])).getD [] = _ ++ ((s.log ++ [(⟨e.event, []⟩ : Piece F)]).map (·.written)).flatten
    simpa using h.file
  valid p hp := by
    rcases List.mem_append.mp hp with hp | hp
    · exact h.valid p hp
    · rw [List.mem_singleton.mp hp]
      exact ⟨e, rfl⟩
  pieces p hp := by
    rcases List.mem_append.mp hp with hp | hp
    · exact h.pieces p hp
    · rw [List.mem_singleton.mp hp]
      exact List.nil_prefix

omit [PyFloatText F] in
/-- The log without its last piece. -/
theorem Journal.log_eq {p : Piece F} (hlast : s.log.getLast? = some p) :
    s.log = s.log.dropLast ++ [p] := by
  have hne : s.log ≠ [] := by
    intro hnil
    rw [hnil] at hlast
    cases hlast
  rw [List.getLast?_eq_some_getLast hne] at hlast
  rw [← Option.some.inj hlast]
  exact (List.dropLast_append_getLast hne).symm

omit [PyFloatText F] in
theorem Journal.wrote_log {p : Piece F} (hlast : s.log.getLast? = some p) (cs : List Char) :
    (s.wrote cs).log = s.log.dropLast ++ [⟨p.event, p.written ++ cs⟩] := by
  show s.log.dropLast ++ s.log.getLast?.toList.map _ = _
  rw [hlast]
  rfl

theorem Faithful.wrote (h : Faithful lib vals session file₀ s) {p : Piece F}
    (hlast : s.log.getLast? = some p) {cs : List Char} (hcs : p.written ++ cs <+: encode p.event) :
    Faithful lib vals session file₀ (s.wrote cs) where
  file := by
    have hfile := h.file
    rw [Journal.log_eq hlast] at hfile
    rw [Journal.wrote_log hlast]
    show s.file.getD [] ++ cs = _
    rw [hfile]
    simp
  valid q hq := by
    rw [Journal.wrote_log hlast] at hq
    rcases List.mem_append.mp hq with hq | hq
    · exact h.valid q (List.mem_of_mem_dropLast hq)
    · rw [List.mem_singleton.mp hq]
      exact h.valid p (List.mem_of_getLast? hlast)
  pieces q hq := by
    rw [Journal.wrote_log hlast] at hq
    rcases List.mem_append.mp hq with hq | hq
    · exact h.pieces q (List.mem_of_mem_dropLast hq)
    · rw [List.mem_singleton.mp hq]
      exact hcs

theorem keepsWhole_opened (e : SessionEvent F) : KeepsWhole s (s.opened e) :=
  fun _ hp _ => List.mem_append_left _ hp

theorem keepsWhole_wrote {p : Piece F} (hlast : s.log.getLast? = some p) {cs : List Char}
    (hcs : p.written ++ cs <+: encode p.event) : KeepsWhole s (s.wrote cs) := by
  intro q hq hwhole
  rw [Journal.log_eq hlast] at hq
  rw [Journal.wrote_log hlast]
  rcases List.mem_append.mp hq with hq | hq
  · exact List.mem_append_left _ hq
  · rw [List.mem_singleton.mp hq] at hwhole ⊢
    -- a line that is complete is not written to
    have hnil : cs = [] := by
      have hlen := hcs.length_le
      rw [← hwhole, List.length_append] at hlen
      exact List.eq_nil_of_length_eq_zero (by omega)
    rw [hnil, List.append_nil]
    exact List.mem_append_right _ (List.mem_singleton.mpr rfl)

variable {α β : Type} {post : Except AppendError β → Journal F → Prop}

theorem appending_still : (appending lib vals session file₀).Still := fun h => h

/-- An action of an append, which may fail. -/
theorem act_meets {rel : Journal F → α → Journal F → Prop} {f : α → AppendTxn F β}
    (h : Faithful lib vals session file₀ s)
    (herror : ∀ s', Faithful lib vals session file₀ s' → post (.error .write) s')
    (hnext : ∀ a s', rel s a s' → Faithful lib vals session file₀ s' ∧ KeepsWhole s s' ∧
      Section.Meets (appending lib vals session file₀) post (f a) s') :
    Section.Meets (appending lib vals session file₀) post (AppendTxn.act rel >>= f : AppendTxn F β)
      s :=
  appending_still.attempt h (fun _ => h.closed) (fun _ => herror s h) fun a s' hr =>
    have ⟨hs', hkeep, hmeets⟩ := hnext a s' hr
    ⟨hkeep, fun _ => herror s' hs', hmeets⟩

/-- The loop of writes completes the line, or leaves a piece of it. -/
theorem writeAll_meets (e : JournalEvent lib vals session) (rest : List Char) :
    ∀ {s : Journal F} {w : List Char}, w ++ rest = encode e.event →
      Faithful lib vals session file₀ s → s.log.getLast? = some ⟨e.event, w⟩ →
      Section.Meets (appending lib vals session file₀) (fun r s' =>
        Faithful lib vals session file₀ s' ∧
          (r = .ok () → s'.log.getLast? = some ⟨e.event, encode e.event⟩)) (writeAll rest) s := by
  induction hn : rest.length using Nat.strongRecOn generalizing rest with
  | ind n ih =>
    intro s w hw hs hlast
    unfold writeAll
    split
    · rename_i hnil
      rw [hnil, List.append_nil] at hw
      exact appending_still.pure ⟨hs, fun _ => hw ▸ hlast⟩
    refine act_meets hs (fun s' hs' => ⟨hs', nofun⟩) ?_
    rintro ⟨k, hpos, hle⟩ s' rfl
    have hpre : w ++ rest.take k <+: encode e.event := by
      rw [← hw]
      exact (List.prefix_append_right_inj w).mpr (List.take_prefix k rest)
    refine ⟨hs.wrote hlast hpre, keepsWhole_wrote hlast hpre, ?_⟩
    refine ih _ ?_ (rest.drop k) rfl (w := w ++ rest.take k) ?_ (hs.wrote hlast hpre) ?_
    · rw [List.length_drop]
      omega
    · rw [List.append_assoc, List.take_append_drop, hw]
    · rw [Journal.wrote_log hlast, List.getLast?_concat]

/-- Under the lock an append keeps the file to its log and has a complete
line there when it returns. -/
theorem appendLocked_meets (e : JournalEvent lib vals session)
    (hs : Faithful lib vals session file₀ s) :
    Section.Meets (appending lib vals session file₀) (fun r s' =>
        Faithful lib vals session file₀ s' ∧
          (r = .ok () → (⟨e.event, encode e.event⟩ : Piece F) ∈ s'.log))
      (appendLocked e.event) s := by
  have herror : ∀ s', Faithful lib vals session file₀ s' → Faithful lib vals session file₀ s' ∧
      ((Except.error AppendError.write : Except AppendError Unit) = .ok () →
        (⟨e.event, encode e.event⟩ : Piece F) ∈ s'.log) := fun s' hs' => ⟨hs', nofun⟩
  refine act_meets hs herror ?_
  rintro - s₁ rfl
  have hs₁ := hs.opened e
  have hlast : (s.opened e.event).log.getLast? = some ⟨e.event, []⟩ := List.getLast?_concat
  refine ⟨hs₁, keepsWhole_opened _, act_meets hs₁ herror ?_⟩
  rintro - s₂ rfl
  refine ⟨hs₁, fun _ hp _ => hp, appending_still.bind ?_⟩
  refine (writeAll_meets e (encode e.event) rfl hs₁ hlast).mono ?_
  rintro r s₃ ⟨hs₃, hwhole⟩
  cases r with
  | error err => exact ⟨hs₃, nofun⟩
  | ok u =>
    have hmem : (⟨e.event, encode e.event⟩ : Piece F) ∈ s₃.log :=
      List.mem_of_getLast? (hwhole rfl)
    refine act_meets hs₃ herror ?_
    rintro - s₄ rfl
    refine ⟨hs₃, fun _ hp _ => hp, Txn.Meets.last (act_meets hs₃ herror ?_)⟩
    rintro - s₅ rfl
    exact ⟨hs₃, fun _ hp _ => hp, appending_still.pure ⟨hs₃, fun _ => hmem⟩⟩

theorem append_meets (e : JournalEvent lib vals session)
    (hs : Faithful lib vals session file₀ s) :
    Program.Meets (appending lib vals session file₀) (fun r s' =>
      r = .ok () → (⟨e.event, encode e.event⟩ : Piece F) ∈ s'.log)
      (appendSessionEvent e.event).run s := by
  refine Program.Meets.bind hs ?_
  rintro s₁ - - r s' ⟨rfl, rfl | rfl⟩
  · refine ⟨rfl, fun s₂ _ _ s₃ _ hs₃ _ => (appendLocked_meets e hs₃).mono ?_⟩
    rintro r s₄ ⟨hs₄, hwhole⟩
    exact ⟨hs₄.closed, fun s₅ hstep _ hr => hstep _ (hwhole hr) rfl⟩
  · exact ⟨rfl, fun s₂ _ _ _ _ _ => nofun⟩

/-! ## 6. Every run -/

variable (lib vals session) in
/-- What holds of a journal in a run of appenders: what they write does
not mix, an append that returns has written its line, and the events of
whole lines are read as long as no other line was begun. -/
structure Undisturbed {π : Type} (file₀ : Option (List Char)) (events : List (SessionEvent F))
    (c : Config π (JournalEvent lib vals session) (Journal F) (Except AppendError Unit)) :
    Prop where
  file : c.shared.file.getD [] = file₀.getD [] ++ (c.shared.log.map (·.written)).flatten
  pieces : ∀ p ∈ c.shared.log, p.written <+: encode p.event
  returned : ∀ p e start, c.tasks p = some ⟨e, start, .free (.ret (.ok ()))⟩ →
    (⟨e.event, encode e.event⟩ : Piece F) ∈ c.shared.log
  readable : (∀ p ∈ c.shared.log, p.written = [] ∨ p.written = encode p.event) →
    (events.map (·.eventId) ++ (c.shared.log.filter (·.written ≠ [])).map (·.event.eventId)).Nodup →
    readSessionEvents lib vals session none c.shared.file
      = .ok (events ++ (c.shared.log.filter (·.written ≠ [])).map (·.event.canonical))

theorem appendSystem_keeps : (appendSystem lib vals session).Keeps
    (appending lib vals session file₀) (fun e _ r s' =>
      r = .ok () → (⟨e.event, encode e.event⟩ : Piece F) ∈ s'.log) where
  faulty := rfl
  release := rfl
  code e _ hs := append_meets e hs

/-- Reading a journal after whole lines were written to it. -/
theorem readText_whole {text : List Char} {events : List (SessionEvent F)}
    (h : readText lib vals session none text = .ok events) : ∀ log : List (Piece F),
    (∀ p ∈ log, ∃ e : JournalEvent lib vals session, e.event = p.event) →
    (∀ p ∈ log, p.written = [] ∨ p.written = encode p.event) →
    (events.map (·.eventId) ++ (log.filter (·.written ≠ [])).map (·.event.eventId)).Nodup →
    readText lib vals session none (text ++ (log.map (·.written)).flatten)
      = .ok (events ++ (log.filter (·.written ≠ [])).map (·.event.canonical))
  | [], _, _, _ => by simpa using h
  | p :: log, hvalid, hwhole, hids => by
      have hvalid' := fun q hq => hvalid q (List.mem_cons_of_mem p hq)
      have hwhole' := fun q hq => hwhole q (List.mem_cons_of_mem p hq)
      by_cases hp : p.written = []
      · have hfilter : (p :: log).filter (·.written ≠ []) = log.filter (·.written ≠ []) := by
          simp [hp]
        rw [hfilter] at hids ⊢
        have ih := readText_whole h log hvalid' hwhole' hids
        simpa [hp] using ih
      · have hfilter : (p :: log).filter (·.written ≠ []) = p :: log.filter (·.written ≠ []) := by
          simp [hp]
        rw [hfilter] at hids ⊢
        obtain ⟨e, he⟩ := hvalid p List.mem_cons_self
        have hline : p.written = encode e.event := by
          rw [he]
          exact (hwhole p List.mem_cons_self).resolve_left hp
        have hnew : e.event.eventId ∉ events.map (·.eventId) := fun hmem =>
          (List.disjoint_of_nodup_append hids) hmem (by rw [he]; exact List.mem_cons_self)
        have hread := readText_append h e hnew rfl
        rw [← hline] at hread
        have ih := readText_whole hread log hvalid' hwhole' (by simpa [he] using hids)
        simpa [he] using ih

/-- **What appenders write never mixes**, in any run. -/
theorem appendSystem_undisturbed {π : Type} [DecidableEq π] {events : List (SessionEvent F)}
    (h : readSessionEvents lib vals session none file₀ = .ok events)
    {c : Config π (JournalEvent lib vals session) (Journal F) (Except AppendError Unit)}
    (hc : Reachable (appendSystem lib vals session) ⟨file₀, []⟩ c) :
    Undisturbed lib vals session file₀ events c := by
  have hinit : Faithful lib vals session file₀ (⟨file₀, []⟩ : Journal F) :=
    ⟨by simp, nofun, nofun⟩
  have hkeeps : (appendSystem lib vals session).Keeps (appending lib vals session file₀) _ :=
    appendSystem_keeps
  have hok := hc.ok hkeeps hinit trivial
  have hfaith : Faithful lib vals session file₀ c.shared := hok.inv
  refine ⟨hfaith.file, hfaith.pieces, fun p e start ht => hok.result ht rfl, fun hwhole hids => ?_⟩
  rw [readSessionEvents_getD, hfaith.file]
  exact readText_whole (readSessionEvents_getD.mp h) _ hfaith.valid hwhole hids

end Appenders

/-! ## 7. What an interrupted append leaves behind -/

/-- **An append that is stopped leaves the journal readable exactly when it
has written nothing or its whole line**, for every journal that reads and
every event with a fresh id; and appenders never mix what they write, in
any interleaving and with any failures and kills. -/
theorem interruptedAppend_readable_iff {file₀ : Option (List Char)} {events : List (SessionEvent F)}
    (h : readSessionEvents lib vals session none file₀ = .ok events) :
    (∀ (e : JournalEvent lib vals session) (k : Nat) (after : Option (List Char)),
      e.event.eventId ∉ events.map (·.eventId) → Written file₀ (encode e.event) k after →
      (Resumes lib vals session events e.event after ↔ k = 0 ∨ k = (encode e.event).length)) ∧
    ∀ (π : Type) [DecidableEq π]
      (c : Config π (JournalEvent lib vals session) (Journal F) (Except AppendError Unit)),
      Reachable (appendSystem lib vals session) ⟨file₀, []⟩ c →
      Undisturbed lib vals session file₀ events c :=
  ⟨fun e _ _ hnew hw => resumes_iff h e hnew hw,
    fun _ _ _ hc => appendSystem_undisturbed h hc⟩

section Example

def sampleLib : Stdlib FloatText where
  parseIso s := s == "2026-01-01T00:00:00Z"
  repr _ := ""
  jsonError _ := ""

def noValidators : Validators FloatText where
  payload _ _ := .ok ()
  event _ := .ok ()
  payload_sorted _ _ _ := rfl
  event_canonical _ _ := rfl

def sampleEvent : SessionEvent FloatText where
  schemaVersion := 1
  eventId := "sevt_00000000000000000000000000000000"
  timestamp := "2026-01-01T00:00:00Z"
  session := "planner"
  runtime := "codex"
  eventType := "run_started"
  runId := none
  originSurface := "launcher"
  operation := none
  outcome := "success"
  reasonCode := none
  payload := []

theorem sampleEvent_valid : sampleEvent.Valid sampleLib noValidators where
  schemaVersion := rfl
  eventId := by decide
  timestamp := by decide
  session := by decide
  runtime := by decide
  eventType := by decide
  runId := nofun
  originSurface := by decide
  operation := nofun
  outcome := by decide
  reasonCode := nofun
  payload := rfl
  domain := rfl
  event := rfl

def sampleJournalEvent : JournalEvent sampleLib noValidators "planner" where
  event := sampleEvent
  valid := sampleEvent_valid
  session_eq := rfl
  proper := ⟨List.nodup_nil, trivial⟩

theorem noJournal_reads :
    readSessionEvents sampleLib noValidators "planner" none none = .ok [] := rfl

/-- One byte of the first event is enough to lose the journal. -/
theorem oneByte_unreadable :
    Written none (encode sampleEvent) 1 (some ((encode sampleEvent).take 1)) ∧
      ¬ Resumes sampleLib noValidators "planner" [] sampleEvent
        (some ((encode sampleEvent).take 1)) := by
  have hw : Written none (encode sampleEvent) 1 (some ((encode sampleEvent).take 1)) :=
    .opened 1 (encode_length_pos sampleEvent)
  refine ⟨hw, fun h => ?_⟩
  have hlen : 1 ≠ (encode sampleEvent).length := by decide +kernel
  rcases (resumes_iff noJournal_reads sampleJournalEvent List.not_mem_nil hw).mp h with h | h
  · cases h
  · exact hlen h

theorem sampleAppend_readable :
    Resumes sampleLib noValidators "planner" [] sampleEvent (some (encode sampleEvent)) := by
  have hw : Written none (encode sampleEvent) (encode sampleEvent).length
      (some (encode sampleEvent)) := by
    have h : Written none (encode sampleEvent) (encode sampleEvent).length
        (some ([] ++ (encode sampleEvent).take (encode sampleEvent).length)) :=
      .opened _ (Nat.le_refl _)
    rwa [List.take_length] at h
  exact ((interruptedAppend_readable_iff noJournal_reads).1 sampleJournalEvent _ _
    List.not_mem_nil hw).mpr (.inr rfl)

end Example

end MultiForge.Session
