/-
MultiForge.Session.ReviewHistory — the compacted journal of Stop reviews.

`update_review_checkpoint` replaces the journal by a rename, under the lock
of the journal; a marker says that there is one. `read_review_checkpoint`
takes no lock. Both look at the journal in the steps of
`read_session_events`: does the file exist, open it, `fstat` the open
file, read it.

A rename gives the journal a new inode. What an inode holds never changes,
so a reader that has the file open reads one whole journal; but its
`fstat` tells the file apart from the journal, whose `st_nlink` is one.
`published` is not on disk: it is what has been renamed into place, in
order, and `previous` in the result of an update is what its callback saw.
-/
import MultiForge.Session.Journal

namespace MultiForge.Session

open Json Locked

variable {F : Type} [PyFloatText F]

/-! ## 1. The files -/

/-- The journal of a review history, its marker, and what has been
published. -/
structure History (F : Type) where
  /-- the inode of the journal and its text -/
  journal : Option (Nat × List Char)
  /-- inodes are not used twice while a reader has them open -/
  nextInode : Nat
  marker : Option (List Char)
  published : List (SessionEvent F)

def markerText : List Char := "review-checkpoint-v1\n".toList

def MAX_HISTORY_BYTES : Nat := 2000000

def MAX_CHECKPOINT_BYTES : Nat := 900000

def COMPACTION_BYTES : Nat := 1800000

def COMPACTION_RECORDS : Nat := 16

/-- What reading or updating the history raises. -/
inductive HistoryError where
  | markerDamaged
  | missing
  /-- a journal without records; a reader also says so when the journal was
  created between its two looks for it -/
  | empty
  /-- `st_nlink != 1`: the file that was opened is not the journal any more -/
  | replaced (opened current : Option Nat)
  | unreadable (error : JournalError)
  | tooLarge
  /-- an `OSError`, or what the callback raises -/
  | fault

section Reading

variable (lib : Stdlib F) (vals : Validators F) (session : String)
variable {m : Type → Type 1} [Monad m] [MonadExcept HistoryError m]
  (look : {α : Type} → (History F → α) → m α)

/-- `_validate_review_marker` and the check for a journal that is gone. -/
def checkMarker : m Unit := do
  let marker ← look (·.marker)
  if marker.all (· == markerText) then do
    let marked ← look (·.marker.isSome)
    if marked then do
      let there ← look (·.journal.isSome)
      if there then pure () else throw .missing
    else pure ()
  else throw .markerDamaged

/-- What `read_session_events` makes of the file it has opened, once it
has looked at its links. -/
def readOpened (opened : Option (Nat × List Char)) (current : Option Nat) :
    Except HistoryError (List (SessionEvent F)) :=
  match opened with
  | none => .error .fault
  | some (inode, text) =>
      if current = some inode then
        (readText lib vals session MAX_HISTORY_BYTES text).mapError .unreadable
      else .error (.replaced inode current)

/-- `read_session_events` with `max_bytes`. -/
def readRecords : m (List (SessionEvent F)) := do
  let there ← look (·.journal.isSome)
  if there then do
    let opened ← look (·.journal)
    let current ← look (·.journal.map Prod.fst)
    match readOpened lib vals session opened current with
    | .error e => throw e
    | .ok events => pure events
  else pure []

/-- `read_review_checkpoint` -/
def readReviewCheckpoint : m (Option (SessionEvent F)) := do
  checkMarker look
  let records ← readRecords lib vals session look
  if records.isEmpty then do
    let there ← look (·.journal.isSome)
    if there then throw .empty else pure none
  else pure records.getLast?

end Reading

/-! ## 2. Updates -/

abbrev HistoryTxn (F α : Type) : Type 1 := Txn (History F) HistoryError α

/-- An action of an update, which can fail at any time. -/
def HistoryTxn.act {α : Type} (rel : History F → α → History F → Prop) : HistoryTxn F α :=
  Txn.attempt (fun _ => True) .fault rel

def HistoryTxn.look {α : Type} (f : History F → α) : HistoryTxn F α :=
  .act fun s a s' => a = f s ∧ s' = s

/-- `atomic_write_text(journal, text)`, its rename. -/
def History.rename (text : List Char) (e : SessionEvent F) (s : History F) : History F where
  journal := some (s.nextInode, text)
  nextInode := s.nextInode + 1
  marker := s.marker
  published := s.published ++ [e]

/-- `atomic_write_text(marker, ...)` -/
def History.mark (s : History F) : History F := { s with marker := some markerText }

/-- The text of the compacted journal: the old records, unless they are
too many or too long, and the new one. -/
def compacted (records : List (SessionEvent F)) (e : SessionEvent F) : List Char :=
  if COMPACTION_BYTES < byteSize (records.flatMap encode ++ encode e)
      ∨ COMPACTION_RECORDS ≤ records.length then
    encode e
  else records.flatMap encode ++ encode e

/-- What an update returns, and what its callback saw. -/
structure Updated (F : Type) where
  previous : Option (SessionEvent F)
  returned : Option (SessionEvent F)

section Update

variable (lib : Stdlib F) (vals : Validators F) (session : String)

/-- The callback: it raises, returns nothing, or returns a valid event
with a freshly minted id. -/
def callback : HistoryTxn F (Option (JournalEvent lib vals session)) :=
  .act fun s candidate s' => s' = s ∧
    ∀ e, candidate = some e → e.event.eventId ∉ s.published.map (·.eventId)

/-- Write the journal, then the marker. -/
def publishCheckpoint (records : List (SessionEvent F)) (e : SessionEvent F) : HistoryTxn F Unit := do
  -- the temporary file is not the journal
  HistoryTxn.act fun s (_ : Unit) s' => s' = s
  HistoryTxn.act fun s (_ : Unit) s' => s' = s.rename (compacted records e) e
  -- `chmod` and `_fsync_directory`
  HistoryTxn.act fun s (_ : Unit) s' => s' = s
  let marked ← HistoryTxn.look (·.marker.isSome)
  if marked then pure ()
  else do
    HistoryTxn.act fun s (_ : Unit) s' => s' = s
    HistoryTxn.act fun s (_ : Unit) s' => s' = s.mark
    HistoryTxn.act fun s (_ : Unit) s' => s' = s

/-- What `update_review_checkpoint` does under the lock. -/
def updateLocked : HistoryTxn F (Updated F) := do
  checkMarker HistoryTxn.look
  let records ← readRecords lib vals session HistoryTxn.look
  let there ← HistoryTxn.look (·.journal.isSome)
  if there && records.isEmpty then throw .empty
  else do
    let candidate ← callback lib vals session
    match candidate with
    | none => pure ⟨records.getLast?, records.getLast?⟩
    | some e =>
        if MAX_CHECKPOINT_BYTES < byteSize (encode e.event) then throw .tooLarge
        else do
          publishCheckpoint records e.event
          pure ⟨records.getLast?, some e.event⟩

/-- What a process does to the history. -/
inductive HistoryOp where
  | update
  | read

/-- What comes of it. -/
inductive HistoryResult (F : Type) where
  | updated (r : Except HistoryError (Updated F))
  | read (r : Except HistoryError (Option (SessionEvent F)))

def HistoryOp.program : HistoryOp → Program (History F) (HistoryResult F)
  | .update => .updated <$> (Job.locked (updateLocked lib vals session) :
      Job (History F) HistoryError (Updated F)).run
  | .read => .read <$> (readReviewCheckpoint lib vals session Job.read :
      Job (History F) HistoryError (Option (SessionEvent F))).run

/-- Processes that read and update one history, and that can be killed at
any time. -/
def historySystem : System HistoryOp (History F) (HistoryResult F) where
  code op := op.program lib vals session
  faulty _ := True
  release := id

end Update

/-! ## 3. What the history keeps to -/

section Keeping

variable {lib : Stdlib F} {vals : Validators F} {session : String} {s s' start : History F}

/-- A journal holds the latest records that were published. -/
structure Holds (published : List (SessionEvent F)) (text : List Char)
    (kept : List (SessionEvent F)) : Prop where
  suffix : kept <:+ published
  ne : kept ≠ []
  content : text = kept.flatMap encode
  size : byteSize text ≤ COMPACTION_BYTES

/-- The files say what has been published. -/
structure Stored (lib : Stdlib F) (vals : Validators F) (session : String) (s : History F) :
    Prop where
  absent : s.journal = none → s.published = [] ∧ s.marker = none
  present : ∀ inode text, s.journal = some (inode, text) →
    inode < s.nextInode ∧ ∃ kept, Holds s.published text kept
  marker : ∀ text, s.marker = some text → text = markerText
  valid : ∀ e ∈ s.published, ∃ j : JournalEvent lib vals session, j.event = e
  fresh : (s.published.map (·.eventId)).Nodup

/-- Nothing that was published is taken back, and a journal changes only
when something is published. -/
structure Later (s s' : History F) : Prop where
  published : s.published <+: s'.published
  there : s.journal.isSome → s'.journal.isSome
  same : s'.published = s.published → s'.journal = s.journal

omit [PyFloatText F] in
theorem Later.refl (s : History F) : Later s s := ⟨List.prefix_refl _, id, fun _ => rfl⟩

omit [PyFloatText F] in
theorem Later.trans {a b c : History F} (h : Later a b) (h' : Later b c) : Later a c where
  published := h.published.trans h'.published
  there ha := h'.there (h.there ha)
  same heq := by
    have hab : b.published = a.published := by
      have hle := h'.published.length_le
      rw [heq] at hle
      exact (h.published.eq_of_length_le hle).symm
    rw [h'.same (heq.trans hab.symm), h.same hab]

def keeping (lib : Stdlib F) (vals : Validators F) (session : String) : Discipline (History F) where
  inv := Stored lib vals session
  free _ := True
  step := Later
  quiet := Eq
  faulty _ := True
  release := id
  step_refl := Later.refl
  step_trans := Later.trans
  quiet_refl _ := rfl
  quiet_trans := Eq.trans
  quiet_step := by
    rintro a b rfl
    exact .refl a
  quiet_inv := by
    rintro a b h rfl
    exact h
  quiet_free _ _ _ := trivial
  release_step := Later.refl

theorem keeping_still : (keeping lib vals session).Still := fun h => h

theorem Stored.closed (h : Stored lib vals session s) : (keeping lib vals session).Closed s :=
  ⟨h, h, trivial⟩

/-- A journal that has nothing published is not there. -/
theorem Stored.journal_none (h : Stored lib vals session s) (hp : s.published = []) :
    s.journal = none := by
  cases hj : s.journal with
  | none => rfl
  | some file =>
    obtain ⟨-, kept, hkept⟩ := h.present file.1 file.2 hj
    have := hkept.suffix
    rw [hp, List.suffix_nil] at this
    exact absurd this hkept.ne

omit [PyFloatText F] in
theorem any_lt_eq_false {n m : Nat} (h : m ≤ n) :
    (some n).any (fun k => decide (k < m)) = false := by
  simpa using h

/-- Reading what was published. -/
theorem readText_published : ∀ {kept : List (SessionEvent F)},
    (∀ e ∈ kept, ∃ j : JournalEvent lib vals session, j.event = e) →
    (kept.map (·.eventId)).Nodup →
    readText lib vals session none (kept.flatMap encode) = .ok (kept.map (·.canonical)) := by
  intro kept hvalid hids
  have hempty : readText lib vals session none [] = .ok [] := rfl
  have hfilter : (kept.map fun e => (⟨e, encode e⟩ : Piece F)).filter (·.written ≠ [])
      = kept.map fun e => ⟨e, encode e⟩ := by
    refine List.filter_eq_self.mpr fun p hp => ?_
    obtain ⟨e, -, rfl⟩ := List.mem_map.mp hp
    exact decide_eq_true (List.ne_nil_of_length_pos (encode_length_pos e))
  have h := readText_whole hempty (kept.map fun e => (⟨e, encode e⟩ : Piece F)) ?_ ?_ ?_
  · rw [hfilter] at h
    simpa [List.flatMap_def, Function.comp_def] using h
  · intro p hp
    obtain ⟨e, he, rfl⟩ := List.mem_map.mp hp
    exact hvalid e he
  · intro p hp
    obtain ⟨e, he, rfl⟩ := List.mem_map.mp hp
    exact .inr rfl
  · rw [hfilter]
    simpa [Function.comp_def] using hids

theorem Stored.readText (h : Stored lib vals session s) {inode : Nat} {text : List Char}
    (hj : s.journal = some (inode, text)) :
    ∃ kept, Holds s.published text kept ∧
      readText lib vals session (some MAX_HISTORY_BYTES) text = .ok (kept.map (·.canonical)) := by
  obtain ⟨-, kept, hkept⟩ := h.present inode text hj
  refine ⟨kept, hkept, ?_⟩
  have hvalid : ∀ e ∈ kept, ∃ j : JournalEvent lib vals session, j.event = e :=
    fun e he => h.valid e (hkept.suffix.subset he)
  have hids : (kept.map (·.eventId)).Nodup := h.fresh.sublist (hkept.suffix.sublist.map _)
  obtain ⟨-, hended, hlines⟩ := readText_ok.mp (readText_published hvalid hids)
  rw [← hkept.content] at hended hlines
  refine readText_ok.mpr ⟨any_lt_eq_false ?_, hended, hlines⟩
  exact hkept.size.trans (show COMPACTION_BYTES ≤ MAX_HISTORY_BYTES by decide)

/-- A reader whose file is still the journal. -/
theorem Stored.readOpened (h : Stored lib vals session s) {inode : Nat} {text : List Char}
    (hj : s.journal = some (inode, text)) :
    ∃ kept, Holds s.published text kept ∧
      readOpened lib vals session s.journal (s.journal.map Prod.fst)
        = .ok (kept.map (·.canonical)) := by
  obtain ⟨kept, hkept, hread⟩ := h.readText hj
  refine ⟨kept, hkept, ?_⟩
  rw [hj]
  show (if some inode = some inode then _ else _) = _
  rw [if_pos rfl, hread]
  rfl

/-- Records that were read: the latest of what was published. -/
def Latest (published records : List (SessionEvent F)) : Prop :=
  ∃ kept, kept <:+ published ∧ (kept = [] → published = []) ∧ records = kept.map (·.canonical)

omit [PyFloatText F] in
theorem Latest.getLast {published records : List (SessionEvent F)} (h : Latest published records) :
    records.getLast? = published.getLast?.map (·.canonical) := by
  obtain ⟨kept, ⟨older, rfl⟩, hnil, rfl⟩ := h
  cases hk : kept with
  | nil =>
    have := hnil hk
    rw [hk] at this
    rw [this]
    rfl
  | cons e rest =>
    have hne : e :: rest ≠ [] := nofun
    rw [List.getLast?_append_of_ne_nil _ hne, List.getLast?_map]

omit [PyFloatText F] in
theorem Latest.eq_nil {published records : List (SessionEvent F)} (h : Latest published records) :
    records = [] ↔ published = [] := by
  obtain ⟨kept, hsuffix, hnil, rfl⟩ := h
  rw [List.map_eq_nil_iff]
  refine ⟨hnil, fun hp => ?_⟩
  rwa [hp, List.suffix_nil] at hsuffix

theorem encode_canonical (e : SessionEvent F) : encode e.canonical = encode e := by
  rw [encode_eq, encode_eq, sortKeys_asdict, sortKeys_asdict]
  simp [SessionEvent.canonical]

/-- **Compaction keeps the latest records within the reader's limit.** -/
theorem compacted_holds {published records : List (SessionEvent F)}
    (h : Latest published records) {e : SessionEvent F}
    (hsize : byteSize (encode e) ≤ MAX_CHECKPOINT_BYTES) :
    ∃ kept, Holds (published ++ [e]) (compacted records e) kept := by
  unfold compacted
  split
  · have hle : MAX_CHECKPOINT_BYTES ≤ COMPACTION_BYTES := by decide
    exact ⟨[e], List.suffix_append _ _, nofun, by simp, hsize.trans hle⟩
  · rename_i hfits
    obtain ⟨kept, ⟨older, rfl⟩, -, rfl⟩ := h
    have hretained : (kept.map (·.canonical)).flatMap encode = kept.flatMap encode := by
      simp only [List.flatMap_map, encode_canonical]
    refine ⟨kept ++ [e], ⟨older, by simp⟩, by simp, by simp [hretained], ?_⟩
    exact Nat.le_of_not_lt fun hlt => hfits (.inl hlt)

/-- The rename publishes. -/
theorem Stored.rename (h : Stored lib vals session s) {records : List (SessionEvent F)}
    (hrecords : Latest s.published records) (e : JournalEvent lib vals session)
    (hnew : e.event.eventId ∉ s.published.map (·.eventId))
    (hsize : byteSize (encode e.event) ≤ MAX_CHECKPOINT_BYTES) :
    Stored lib vals session (s.rename (compacted records e.event) e.event) ∧
      Later s (s.rename (compacted records e.event) e.event) := by
  refine ⟨⟨nofun, ?_, h.marker, ?_, ?_⟩, ⟨List.prefix_append _ _, fun _ => rfl, fun heq => ?_⟩⟩
  · rintro inode text hj
    cases hj
    exact ⟨Nat.lt_succ_self _, compacted_holds hrecords hsize⟩
  · intro x hx
    rcases List.mem_append.mp hx with hx | hx
    · exact h.valid x hx
    · exact ⟨e, (List.mem_singleton.mp hx).symm⟩
  · show ((s.published ++ [e.event]).map _).Nodup
    rw [List.map_append]
    refine List.nodup_append.mpr ⟨h.fresh, List.nodup_singleton _, ?_⟩
    rintro a ha b hb rfl
    rw [List.map_singleton, List.mem_singleton] at hb
    exact hnew (hb ▸ ha)
  · have := congrArg List.length heq
    simp [History.rename] at this

theorem Stored.mark (h : Stored lib vals session s) (hj : s.journal.isSome) :
    Stored lib vals session s.mark ∧ Later s s.mark := by
  refine ⟨⟨fun hnone => ?_, h.present, ?_, h.valid, h.fresh⟩,
    ⟨List.prefix_refl _, id, fun _ => rfl⟩⟩
  · have hnone : s.journal = none := hnone
    rw [hnone] at hj
    cases hj
  · rintro text htext
    exact (Option.some.inj htext).symm

/-! ## 4. Updates -/

section Updates

variable {α β : Type} {post : Except HistoryError β → History F → Prop}

theorem historyAct_meets {rel : History F → α → History F → Prop} {f : α → HistoryTxn F β}
    (h : Stored lib vals session s) (herror : post (.error .fault) s)
    (hnext : ∀ a s', rel s a s' → Later s s' ∧ post (.error .fault) s' ∧
      Section.Meets (keeping lib vals session) post (f a) s') :
    Section.Meets (keeping lib vals session) post (HistoryTxn.act rel >>= f : HistoryTxn F β) s :=
  keeping_still.attempt h (fun _ => h.closed) (fun _ => herror) fun a s' hr =>
    have ⟨hlater, herror', hmeets⟩ := hnext a s' hr
    ⟨hlater, fun _ => herror', hmeets⟩

theorem look_meets {g : History F → α} {f : α → HistoryTxn F β} (h : Stored lib vals session s)
    (herror : post (.error .fault) s)
    (hnext : Section.Meets (keeping lib vals session) post (f (g s)) s) :
    Section.Meets (keeping lib vals session) post (HistoryTxn.look g >>= f : HistoryTxn F β) s := by
  refine historyAct_meets h herror ?_
  rintro a s' ⟨rfl, rfl⟩
  exact ⟨.refl _, herror, hnext⟩

/-- An action without an effect on the history. -/
theorem idle_meets {f : Unit → HistoryTxn F β} (h : Stored lib vals session s)
    (herror : post (.error .fault) s)
    (hnext : Section.Meets (keeping lib vals session) post (f ()) s) :
    Section.Meets (keeping lib vals session) post
      (HistoryTxn.act (fun s (_ : Unit) s' => s' = s) >>= f : HistoryTxn F β) s := by
  refine historyAct_meets h herror ?_
  rintro - s' rfl
  exact ⟨.refl _, herror, hnext⟩

theorem checkMarker_meets {post : Except HistoryError Unit → History F → Prop}
    (h : Stored lib vals session s) (herror : post (.error .fault) s) (hok : post (.ok ()) s) :
    Section.Meets (keeping lib vals session) post (checkMarker HistoryTxn.look) s := by
  unfold checkMarker
  refine look_meets h herror ?_
  have hvalid : s.marker.all (· == markerText) = true := by
    cases hm : s.marker with
    | none => rfl
    | some text => exact beq_iff_eq.mpr (h.marker text hm)
  rw [if_pos hvalid]
  refine look_meets h herror ?_
  split
  · rename_i hmarked
    refine look_meets h herror ?_
    have hthere : s.journal.isSome = true := by
      cases hj : s.journal with
      | some file => rfl
      | none =>
        rw [(h.absent hj).2] at hmarked
        cases hmarked
    rw [if_pos hthere]
    exact keeping_still.pure hok
  · exact keeping_still.pure hok

theorem readRecords_meets {post : Except HistoryError (List (SessionEvent F)) → History F → Prop}
    (h : Stored lib vals session s) (herror : post (.error .fault) s)
    (hok : ∀ records, Latest s.published records → post (.ok records) s) :
    Section.Meets (keeping lib vals session) post
      (readRecords lib vals session HistoryTxn.look) s := by
  unfold readRecords
  refine look_meets h herror ?_
  cases hj : s.journal with
  | none =>
    rw [if_neg (by simp)]
    exact keeping_still.pure (hok [] ⟨[], List.nil_suffix, fun _ => (h.absent hj).1, rfl⟩)
  | some file =>
    obtain ⟨inode, text⟩ := file
    rw [Option.isSome_some, if_pos rfl]
    refine look_meets h herror (look_meets h herror ?_)
    obtain ⟨kept, hkept, hread⟩ := h.readOpened hj
    rw [hread]
    exact keeping_still.pure (hok _ ⟨kept, hkept.suffix, fun hn => absurd hn hkept.ne, rfl⟩)

/-- What an update that started in a state ends with. -/
def UpdateLaw (start : History F) (r : Except HistoryError (Updated F)) (s' : History F) : Prop :=
  match r with
  | .ok u => ∃ seen, start.published <+: seen ∧ seen <+: s'.published ∧
      u.previous = seen.getLast?.map (·.canonical) ∧
      (u.returned = u.previous ∨ ∃ e, u.returned = some e ∧ seen ++ [e] <+: s'.published)
  | .error e => e = .fault ∨ e = .tooLarge

theorem publishCheckpoint_meets {records : List (SessionEvent F)} (h : Stored lib vals session s)
    (hrecords : Latest s.published records) (e : JournalEvent lib vals session)
    (hnew : e.event.eventId ∉ s.published.map (·.eventId))
    (hsize : byteSize (encode e.event) ≤ MAX_CHECKPOINT_BYTES) :
    Section.Meets (keeping lib vals session) (fun r s' => Stored lib vals session s' ∧
        (r = .ok () → s'.published = s.published ++ [e.event]) ∧ (∀ err, r = .error err → err = .fault))
      (publishCheckpoint records e.event) s := by
  have herror : ∀ {s' : History F}, Stored lib vals session s' → Stored lib vals session s' ∧
      ((Except.error HistoryError.fault : Except HistoryError Unit) = .ok () →
        s'.published = s.published ++ [e.event]) ∧
      (∀ err, (Except.error HistoryError.fault : Except HistoryError Unit) = .error err → err = .fault) :=
    fun hs => ⟨hs, nofun, fun err he => (Except.error.inj he).symm⟩
  refine idle_meets h (herror h) (historyAct_meets h (herror h) ?_)
  rintro - s₁ rfl
  obtain ⟨h₁, hlater⟩ := h.rename hrecords e hnew hsize
  refine ⟨hlater, herror h₁, idle_meets h₁ (herror h₁) (look_meets h₁ (herror h₁) ?_)⟩
  have hdone : ∀ {s' : History F}, Stored lib vals session s' →
      s'.published = s.published ++ [e.event] → Stored lib vals session s' ∧
      ((Except.ok () : Except HistoryError Unit) = .ok () →
        s'.published = s.published ++ [e.event]) ∧
      (∀ err, (Except.ok () : Except HistoryError Unit) = .error err → err = .fault) :=
    fun hs hp => ⟨hs, fun _ => hp, nofun⟩
  split
  · exact keeping_still.pure (hdone h₁ rfl)
  · refine idle_meets h₁ (herror h₁) (historyAct_meets h₁ (herror h₁) ?_)
    rintro - s₂ rfl
    obtain ⟨h₂, hlater₂⟩ := h₁.mark rfl
    refine ⟨hlater₂, herror h₂, Txn.Meets.last (idle_meets h₂ (herror h₂) ?_)⟩
    exact keeping_still.pure (hdone h₂ rfl)

/-- **An update sees the last checkpoint**, and fails only for reasons of
its own. -/
theorem updateLocked_meets (hstart : start.published <+: s.published)
    (h : Stored lib vals session s) :
    Section.Meets (keeping lib vals session) (fun r s' => Stored lib vals session s' ∧
        UpdateLaw start r s')
      (updateLocked lib vals session) s := by
  have hfault : ∀ {s' : History F}, Stored lib vals session s' → Stored lib vals session s' ∧
      UpdateLaw start (.error .fault) s' := fun hs => ⟨hs, .inl rfl⟩
  refine keeping_still.bind (checkMarker_meets h (hfault h) ?_)
  refine keeping_still.bind (readRecords_meets h (hfault h) fun records hrecords => ?_)
  refine look_meets h (hfault h) ?_
  have hthere : (s.journal.isSome && records.isEmpty) = false := by
    cases hr : records with
    | cons e es => rw [List.isEmpty_cons, Bool.and_false]
    | nil => rw [h.journal_none (hrecords.eq_nil.mp hr)]; rfl
  rw [hthere, if_neg Bool.false_ne_true]
  have hseen : records.getLast? = s.published.getLast?.map (·.canonical) := hrecords.getLast
  refine historyAct_meets h (hfault h) ?_
  rintro candidate s' ⟨rfl, hnew⟩
  refine ⟨.refl _, hfault h, ?_⟩
  cases candidate with
  | none =>
    exact keeping_still.pure ⟨h, s'.published, hstart, List.prefix_refl _, hseen, .inl rfl⟩
  | some e =>
    show Section.Meets _ _ (if _ then _ else _) _
    split
    · exact keeping_still.throw ⟨h, .inr rfl⟩
    rename_i hsize
    refine keeping_still.bind ((publishCheckpoint_meets h hrecords e (hnew e rfl)
      (Nat.le_of_not_lt hsize)).mono ?_)
    rintro r s₁ ⟨h₁, hdone, hfail⟩
    cases r with
    | error err =>
      rw [hfail err rfl]
      exact hfault h₁
    | ok u =>
      refine keeping_still.pure ⟨h₁, s'.published, hstart, ?_, hseen, .inr ⟨e.event, rfl, ?_⟩⟩
      · rw [hdone rfl]
        exact List.prefix_append _ _
      · rw [hdone rfl]

end Updates

/-! ## 5. Reads -/

section Reads

/-- What a read that started in a state ends with: the last checkpoint of
some moment since then, or one of two errors that say that a checkpoint
was published meanwhile. -/
def ReadLaw (start : History F) (r : Except HistoryError (Option (SessionEvent F)))
    (s' : History F) : Prop :=
  match r with
  | .ok x => ∃ seen, start.published <+: seen ∧ seen <+: s'.published ∧
      x = seen.getLast?.map (·.canonical)
  | .error (.replaced opened current) =>
      current ≠ opened ∧ start.published.length < s'.published.length
  | .error .empty => start.published = [] ∧ s'.published ≠ []
  | .error _ => False

omit [PyFloatText F] in
theorem Later.length_lt {s₁ s₂ : History F} (h : Later s₁ s₂) (hne : s₂.journal ≠ s₁.journal) :
    s₁.published.length < s₂.published.length := by
  refine Nat.lt_of_le_of_ne h.published.length_le fun heq => hne (h.same ?_)
  exact (h.published.eq_of_length heq).symm

theorem Stored.journal_of_marker (h : Stored lib vals session s) (hm : s.marker.isSome) :
    s.journal.isSome = true := by
  cases hj : s.journal with
  | some file => rfl
  | none =>
    rw [(h.absent hj).2] at hm
    cases hm

theorem Stored.published_ne (h : Stored lib vals session s) (hj : s.journal.isSome) :
    s.published ≠ [] := by
  intro hp
  rw [h.journal_none hp] at hj
  cases hj

theorem checkMarker_reads (hstart : Later start s) :
    Program.Meets (keeping lib vals session) (fun r s' =>
        r = .ok () ∧ Later start s' ∧ Stored lib vals session s')
      (checkMarker (m := Job (History F) HistoryError) Job.read) s := by
  unfold checkMarker
  refine Job.Meets.read fun s₁ hs₁ h₁ => ?_
  have hvalid : s₁.marker.all (· == markerText) = true := by
    cases hm : s₁.marker with
    | none => rfl
    | some text => exact beq_iff_eq.mpr (h₁.marker text hm)
  rw [if_pos hvalid]
  refine Job.Meets.read fun s₂ hs₂ h₂ => ?_
  have hstart₂ : Later start s₂ := (hstart.trans hs₁).trans hs₂
  split
  · rename_i hmarked
    refine Job.Meets.read fun s₃ hs₃ h₃ => ?_
    have hthere : s₃.journal.isSome = true := hs₃.there (h₂.journal_of_marker hmarked)
    rw [if_pos hthere]
    exact fun s₄ hs₄ h₄ => ⟨rfl, (hstart₂.trans hs₃).trans hs₄, h₄⟩
  · exact fun s₃ hs₃ h₃ => ⟨rfl, hstart₂.trans hs₃, h₃⟩

/-- What reading the records ends with. -/
def RecordsLaw (start : History F) (r : Except HistoryError (List (SessionEvent F)))
    (s' : History F) : Prop :=
  Later start s' ∧ match r with
  | .ok records => ∃ seen, start.published <+: seen ∧ seen <+: s'.published ∧ Latest seen records
  | .error (.replaced opened current) =>
      current ≠ opened ∧ start.published.length < s'.published.length
  | .error _ => False

theorem readRecords_reads (hstart : Later start s) :
    Program.Meets (keeping lib vals session) (fun r s' =>
        RecordsLaw start r s' ∧ Stored lib vals session s')
      (readRecords (m := Job (History F) HistoryError) lib vals session Job.read) s := by
  unfold readRecords
  refine Job.Meets.read fun s₁ hs₁ h₁ => ?_
  have hstart₁ : Later start s₁ := hstart.trans hs₁
  split
  · rename_i hthere
    refine Job.Meets.read fun s₂ hs₂ h₂ => Job.Meets.read fun s₃ hs₃ h₃ => ?_
    have hstart₂ : Later start s₂ := hstart₁.trans hs₂
    obtain ⟨⟨inode, text⟩, hj⟩ := Option.isSome_iff_exists.mp (hs₂.there hthere)
    obtain ⟨kept, hkept, hread⟩ := h₂.readText hj
    have hopened : readOpened lib vals session s₂.journal (s₃.journal.map Prod.fst)
        = if s₃.journal.map Prod.fst = some inode then .ok (kept.map (·.canonical))
          else .error (.replaced inode (s₃.journal.map Prod.fst)) := by
      rw [hj]
      show (if _ then (readText lib vals session _ text).mapError _ else _) = _
      rw [hread]
      rfl
    rw [hopened]
    by_cases hsame : s₃.journal.map Prod.fst = some inode
    · rw [if_pos hsame]
      intro s₄ hs₄ h₄
      exact ⟨⟨(hstart₂.trans hs₃).trans hs₄, s₂.published, hstart₂.published,
        hs₃.published.trans hs₄.published, kept, hkept.suffix, fun hn => absurd hn hkept.ne, rfl⟩,
        h₄⟩
    · rw [if_neg hsame]
      intro s₄ hs₄ h₄
      refine ⟨⟨(hstart₂.trans hs₃).trans hs₄, hsame, ?_⟩, h₄⟩
      have hmoved : s₃.journal ≠ s₂.journal := fun heq => hsame (by rw [heq, hj]; rfl)
      exact Nat.lt_of_le_of_lt hstart₂.published.length_le
        (Nat.lt_of_lt_of_le (hs₃.length_lt hmoved) hs₄.published.length_le)
  · rename_i hthere
    intro s₂ hs₂ h₂
    have hnone : s₁.published = [] := by
      cases hj : s₁.journal with
      | none => exact (h₁.absent hj).1
      | some file =>
        rw [hj] at hthere
        exact absurd rfl hthere
    exact ⟨⟨hstart₁.trans hs₂, s₁.published, hstart₁.published, hs₂.published, [],
      List.nil_suffix, fun _ => hnone, rfl⟩, h₂⟩

/-- **A read returns the last checkpoint**, unless its windows move. -/
theorem read_meets (h : Stored lib vals session s) :
    Program.Meets (keeping lib vals session) (ReadLaw s)
      (readReviewCheckpoint (m := Job (History F) HistoryError) lib vals session Job.read) s := by
  unfold readReviewCheckpoint
  refine Job.Meets.bind h ((checkMarker_reads (Later.refl s)).mono ?_)
  rintro r s₁ ⟨rfl, hs₁, h₁⟩
  refine Job.Meets.bind h₁ ((readRecords_reads hs₁).mono ?_)
  rintro r s₂ ⟨⟨hs₂, hr⟩, h₂⟩
  cases r with
  | error e =>
    intro s₃ hs₃ _
    cases e with
    | replaced opened current => exact ⟨hr.1, Nat.lt_of_lt_of_le hr.2 hs₃.published.length_le⟩
    | _ => exact hr.elim
  | ok records =>
    obtain ⟨seen, hstart, hseen, hlatest⟩ := hr
    show Program.Meets _ _ (if records.isEmpty then _ else _ :
      Job (History F) HistoryError (Option (SessionEvent F))) s₂
    split
    · rename_i hempty
      have hnone : seen = [] := hlatest.eq_nil.mp (List.isEmpty_iff.mp hempty)
      have hfresh : s.published = [] := by
        rw [hnone, List.prefix_nil] at hstart
        exact hstart
      refine Job.Meets.read fun s₃ hs₃ h₃ => ?_
      split
      · rename_i hthere
        intro s₄ hs₄ _
        refine ⟨hfresh, fun hp => h₃.published_ne hthere ?_⟩
        have hpre := hs₄.published
        rwa [hp, List.prefix_nil] at hpre
      · intro s₄ hs₄ _
        exact ⟨seen, hstart, hnone ▸ List.nil_prefix, by rw [hnone]; rfl⟩
    · intro s₃ hs₃ _
      exact ⟨seen, hstart, hseen.trans hs₃.published, hlatest.getLast⟩

end Reads

/-! ## 6. Every run -/

/-- What an operation ends with. -/
def OpLaw (start : History F) (r : HistoryResult F) (s' : History F) : Prop :=
  match r with
  | .updated r => UpdateLaw start r s'
  | .read r => ReadLaw start r s'

omit [PyFloatText F] in
theorem UpdateLaw.later {r : Except HistoryError (Updated F)} (h : UpdateLaw start r s)
    (hs : Later s s') : UpdateLaw start r s' := by
  cases r with
  | error e => exact h
  | ok u =>
    obtain ⟨seen, hstart, hseen, hprev, hret⟩ := h
    exact ⟨seen, hstart, hseen.trans hs.published, hprev,
      hret.imp id fun ⟨e, he, hpre⟩ => ⟨e, he, hpre.trans hs.published⟩⟩

omit [PyFloatText F] in
theorem ReadLaw.later {r : Except HistoryError (Option (SessionEvent F))} (h : ReadLaw start r s)
    (hs : Later s s') : ReadLaw start r s' := by
  cases r with
  | ok x =>
    obtain ⟨seen, hstart, hseen, hx⟩ := h
    exact ⟨seen, hstart, hseen.trans hs.published, hx⟩
  | error e =>
    cases e with
    | replaced opened current => exact ⟨h.1, Nat.lt_of_lt_of_le h.2 hs.published.length_le⟩
    | empty =>
      refine ⟨h.1, fun hp => h.2 ?_⟩
      have hpre := hs.published
      rwa [hp, List.prefix_nil] at hpre
    | _ => exact h.elim

theorem historySystem_keeps : (historySystem lib vals session).Keeps (keeping lib vals session)
    (fun _ => OpLaw) where
  faulty := rfl
  release := rfl
  code op s hs := by
    cases op with
    | update =>
      refine Program.Meets.bind hs ?_
      rintro s₁ hs₁ h₁ -
      refine (updateLocked_meets hs₁.published h₁).mono ?_
      rintro r s₂ ⟨h₂, hlaw⟩
      exact ⟨h₂.closed, fun s₃ hs₃ _ s₄ hs₄ _ => (hlaw.later hs₃).later hs₄⟩
    | read =>
      refine Program.Meets.bind hs ((read_meets hs).mono ?_)
      exact fun r s₂ hlaw s₃ hs₃ _ => hlaw.later hs₃

/-- Nothing has been published, and there are no files. -/
def History.fresh : History F := ⟨none, 0, none, []⟩

theorem fresh_stored : Stored lib vals session (History.fresh : History F) :=
  ⟨fun _ => ⟨rfl, rfl⟩, nofun, nofun, nofun, List.nodup_nil⟩

/-! ## 7. A journal that is gone -/

/-- The marker is there and the journal is not. -/
def Gone (s : History F) : Prop := s.marker = some markerText ∧ s.journal = none

/-- What an operation on a history whose journal is gone ends with. -/
def GoneLaw (r : HistoryResult F) : Prop :=
  match r with
  | .updated (.error e) => e = .missing ∨ e = .fault
  | .read (.error e) => e = .missing
  | _ => False

def mourning (F : Type) : Discipline (History F) where
  inv := Gone
  free _ := True
  step := Eq
  quiet := Eq
  faulty _ := True
  release := id
  step_refl _ := rfl
  step_trans := Eq.trans
  quiet_refl _ := rfl
  quiet_trans := Eq.trans
  quiet_step := id
  quiet_inv h heq := heq ▸ h
  quiet_free _ _ _ := trivial
  release_step _ := rfl

omit [PyFloatText F] in
theorem mourning_still : (mourning F).Still := id

omit [PyFloatText F] in
theorem gone_look {α β : Type} {post : Except HistoryError β → History F → Prop}
    {g : History F → α} {f : α → HistoryTxn F β} (h : Gone s) (herror : post (.error .fault) s)
    (hnext : Section.Meets (mourning F) post (f (g s)) s) :
    Section.Meets (mourning F) post (HistoryTxn.look g >>= f : HistoryTxn F β) s := by
  refine mourning_still.attempt h (fun _ => ⟨h, h, trivial⟩) (fun _ => herror) ?_
  rintro a s' ⟨rfl, rfl⟩
  exact ⟨rfl, fun _ => herror, hnext⟩

theorem goneSystem_keeps : (historySystem lib vals session).Keeps (mourning F)
    (fun _ _ r _ => GoneLaw r) where
  faulty := rfl
  release := rfl
  code op s hs := by
    have hvalid : ∀ {s : History F}, Gone s → s.marker.all (· == markerText) = true := by
      rintro s ⟨hm, -⟩
      rw [hm]
      exact beq_self_eq_true markerText
    have hmarked : ∀ {s : History F}, Gone s → s.marker.isSome = true := by
      rintro s ⟨hm, -⟩
      rw [hm]
      rfl
    have hgone : ∀ {s : History F}, Gone s → ¬ s.journal.isSome = true := by
      rintro s ⟨-, hj⟩
      rw [hj]
      exact Bool.false_ne_true
    cases op with
    | update =>
      refine Program.Meets.bind hs ?_
      rintro s₁ - h₁ -
      have hsection : Section.Meets (mourning F) (fun r s' => (mourning F).Closed s' ∧
          GoneLaw (.updated r)) (updateLocked lib vals session) s₁ := by
        have hclosed : (mourning F).Closed s₁ := ⟨h₁, h₁, trivial⟩
        refine mourning_still.bind ?_
        unfold checkMarker
        refine gone_look h₁ ⟨hclosed, .inr rfl⟩ ?_
        rw [if_pos (hvalid h₁)]
        refine gone_look h₁ ⟨hclosed, .inr rfl⟩ ?_
        rw [if_pos (hmarked h₁)]
        refine gone_look h₁ ⟨hclosed, .inr rfl⟩ ?_
        rw [if_neg (hgone h₁)]
        exact mourning_still.throw ⟨hclosed, .inl rfl⟩
      refine hsection.mono ?_
      rintro r s₂ ⟨h₂, hlaw⟩
      exact ⟨h₂, fun _ _ _ _ _ _ => hlaw⟩
    | read =>
      refine Program.Meets.bind hs ?_
      have hprogram : Program.Meets (mourning F) (fun r _ => GoneLaw (.read r))
          (readReviewCheckpoint (m := Job (History F) HistoryError) lib vals session Job.read) s := by
        refine Job.Meets.bind hs ?_
        unfold checkMarker
        refine Job.Meets.read fun s₁ _ h₁ => ?_
        rw [if_pos (hvalid h₁)]
        refine Job.Meets.read fun s₂ _ h₂ => ?_
        rw [if_pos (hmarked h₂)]
        refine Job.Meets.read fun s₃ _ h₃ => ?_
        rw [if_neg (hgone h₃)]
        exact fun _ _ _ _ _ _ => rfl
      exact hprogram.mono fun r s' hlaw _ _ _ => hlaw

end Keeping

/-! ## 8. What survives -/

/-- What holds in a run from a fresh history. -/
structure Survives {π : Type}
    (c : Config π HistoryOp (History F) (HistoryResult F)) : Prop where
  /-- every operation that has come to its end has kept to its law -/
  finished : ∀ p op start r, c.tasks p = some ⟨op, start, .free (.ret r)⟩ → OpLaw start r c.shared
  size : ∀ inode text, c.shared.journal = some (inode, text) → byteSize text ≤ MAX_HISTORY_BYTES

variable (lib : Stdlib F) (vals : Validators F) (session : String)

section Overtaken

variable {lib vals session} {s : History F}

omit [PyFloatText F] in
theorem look_runs {α β : Type} {g : History F → α} {f : α → HistoryTxn F β} {s' : History F}
    {r : Except HistoryError β} (h : Section.Runs (f (g s)) s r s') :
    Section.Runs (HistoryTxn.look g >>= f : HistoryTxn F β) s r s' :=
  Txn.Runs.attempt ⟨rfl, rfl⟩ h

theorem checkMarker_runs (h : Stored lib vals session s) :
    Section.Runs (checkMarker (m := Txn (History F) HistoryError) HistoryTxn.look) s (.ok ()) s := by
  have hvalid : s.marker.all (· == markerText) = true := by
    cases hm : s.marker with
    | none => rfl
    | some text => exact beq_iff_eq.mpr (h.marker text hm)
  unfold checkMarker
  refine look_runs ?_
  rw [if_pos hvalid]
  refine look_runs ?_
  split
  · rename_i hmarked
    refine look_runs ?_
    rw [if_pos (h.journal_of_marker hmarked)]
    exact .ret
  · exact .ret

theorem readRecords_runs (h : Stored lib vals session s) : ∃ records,
    Latest s.published records ∧ Section.Runs (readRecords (m := Txn (History F) HistoryError)
      lib vals session HistoryTxn.look) s (.ok records) s := by
  unfold readRecords
  cases hj : s.journal with
  | none =>
    refine ⟨[], ⟨[], List.nil_suffix, fun _ => (h.absent hj).1, rfl⟩, look_runs ?_⟩
    rw [hj]
    exact .ret
  | some file =>
    obtain ⟨inode, text⟩ := file
    obtain ⟨kept, hkept, hread⟩ := h.readOpened hj
    refine ⟨_, ⟨kept, hkept.suffix, fun hn => absurd hn hkept.ne, rfl⟩, look_runs ?_⟩
    rw [hj, Option.isSome_some, if_pos rfl]
    refine look_runs (look_runs ?_)
    rw [hread]
    exact .ret

/-- An update that is left alone publishes, under a new inode. -/
theorem updateLocked_runs (h : Stored lib vals session s) (e : JournalEvent lib vals session)
    (hnew : e.event.eventId ∉ s.published.map (·.eventId))
    (hsize : byteSize (encode e.event) ≤ MAX_CHECKPOINT_BYTES) :
    ∃ r s', Section.Runs (updateLocked lib vals session) s (.ok r) s' ∧
      Stored lib vals session s' ∧ s'.published = s.published ++ [e.event] ∧
      s'.journal.map Prod.fst = some s.nextInode ∧ s'.nextInode = s.nextInode + 1 := by
  obtain ⟨records, hlatest, hrecords⟩ := readRecords_runs h
  obtain ⟨h₁, -⟩ := h.rename hlatest e hnew hsize
  have hthere : (s.journal.isSome && records.isEmpty) = false := by
    cases hr : records with
    | cons e es => rw [List.isEmpty_cons, Bool.and_false]
    | nil => rw [h.journal_none (hlatest.eq_nil.mp hr)]; rfl
  have hpublish : ∃ s', Section.Runs (publishCheckpoint records e.event) s (.ok ()) s' ∧
      Stored lib vals session s' ∧ s'.published = s.published ++ [e.event] ∧
      s'.journal.map Prod.fst = some s.nextInode ∧ s'.nextInode = s.nextInode + 1 := by
    by_cases hmarked : (s.rename (compacted records e.event) e.event).marker.isSome = true
    · refine ⟨_, ?_, h₁, rfl, rfl, rfl⟩
      refine Txn.Runs.attempt (a := ()) rfl (Txn.Runs.attempt (a := ()) rfl
        (Txn.Runs.attempt (a := ()) rfl (look_runs ?_)))
      rw [if_pos hmarked]
      exact .ret
    · refine ⟨(s.rename (compacted records e.event) e.event).mark, ?_, (h₁.mark rfl).1, rfl, rfl, rfl⟩
      refine Txn.Runs.attempt (a := ()) rfl (Txn.Runs.attempt (a := ()) rfl
        (Txn.Runs.attempt (a := ()) rfl (look_runs ?_)))
      rw [if_neg hmarked]
      refine Txn.Runs.attempt (a := ()) rfl (Txn.Runs.attempt (a := ()) rfl ?_)
      exact Section.Runs.act (b := .ok ()) (.inl ⟨(), rfl, rfl⟩) .ret
  obtain ⟨s', hrun, hs'⟩ := hpublish
  refine ⟨⟨records.getLast?, some e.event⟩, s', ?_, hs'⟩
  refine Txn.Runs.bind (checkMarker_runs h) (Txn.Runs.bind hrecords (look_runs ?_))
  rw [hthere, if_neg Bool.false_ne_true]
  refine Txn.Runs.attempt (a := some e) ⟨rfl, fun x hx => Option.some.inj hx ▸ hnew⟩ ?_
  show Section.Runs (if _ then _ else _) _ _ _
  rw [if_neg (Nat.not_lt.mpr hsize)]
  exact Txn.Runs.bind hrun .ret

theorem checkMarker_goes (h : Stored lib vals session s) :
    Program.Goes (checkMarker (m := Job (History F) HistoryError) Job.read) s (.ret (.ok ())) s := by
  have hvalid : s.marker.all (· == markerText) = true := by
    cases hm : s.marker with
    | none => rfl
    | some text => exact beq_iff_eq.mpr (h.marker text hm)
  unfold checkMarker
  refine Job.Goes.read ?_
  rw [if_pos hvalid]
  refine Job.Goes.read ?_
  split
  · rename_i hmarked
    refine Job.Goes.read ?_
    rw [if_pos (h.journal_of_marker hmarked)]
    exact .refl
  · exact .refl

/-- A reader that has opened the journal fails when it is replaced. -/
theorem readRecords_overtaken {inode : Nat} {text : List Char}
    (hj : s.journal = some (inode, text)) :
    ∃ y : Job (History F) HistoryError (List (SessionEvent F)),
      Program.Goes (readRecords (m := Job (History F) HistoryError) lib vals session Job.read)
        s y s ∧
      ∀ s' : History F, s'.journal.map Prod.fst ≠ some inode →
        Program.Goes y s' (.ret (.error (.replaced inode (s'.journal.map Prod.fst)))) s' := by
  let y : Job (History F) HistoryError (List (SessionEvent F)) := do
    let current ← Job.read (·.journal.map Prod.fst)
    match readOpened lib vals session (some (inode, text)) current with
    | .error e => throw e
    | .ok events => pure events
  refine ⟨y, ?_, fun s' hmoved => ?_⟩
  · unfold readRecords
    refine Job.Goes.read ?_
    rw [hj, Option.isSome_some, if_pos rfl]
    refine Job.Goes.read ?_
    rw [hj]
    exact .refl
  · refine Job.Goes.read ?_
    have hopened : readOpened lib vals session (some (inode, text)) (s'.journal.map Prod.fst)
        = .error (.replaced inode (s'.journal.map Prod.fst)) := if_neg hmoved
    rw [hopened]
    exact .refl

theorem read_overtaken (h : Stored lib vals session s) {inode : Nat} {text : List Char}
    (hj : s.journal = some (inode, text)) :
    ∃ y, Program.Goes (HistoryOp.program lib vals session .read) s y s ∧
      ∀ s' : History F, s'.journal.map Prod.fst ≠ some inode →
        Program.Goes y s' (.ret (.read (.error (.replaced inode (s'.journal.map Prod.fst))))) s' := by
  have hrecords : ∃ y : Job (History F) HistoryError (List (SessionEvent F)),
      Program.Goes (readRecords (m := Job (History F) HistoryError) lib vals session Job.read)
        s y s ∧ _ := readRecords_overtaken hj
  obtain ⟨y, hy, hmoved⟩ := hrecords
  let last (records : List (SessionEvent F)) :
      Job (History F) HistoryError (Option (SessionEvent F)) :=
    if records.isEmpty then do
      let there ← Job.read (·.journal.isSome)
      if there then throw .empty else pure none
    else pure records.getLast?
  have hafter : Program.Goes (readReviewCheckpoint (m := Job (History F) HistoryError)
      lib vals session Job.read) s (y >>= last : Job (History F) HistoryError _) s := by
    refine (Program.Goes.bind (checkMarker_goes h)).trans ?_
    exact Program.Goes.bind (f := ExceptT.bindCont last) hy
  refine ⟨_, Program.Goes.bind hafter, fun s' hs' => ?_⟩
  have hread : Program.Goes (y >>= last : Job (History F) HistoryError _) s'
      (.ret (.error (.replaced inode (s'.journal.map Prod.fst)))) s' :=
    Program.Goes.bind (f := ExceptT.bindCont last) (hmoved s' hs')
  exact Program.Goes.bind (f := fun r => .ret (HistoryResult.read r)) hread

variable (lib vals session) in
/-- A run in which a reader is overtaken by an update. -/
theorem reader_overtaken (e e' : JournalEvent lib vals session)
    (hne : e'.event.eventId ≠ e.event.eventId)
    (hsize : byteSize (encode e.event) ≤ MAX_CHECKPOINT_BYTES)
    (hsize' : byteSize (encode e'.event) ≤ MAX_CHECKPOINT_BYTES) :
    ∃ c : Config Nat HistoryOp (History F) (HistoryResult F),
      Reachable (historySystem lib vals session) .fresh c ∧
      ∃ start opened current, start.published = [e.event] ∧
        c.tasks 1 = some ⟨.read, start, .free (.ret (.read (.error (.replaced opened current))))⟩ := by
  -- process 0 publishes, process 1 opens the journal, process 2 publishes again
  obtain ⟨r, s₁, hrun, h₁, hpub, hino, hnext⟩ := updateLocked_runs (s := .fresh)
    fresh_stored e List.not_mem_nil hsize
  have hfresh : Reachable (historySystem lib vals session) .fresh ⟨.fresh, none, fun _ => none⟩ :=
    .init (π := Nat)
  have hc₀ := hfresh.step (.start (p := 0) .update rfl)
  obtain ⟨c₁, hc₁⟩ := Reachable.section hc₀ (p := 0) Config.update_own rfl hrun
  have hfree₁ : c₁.tasks 1 = none := hc₁.others 1 (by decide)
  have hc₂ := hc₁.reachable.step (.start (p := 1) .read hfree₁)
  obtain ⟨⟨inode, text⟩, hj⟩ : ∃ file, s₁.journal = some file := by
    cases hj : s₁.journal with
    | none =>
      rw [hj] at hino
      cases hino
    | some file => exact ⟨file, rfl⟩
  obtain ⟨y, hy, hmoved⟩ := read_overtaken h₁ hj
  obtain ⟨c₃, hc₃⟩ := Reachable.goes hy hc₂ hc₁.lock Config.update_own hc₁.shared
  have hfree₂ : c₃.tasks 2 = none :=
    (hc₃.others 2 (by decide)).trans ((Config.update_other (by decide)).trans
      (hc₁.others 2 (by decide)))
  have hc₄ := hc₃.reachable.step (.start (p := 2) .update hfree₂)
  have hnew : e'.event.eventId ∉ s₁.published.map (·.eventId) := by
    rw [hpub]
    simpa [History.fresh] using hne
  obtain ⟨r', s₂, hrun', h₂, -, hino', -⟩ := updateLocked_runs h₁ e' hnew hsize'
  rw [← hc₃.shared] at hrun'
  obtain ⟨c₅, hc₅⟩ := Reachable.section hc₄ (p := 2) Config.update_own hc₃.lock hrun'
  have hown : c₅.tasks 1 = some ⟨.read, c₁.shared, .free y⟩ :=
    (hc₅.others 1 (by decide)).trans ((Config.update_other (by decide)).trans hc₃.own)
  have hreplaced : s₂.journal.map Prod.fst ≠ some inode := by
    rw [hino', hnext]
    rw [hj] at hino
    cases hino
    exact nofun
  obtain ⟨c₆, hc₆⟩ := Reachable.goes (hmoved s₂ hreplaced) hc₅.reachable hc₅.lock hown hc₅.shared
  refine ⟨c₆, hc₆.reachable, c₁.shared, _, _, ?_, hc₆.own⟩
  rw [hc₁.shared]
  exact hpub

end Overtaken

/-- Another event of the sample journal. -/
def laterEvent : SessionEvent FloatText :=
  { sampleEvent with eventId := "sevt_11111111111111111111111111111111" }

def laterJournalEvent : JournalEvent sampleLib noValidators "planner" where
  event := laterEvent
  valid :=
    { schemaVersion := rfl
      eventId := by decide
      timestamp := sampleEvent_valid.timestamp
      session := sampleEvent_valid.session
      runtime := sampleEvent_valid.runtime
      eventType := sampleEvent_valid.eventType
      runId := nofun
      originSurface := sampleEvent_valid.originSurface
      operation := nofun
      outcome := sampleEvent_valid.outcome
      reasonCode := nofun
      payload := rfl
      domain := rfl
      event := rfl }
  session_eq := rfl
  proper := ⟨List.nodup_nil, trivial⟩

end MultiForge.Session
