/-
MultiForge.Semantic.ShadowClaims — no file is replayed twice.

Whatever hooks and workers do at the same time, and wherever they are
stopped, a file that was made under `<hash>.json` is taken by one worker at
most, and the worker that took it replays it at most once. So a candidate is
replayed no more often than it was created.
-/
import MultiForge.Semantic.ShadowDrain
import Mathlib.Data.List.Perm.Subperm

namespace MultiForge.Semantic.ShadowDrain

variable {reader : Reader} {π : Type}

/-! ## 1. Events -/

def Event.creation? (hash : String) : Event reader → Option (Capture reader × Inode Name)
  | .created capture file => if capture.hash = hash then some (capture, file) else none
  | .replayed _ _ _ _ => none

def Event.replay? (hash : String) : Event reader → Option (Inode Name)
  | .created _ _ => none
  | .replayed hash' file _ _ => if hash' = hash then some file else none

/-- The files made for a candidate, and what they are to hold. -/
def creations (hash : String) (log : List (Event reader)) : List (Capture reader × Inode Name) :=
  log.filterMap (Event.creation? hash)

/-- The files of a candidate that were replayed. -/
def replays (hash : String) (log : List (Event reader)) : List (Inode Name) :=
  log.filterMap (Event.replay? hash)

theorem mem_creations {hash : String} {log : List (Event reader)} {capture : Capture reader}
    {file : Inode Name} : (capture, file) ∈ creations hash log ↔
      .created capture file ∈ log ∧ capture.hash = hash := by
  unfold creations
  rw [List.mem_filterMap]
  constructor
  · rintro ⟨event, hmem, hevent⟩
    cases event with
    | created capture' file' =>
      dsimp only [Event.creation?] at hevent
      split at hevent
      · cases hevent
        exact ⟨hmem, by assumption⟩
      · cases hevent
    | replayed => cases hevent
  · rintro ⟨hmem, hhash⟩
    exact ⟨_, hmem, if_pos hhash⟩

theorem mem_replays {hash : String} {log : List (Event reader)} {file : Inode Name} :
    file ∈ replays hash log ↔ ∃ record plan, .replayed hash file record plan ∈ log := by
  unfold replays
  rw [List.mem_filterMap]
  constructor
  · rintro ⟨event, hmem, hevent⟩
    cases event with
    | created => cases hevent
    | replayed hash' file' record plan =>
      dsimp only [Event.replay?] at hevent
      split at hevent
      · rename_i hhash
        cases hevent
        exact ⟨record, plan, hhash ▸ hmem⟩
      · cases hevent
  · rintro ⟨record, plan, hmem⟩
    exact ⟨_, hmem, if_pos rfl⟩

/-! ## 2. The invariant -/

/-- The file was made for the candidate. -/
def Config.Created (c : Config reader π) (hash : String) (file : Inode Name) : Prop :=
  ∃ capture, (capture, file) ∈ creations hash c.log

/-- Who has which file. -/
structure Sound (c : Config reader π) : Prop where
  numbered : c.dir.Numbered
  /-- files of the past have numbers of the past -/
  past : ∀ hash file, c.Created hash file → file.2 < c.dir.next
  /-- a file that waits is its candidate's own, and nobody has it -/
  waiting : ∀ hash file, c.dir.entry (.record hash .json) = some file →
    file.1 = .record hash .json ∧ c.Created hash file ∧
      (∀ p, (c.phase p).unreplayed ≠ some file) ∧ ∀ hash', file ∉ replays hash' c.log
  /-- a file that was taken was made for the candidate, and not replayed -/
  taken : ∀ p file, (c.phase p).unreplayed = some file → ∃ hash, (c.phase p).holds = some hash ∧
    c.Created hash file ∧ file.1 = .record hash .json ∧ ∀ hash', file ∉ replays hash' c.log
  apart : ∀ p q file, (c.phase p).unreplayed = some file → (c.phase q).unreplayed = some file →
    p = q
  replayed : ∀ hash file, file ∈ replays hash c.log → c.Created hash file
  once : ∀ hash, (replays hash c.log).Nodup

theorem sound_initial : Sound (Config.initial : Config reader π) where
  numbered := Files.numbered_empty
  past := by
    rintro hash file ⟨capture, hmem⟩
    cases hmem
  waiting := fun _ _ h => nomatch h
  taken := fun _ _ h => nomatch h
  apart := fun _ _ _ h => nomatch h
  replayed := fun _ _ h => nomatch h
  once := fun _ => List.nodup_nil

/-- A step that takes no file and makes none. -/
structure Quiet (c c' : Config reader π) : Prop where
  log : c'.log = c.log
  numbered : c.dir.Numbered → c'.dir.Numbered
  next : c.dir.next ≤ c'.dir.next
  waiting : ∀ hash, c'.dir.entry (.record hash .json) = c.dir.entry (.record hash .json)
  taken : ∀ p file, (c'.phase p).unreplayed = some file →
    (c.phase p).unreplayed = some file ∧ (c'.phase p).holds = (c.phase p).holds

theorem Sound.quiet {c c' : Config reader π} (h : Sound c) (hq : Quiet c c') : Sound c' where
  numbered := hq.numbered h.numbered
  past := by
    rintro hash file ⟨capture, hmem⟩
    rw [hq.log] at hmem
    exact Nat.lt_of_lt_of_le (h.past hash file ⟨capture, hmem⟩) hq.next
  waiting := by
    intro hash file hentry
    rw [hq.waiting] at hentry
    obtain ⟨hname, ⟨capture, hmem⟩, hfree, hnew⟩ := h.waiting hash file hentry
    refine ⟨hname, ⟨capture, hq.log.symm ▸ hmem⟩, fun p hp => hfree p (hq.taken p file hp).1, ?_⟩
    rw [hq.log]
    exact hnew
  taken := by
    intro p file hp
    obtain ⟨hbefore, hholds⟩ := hq.taken p file hp
    obtain ⟨hash, hhash, ⟨capture, hmem⟩, hname, hnew⟩ := h.taken p file hbefore
    refine ⟨hash, hholds.trans hhash, ⟨capture, hq.log.symm ▸ hmem⟩, hname, ?_⟩
    rw [hq.log]
    exact hnew
  apart := fun p q file hp hq' => h.apart p q file (hq.taken p file hp).1 (hq.taken q file hq').1
  replayed := by
    intro hash file hmem
    rw [hq.log] at hmem
    obtain ⟨capture, hcreated⟩ := h.replayed hash file hmem
    exact ⟨capture, hq.log.symm ▸ hcreated⟩
  once := by
    intro hash
    rw [hq.log]
    exact h.once hash

theorem replays_length_le {c : Config reader π} (h : Sound c) (hash : String) :
    (replays hash c.log).length ≤ (creations hash c.log).length := by
  have hsubset : replays hash c.log ⊆ (creations hash c.log).map Prod.snd := by
    intro file hmem
    obtain ⟨capture, hcreated⟩ := h.replayed hash file hmem
    exact List.mem_map.mpr ⟨_, hcreated, rfl⟩
  have hlength := (List.Nodup.subperm (h.once hash) hsubset).length_le
  rwa [List.length_map] at hlength

variable [DecidableEq π]

theorem phase_go {c : Config reader π} {p q : π} {phase : Phase reader} :
    (c.go p phase).phase q = if q = p then phase else c.phase q := by
  by_cases h : q = p
  · subst h
    rw [if_pos rfl]
    exact Function.update_self ..
  · rw [if_neg h]
    exact Function.update_of_ne h ..

/-- A step of one process that leaves the waiting names alone. -/
theorem quiet_go {c : Config reader π} {p : π} {phase : Phase reader} {dir : Dir}
    (hnumbered : c.dir.Numbered → dir.Numbered) (hnext : c.dir.next ≤ dir.next)
    (hwaiting : ∀ hash, dir.entry (.record hash .json) = c.dir.entry (.record hash .json))
    (htaken : ∀ file, phase.unreplayed = some file →
      (c.phase p).unreplayed = some file ∧ phase.holds = (c.phase p).holds) :
    Quiet c ((c.withDir dir).go p phase) where
  log := rfl
  numbered := hnumbered
  next := hnext
  waiting := hwaiting
  taken := by
    intro q file hq
    rw [phase_go] at hq ⊢
    by_cases hp : q = p
    · subst hp
      rw [if_pos rfl] at hq ⊢
      exact htaken file hq
    · rw [if_neg hp] at hq ⊢
      exact ⟨hq, rfl⟩

/-- A step of one process that leaves the directory alone. -/
theorem quiet_phase {c : Config reader π} {p : π} {phase : Phase reader}
    (htaken : ∀ file, phase.unreplayed = some file →
      (c.phase p).unreplayed = some file ∧ phase.holds = (c.phase p).holds) :
    Quiet c (c.go p phase) := by
  show Quiet c ((c.withDir c.dir).go p phase)
  exact quiet_go id (Nat.le_refl _) (fun _ => rfl) htaken

/-! ## 3. The steps that matter -/

/-- A hook opens `<hash>.json`. -/
theorem Sound.publish {c : Config reader π} (h : Sound c) (p : π) (capture : Capture reader)
    {phase : Phase reader} (hphase : phase.unreplayed = none) :
    Sound (((c.withDir (c.dir.create (.record capture.hash .json))).record
      (.created capture (c.dir.opened (.record capture.hash .json)))).go p phase) := by
  have hnext : c.dir.next ≤ (c.dir.create (.record capture.hash .json)).next :=
    Files.next_le_create
  have hopened : (c.dir.opened (.record capture.hash .json)).2 <
      (c.dir.create (.record capture.hash .json)).next := h.numbered.opened
  have hcreations : ∀ hash, creations hash (.created capture (c.dir.opened
      (.record capture.hash .json)) :: c.log) = if capture.hash = hash then
        (capture, c.dir.opened (.record capture.hash .json)) :: creations hash c.log
      else creations hash c.log := by
    intro hash
    unfold creations
    rw [List.filterMap_cons]
    by_cases hh : capture.hash = hash <;> simp [Event.creation?, hh]
  have hcreated : ∀ hash file, c.Created hash file → ∃ capture', (capture', file) ∈
      creations hash (.created capture (c.dir.opened (.record capture.hash .json)) :: c.log) := by
    rintro hash file ⟨capture', hmem⟩
    refine ⟨capture', ?_⟩
    rw [hcreations]
    split
    · exact List.mem_cons_of_mem _ hmem
    · exact hmem
  have htaken : ∀ q file, ((((c.withDir (c.dir.create (.record capture.hash .json))).record
      (.created capture (c.dir.opened (.record capture.hash .json)))).go p phase).phase q).unreplayed
        = some file → (c.phase q).unreplayed = some file ∧
      ((((c.withDir (c.dir.create (.record capture.hash .json))).record (.created capture
        (c.dir.opened (.record capture.hash .json)))).go p phase).phase q) = c.phase q := by
    intro q file hq
    rw [phase_go] at hq ⊢
    split at hq
    · rw [hphase] at hq
      cases hq
    · rename_i hne
      rw [if_neg hne]
      exact ⟨hq, rfl⟩
  refine ⟨h.numbered.create, ?_, ?_, ?_, ?_, ?_, h.once⟩
  · rintro hash file ⟨capture', hmem⟩
    show file.2 < (c.dir.create (.record capture.hash .json)).next
    have hmem' := (hcreations hash) ▸ (show (capture', file) ∈ creations hash (.created capture
      (c.dir.opened (.record capture.hash .json)) :: c.log) from hmem)
    split at hmem'
    · rcases List.mem_cons.mp hmem' with heq | hold
      · cases heq
        exact hopened
      · exact Nat.lt_of_lt_of_le (h.past hash file ⟨_, hold⟩) hnext
    · exact Nat.lt_of_lt_of_le (h.past hash file ⟨_, hmem'⟩) hnext
  · intro hash file hentry
    have hentry' : (c.dir.create (.record capture.hash .json)).entry (.record hash .json) =
      some file := hentry
    by_cases hhash : hash = capture.hash
    · subst hhash
      rw [Files.create_entry_self] at hentry'
      cases hentry'
      cases hold : c.dir.entry (.record capture.hash .json) with
      | some file =>
        obtain ⟨hname, hc, hfree, hnew⟩ := h.waiting _ file hold
        rw [Files.opened_of_entry hold] at hcreated htaken ⊢
        exact ⟨hname, hcreated _ _ hc, fun q hq => hfree q (htaken q file hq).1, hnew⟩
      | none =>
        have hfile := Files.opened_of_none hold
        have hfresh : ∀ hash, ¬ c.Created hash (c.dir.opened (.record capture.hash .json)) := by
          intro hash hc
          have hlt := h.past hash _ hc
          rw [hfile] at hlt
          exact Nat.lt_irrefl _ hlt
        refine ⟨by rw [hfile], ⟨capture, ?_⟩, fun q hq => ?_, fun hash' hmem => ?_⟩
        · exact (hcreations capture.hash).symm ▸ by rw [if_pos rfl]; exact List.mem_cons_self ..
        · obtain ⟨hash, -, hc, -⟩ := h.taken q _ (htaken q _ hq).1
          exact hfresh hash hc
        · exact hfresh hash' (h.replayed hash' _ hmem)
    · have hne : (Name.record hash .json) ≠ .record capture.hash .json := by
        intro heq
        cases heq
        exact hhash rfl
      rw [Files.create_entry_of_ne hne] at hentry'
      obtain ⟨hname, hc, hfree, hnew⟩ := h.waiting hash file hentry'
      exact ⟨hname, hcreated _ _ hc, fun q hq => hfree q (htaken q file hq).1, hnew⟩
  · intro q file hq
    obtain ⟨hbefore, hsame⟩ := htaken q file hq
    obtain ⟨hash, hhash, hc, hname, hnew⟩ := h.taken q file hbefore
    exact ⟨hash, hsame ▸ hhash, hcreated _ _ hc, hname, hnew⟩
  · intro q r file hq hr
    exact h.apart q r file (htaken q file hq).1 (htaken r file hr).1
  · intro hash file hmem
    exact hcreated hash file (h.replayed hash file hmem)

/-- A worker renames `<hash>.json` to `<hash>.processing`. -/
theorem Sound.claim {c : Config reader π} (h : Sound c) (p : π) {hash : String}
    {left : List String} {file : Inode Name} {dir : Dir}
    (hentry : c.dir.entry (.record hash .json) = some file)
    (hrename : c.dir.rename (.record hash .json) (.record hash .processing) = some dir) :
    Sound ((c.withDir dir).go p (.claimed hash file left)) := by
  obtain ⟨hname, hcreated, hfree, hnew⟩ := h.waiting hash file hentry
  have hwaiting : ∀ hash' file', dir.entry (.record hash' .json) = some file' →
      hash' ≠ hash ∧ c.dir.entry (.record hash' .json) = some file' := by
    intro hash' file' hentry'
    by_cases hhash : hash' = hash
    · subst hhash
      rw [Files.rename_entry_old (by simp) hrename] at hentry'
      cases hentry'
    · refine ⟨hhash, ?_⟩
      rwa [Files.rename_entry_other (by simpa using hhash) (by simp) hrename] at hentry'
  have htaken : ∀ q file', (((c.withDir dir).go p (.claimed hash file left)).phase q).unreplayed =
      some file' → (q = p ∧ file' = file) ∨
        (q ≠ p ∧ (c.phase q).unreplayed = some file') := by
    intro q file' hq
    rw [phase_go] at hq
    split at hq
    · cases hq
      exact .inl ⟨by assumption, rfl⟩
    · exact .inr ⟨by assumption, hq⟩
  refine ⟨h.numbered.rename hrename, ?_, ?_, ?_, ?_, h.replayed, h.once⟩
  · intro hash' file' hc
    show file'.2 < dir.next
    rw [Files.rename_next hrename]
    exact h.past hash' file' hc
  · intro hash' file' hentry'
    obtain ⟨hne, hbefore⟩ := hwaiting hash' file' hentry'
    obtain ⟨hname', hc, hfree', hnew'⟩ := h.waiting hash' file' hbefore
    refine ⟨hname', hc, fun q hq => ?_, hnew'⟩
    rcases htaken q file' hq with ⟨-, rfl⟩ | ⟨-, hq'⟩
    · rw [hname] at hname'
      exact hne (by cases hname'; rfl)
    · exact hfree' q hq'
  · intro q file' hq
    rcases htaken q file' hq with ⟨rfl, rfl⟩ | ⟨hne, hq'⟩
    · refine ⟨hash, ?_, hcreated, hname, hnew⟩
      rw [phase_go, if_pos rfl]
      rfl
    · obtain ⟨hash', hhash', hrest⟩ := h.taken q file' hq'
      refine ⟨hash', ?_, hrest⟩
      rw [phase_go, if_neg hne]
      exact hhash'
  · intro q r file' hq hr
    rcases htaken q file' hq with ⟨rfl, rfl⟩ | ⟨-, hq'⟩ <;>
      rcases htaken r file' hr with ⟨rfl, hfile⟩ | ⟨-, hr'⟩
    · rfl
    · exact absurd hr' (hfree r)
    · exact absurd (hfile ▸ hq') (hfree q)
    · exact h.apart q r file' hq' hr'

/-- A worker replays what it has taken. -/
theorem Sound.replay {c : Config reader π} (h : Sound c) (p : π) {hash : String}
    {left : List String} {file : Inode Name} {record plan : Bytes} {outcome : Bytes}
    (hphase : c.phase p = .replaying hash file record plan left) :
    Sound ((c.record (.replayed hash file record plan)).go p (.closing hash outcome left)) := by
  have hp : (c.phase p).unreplayed = some file := by
    rw [hphase]
    rfl
  obtain ⟨hash', hhash', hcreated, -, hnew⟩ := h.taken p file hp
  have hsame : hash' = hash := by
    rw [hphase] at hhash'
    cases hhash'
    rfl
  rw [hsame] at hcreated
  have hcreations : ∀ hash', creations hash' (.replayed hash file record plan :: c.log) =
      creations hash' c.log := fun _ => rfl
  have hreplays : ∀ hash', replays hash' (.replayed hash file record plan :: c.log) =
      if hash = hash' then file :: replays hash' c.log else replays hash' c.log := by
    intro hash'
    unfold replays
    rw [List.filterMap_cons]
    by_cases hh : hash = hash' <;> simp [Event.replay?, hh]
  have hmem : ∀ hash' file', file' ∈ replays hash' (.replayed hash file record plan :: c.log) →
      (hash = hash' ∧ file' = file) ∨ file' ∈ replays hash' c.log := by
    intro hash' file' hfile
    rw [hreplays] at hfile
    split at hfile
    · rcases List.mem_cons.mp hfile with heq | hold
      · exact .inl ⟨by assumption, heq⟩
      · exact .inr hold
    · exact .inr hfile
  have htaken : ∀ q file', (((c.record (.replayed hash file record plan)).go p
      (.closing hash outcome left)).phase q).unreplayed = some file' →
        q ≠ p ∧ (c.phase q).unreplayed = some file' := by
    intro q file' hq
    rw [phase_go] at hq
    split at hq
    · cases hq
    · exact ⟨by assumption, hq⟩
  refine ⟨h.numbered, h.past, ?_, ?_, ?_, ?_, ?_⟩
  · intro hash' file' hentry
    obtain ⟨hname, hc, hfree, hfresh⟩ := h.waiting hash' file' hentry
    refine ⟨hname, hc, fun q hq => hfree q (htaken q file' hq).2, fun hash'' hfile => ?_⟩
    rcases hmem hash'' file' hfile with ⟨-, rfl⟩ | hold
    · exact hfree p hp
    · exact hfresh hash'' hold
  · intro q file' hq
    obtain ⟨hne, hq'⟩ := htaken q file' hq
    obtain ⟨hash'', hhash'', hc, hname, hfresh⟩ := h.taken q file' hq'
    refine ⟨hash'', ?_, hc, hname, fun hash3 hfile => ?_⟩
    · rw [phase_go, if_neg hne]
      exact hhash''
    · rcases hmem hash3 file' hfile with ⟨-, rfl⟩ | hold
      · exact hne (h.apart q p _ hq' hp)
      · exact hfresh hash3 hold
  · intro q r file' hq hr
    exact h.apart q r file' (htaken q file' hq).2 (htaken r file' hr).2
  · intro hash'' file' hfile
    rcases hmem hash'' file' hfile with ⟨rfl, rfl⟩ | hold
    · exact hcreated
    · exact h.replayed hash'' file' hold
  · intro hash''
    show (replays hash'' (.replayed hash file record plan :: c.log)).Nodup
    rw [hreplays]
    split
    · exact List.nodup_cons.mpr ⟨hnew hash'', h.once hash''⟩
    · exact h.once hash''

/-! ## 4. Any step, and any run -/

theorem Sound.step {c c' : Config reader π} (h : Sound c) (hs : Step c c') : Sound c' := by
  have hjson : ∀ (hash hash' : String) (s : Suffix), s ≠ .json →
      Name.record hash .json ≠ .record hash' s := by
    intro hash hash' s hs heq
    cases heq
    exact hs rfl
  cases hs with
  | publish p hp => exact h.publish p _ rfl
  | claim p hp hentry hrename => exact h.claim p hentry hrename
  | replay p outcome hp => exact h.replay p hp
  | openPlan p hp =>
    exact h.quiet (quiet_go Files.Numbered.create Files.next_le_create
      (fun _ => Files.create_entry_of_ne (by simp)) fun _ hf => nomatch hf)
  | writePlan p k hp =>
    exact h.quiet (quiet_go id (Nat.le_refl _) (fun _ => rfl) fun _ hf => nomatch hf)
  | write p k hp =>
    exact h.quiet (quiet_go id (Nat.le_refl _) (fun _ => rfl) fun _ hf => nomatch hf)
  | rewrite p k hp =>
    exact h.quiet (quiet_go id (Nat.le_refl _) (fun _ => rfl) fun _ hf => nomatch hf)
  | reopen p hp =>
    exact h.quiet (quiet_go Files.Numbered.create Files.next_le_create
      (fun _ => Files.create_entry_of_ne (hjson _ _ _ (by decide))) fun _ hf => nomatch hf)
  | finish p hp hrename =>
    refine h.quiet (quiet_go (fun hn => hn.rename hrename)
      (Nat.le_of_eq (Files.rename_next hrename).symm)
      (fun _ => Files.rename_entry_other (hjson _ _ _ (by decide)) (hjson _ _ _ (by decide)) hrename)
      fun _ hf => nomatch hf)
  | read p hp =>
    refine h.quiet (quiet_phase fun file hf => ?_)
    rw [hp]
    exact ⟨hf, rfl⟩
  | reconstruct p hp =>
    refine h.quiet (quiet_phase fun file hf => ?_)
    rw [hp]
    exact ⟨hf, rfl⟩
  | stop | capture | probe | noPlan | closePlan | drain | lose | unreadable | unavailable |
      rewritten | skip =>
    exact h.quiet (quiet_phase fun _ hf => nomatch hf)

theorem Reachable.sound {P : Config reader π → Prop} {c : Config reader π} (h : Reachable P c) :
    Sound c := by
  induction h with
  | initial => exact sound_initial
  | step _ hs _ ih => exact ih.step hs

/-- `{}` is the only object, and its plan is that of `1f`. -/
def plainReader : Reader where
  isObject record := record == [123, 125]
  planFile _ := some "1f"
  verified _ _ := true

def plainCapture : Capture plainReader where
  hash := "1f"
  record := [123, 125]
  plan := some [35]
  whole := by decide
  planFile := rfl

/-- One process captures a candidate and replays it. -/
theorem plain_run {P : Config plainReader Unit → Prop} (hP : ∀ c, P c) :
    ∃ c, Reachable P c ∧ replays "1f" c.log = [(.record "1f" .json, 1)] := by
  have hstep : ∀ {c c' : Config plainReader Unit}, Reachable P c → Step c c' → Reachable P c' :=
    fun h hs => .step h hs (hP _)
  have hprobing := hstep .initial (.capture () plainCapture rfl)
  have hprobed := hstep (hstep (hstep hprobing (.probe () rfl rfl)) (.probe () rfl rfl))
    (.probe () rfl rfl)
  have hplan := hstep (hstep (hstep hprobed (.openPlan () rfl rfl))
    (.writePlan () 1 rfl (by decide))) (.closePlan () rfl)
  have hwritten := hstep (hstep (hstep hplan (.publish () rfl)) (.write () 2 rfl (by decide)))
    (.stop ())
  have hclaimed := hstep (hstep hwritten (.drain () ["1f"] rfl)) (.claim () rfl rfl rfl)
  have hreplaying := hstep (hstep hclaimed (.read () rfl rfl rfl))
    (.reconstruct () rfl rfl rfl rfl)
  exact ⟨_, hstep hreplaying (.replay () [] rfl), rfl⟩
end MultiForge.Semantic.ShadowDrain
