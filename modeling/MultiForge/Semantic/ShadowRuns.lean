/-
MultiForge.Semantic.ShadowRuns — candidates whose captures do not overlap.

When no two hooks capture one candidate at a time, it is created once, and
from then on exactly one of its three names stands for its record. The
suffixes are looked at in the order in which a record goes through them, so
a hook does not miss a record that a worker renames meanwhile. What is
replayed is the complete record with its plan.
-/
import MultiForge.Semantic.ShadowClaims

namespace MultiForge.Semantic.ShadowDrain

variable {reader : Reader} {π : Type}

/-! ## 1. Whose a file is -/

/-- The candidate, and whether it is the plan. -/
def Name.base : Name → String × Bool
  | .record hash _ => (hash, false)
  | .plan hash => (hash, true)

/-- A name and the name that its file was made under belong together. -/
def Owned (dir : Dir) : Prop := ∀ n i, dir.entry n = some i → i.1.base = n.base

theorem owned_opened {dir : Dir} (h : Owned dir) (n : Name) :
    (dir.opened n).1.base = n.base := by
  cases hn : dir.entry n with
  | some i =>
    rw [Files.opened_of_entry hn]
    exact h n i hn
  | none => rw [Files.opened_of_none hn]

theorem Owned.create {dir : Dir} (h : Owned dir) (n : Name) : Owned (dir.create n) := by
  intro m i hi
  by_cases hm : m = n
  · subst hm
    rw [Files.create_entry_self] at hi
    cases hi
    exact owned_opened h m
  · rw [Files.create_entry_of_ne hm] at hi
    exact h m i hi

theorem Owned.rename {dir dir' : Dir} (h : Owned dir) {a b : Name} (hab : a.base = b.base)
    (hr : dir.rename a b = some dir') : Owned dir' := by
  intro m i hi
  by_cases hb : m = b
  · subst hb
    rw [Files.rename_entry_new hr] at hi
    exact (h a i hi).trans hab
  · by_cases ha : m = a
    · subst ha
      rw [Files.rename_entry_old (fun heq => hb heq) hr] at hi
      cases hi
    · rw [Files.rename_entry_other ha hb hr] at hi
      exact h m i hi

/-- The file that a process writes to, with the candidate. -/
def Phase.target : Phase reader → Option (Inode Name × (String × Bool))
  | .planning capture _ file _ => some (file, (capture.hash, true))
  | .writing capture file _ => some (file, (capture.hash, false))
  | .rewriting hash _ file _ _ => some (file, (hash, false))
  | _ => none

/-- Every process writes to a file of its own candidate. -/
structure Apart (c : Config reader π) : Prop where
  owned : Owned c.dir
  targets : ∀ p file base, (c.phase p).target = some (file, base) → file.1.base = base

theorem apart_initial : Apart (Config.initial : Config reader π) :=
  ⟨fun _ _ h => (nomatch h), fun _ _ _ h => (nomatch h)⟩

section Writing

variable [DecidableEq π]

theorem Apart.go {c : Config reader π} (h : Apart c) {p : π} {phase : Phase reader} {dir : Dir}
    (howned : Owned dir)
    (htarget : ∀ file base, phase.target = some (file, base) → file.1.base = base) :
    Apart ((c.withDir dir).go p phase) := by
  refine ⟨howned, fun q file base hq => ?_⟩
  rw [phase_go] at hq
  split at hq
  · exact htarget file base hq
  · exact h.targets q file base hq

theorem Apart.step {c c' : Config reader π} (h : Apart c) (hs : Step c c') : Apart c' := by
  have hquiet : ∀ (p : π) (phase : Phase reader), phase.target = none → Apart (c.go p phase) := by
    intro p phase hphase
    show Apart ((c.withDir c.dir).go p phase)
    refine h.go h.owned fun file base hf => ?_
    rw [hphase] at hf
    cases hf
  have hsame : ∀ (p : π) {phase : Phase reader} {file : Inode Name} {base : String × Bool},
      (c.phase p).target = some (file, base) → phase.target = some (file, base) →
      ∀ dir : Dir, dir.entry = c.dir.entry → Apart ((c.withDir dir).go p phase) := by
    intro p phase file base hbefore hafter dir hdir
    refine h.go (fun n i hi => h.owned n i (hdir ▸ hi)) fun file' base' hf => ?_
    rw [hafter] at hf
    cases hf
    exact h.targets p _ _ hbefore
  cases hs with
  | openPlan p hp =>
    refine h.go (h.owned.create _) fun file base hf => ?_
    cases hf
    exact owned_opened h.owned _
  | publish p hp =>
    refine ⟨h.owned.create _, fun q file base hq => ?_⟩
    rw [phase_go] at hq
    split at hq
    · cases hq
      exact owned_opened h.owned _
    · exact h.targets q file base hq
  | reopen p hp =>
    refine h.go (h.owned.create _) fun file base hf => ?_
    cases hf
    exact owned_opened h.owned _
  | writePlan p k hp => exact hsame p (by rw [hp]; rfl) rfl _ rfl
  | write p k hp => exact hsame p (by rw [hp]; rfl) rfl _ rfl
  | rewrite p k hp => exact hsame p (by rw [hp]; rfl) rfl _ rfl
  | claim p hp hentry hrename =>
    exact h.go (h.owned.rename (by rfl) hrename) fun _ _ hf => nomatch hf
  | finish p hp hrename =>
    exact h.go (h.owned.rename (by rfl) hrename) fun _ _ hf => nomatch hf
  | replay p outcome hp =>
    refine ⟨h.owned, fun q file base hq => ?_⟩
    rw [phase_go] at hq
    split at hq
    · cases hq
    · exact h.targets q file base hq
  | stop | capture | probe | noPlan | closePlan | drain | lose | read | unreadable | reconstruct |
      unavailable | rewritten | skip => exact hquiet _ _ rfl

end Writing

/-! ## 2. The life of a candidate -/

/-- How far a candidate has come. -/
inductive Stage (reader : Reader) where
  | unborn
  /-- the file made for it, the name it is under, and whether no worker has
      opened it to write the outcome -/
  | born (capture : Capture reader) (file : Inode Name) (suffix : Suffix) (intact : Bool)

/-- What the directory and the log say of a candidate. -/
inductive Placed (hash : String) (dir : Dir) (log : List (Event reader)) : Stage reader → Prop where
  | unborn (fresh : creations hash log = [])
      (absent : ∀ suffix, dir.entry (.record hash suffix) = none) : Placed hash dir log .unborn
  | born {capture : Capture reader} {file : Inode Name} {suffix : Suffix} {intact : Bool}
      (once : creations hash log = [(capture, file)])
      (there : dir.entry (.record hash suffix) = some file)
      (alone : ∀ s, s ≠ suffix → dir.entry (.record hash s) = none)
      (plan : ∀ text, capture.plan = some text → dir.read (.plan hash) = some text)
      (pending : suffix = .json → intact = true)
      (prefixed : intact = true → ∃ n, dir.data file = capture.record.take n)
      (replayed : ∀ file' record text, .replayed hash file' record text ∈ log →
        record = capture.record ∧ capture.plan = some text) :
      Placed hash dir log (.born capture file suffix intact)

/-- What a process knows of a candidate that it captures or holds. -/
def Knows (hash : String) (dir : Dir) (stage : Stage reader) : Phase reader → Prop
  | .probing capture left => capture.hash = hash → left <:+ recordSuffixes ∧
      ∀ suffix, suffix ∉ left → dir.entry (.record hash suffix) = none
  | .planning capture text file n => capture.hash = hash → stage = .unborn ∧
      capture.plan = some text ∧ dir.entry (.plan hash) = some file ∧ dir.data file = text.take n
  | .publishing capture => capture.hash = hash → stage = .unborn ∧
      ∀ text, capture.plan = some text → dir.read (.plan hash) = some text
  | .writing capture file n => capture.hash = hash → ∃ suffix intact,
      stage = .born capture file suffix intact ∧
      (intact = true → dir.data file = capture.record.take n)
  | .claimed hash' file _ => hash' = hash → ∃ capture, stage = .born capture file .processing true
  | .reading hash' file record _ => hash' = hash → ∃ capture intact,
      stage = .born capture file .processing intact ∧ record = capture.record
  | .replaying hash' file record plan _ => hash' = hash → ∃ capture intact,
      stage = .born capture file .processing intact ∧ record = capture.record ∧
      capture.plan = some plan
  | .closing hash' _ _ => hash' = hash → ∃ capture file intact,
      stage = .born capture file .processing intact
  | .rewriting hash' _ file _ _ => hash' = hash → ∃ capture,
      stage = .born capture file .processing false
  | .finishing hash' _ => hash' = hash → ∃ capture file intact,
      stage = .born capture file .processing intact
  | .idle => True
  | .draining _ => True

/-- The state of a candidate, as every process knows it. -/
structure Lives (hash : String) (c : Config reader π) (stage : Stage reader) : Prop where
  placed : Placed hash c.dir c.log stage
  knows : ∀ p, Knows hash c.dir stage (c.phase p)
  alone : ∀ p q, (c.phase p).holds = some hash → (c.phase q).holds = some hash → p = q

/-! ## 3. What other processes still know -/

section Knows

variable {hash : String} {dir dir' : Dir} {stage : Stage reader} {phase : Phase reader}

/-- A process that does not capture the candidate knows nothing of the directory. -/
theorem Knows.of_not_captures (h : Knows hash dir stage phase)
    (hcaptures : phase.captures ≠ some hash) : Knows hash dir' stage phase := by
  cases phase with
  | probing | planning | publishing | writing =>
    intro hhash
    exact absurd (congrArg some hhash) hcaptures
  | idle | draining | claimed | reading | replaying | closing | rewriting | finishing => exact h

/-- A process that has nothing to do with the candidate. -/
theorem knows_of_neither (hcaptures : phase.captures ≠ some hash)
    (hholds : phase.holds ≠ some hash) : Knows hash dir stage phase := by
  cases phase with
  | probing | planning | publishing | writing =>
    intro hhash
    exact absurd (congrArg some hhash) hcaptures
  | idle | draining => trivial
  | claimed | reading | replaying | closing | rewriting | finishing =>
    intro hhash
    exact absurd (congrArg some hhash) hholds

/-- A worker holds a candidate that is under `<hash>.processing`. -/
theorem Knows.processing (h : Knows hash dir stage phase) (hholds : phase.holds = some hash) :
    ∃ capture file intact, stage = .born capture file .processing intact := by
  cases phase with
  | idle | draining | probing | planning | publishing | writing => cases hholds
  | claimed =>
    obtain ⟨capture, hstage⟩ := h (Option.some.inj hholds)
    exact ⟨capture, _, _, hstage⟩
  | reading | replaying =>
    obtain ⟨capture, intact, hstage, -⟩ := h (Option.some.inj hholds)
    exact ⟨capture, _, intact, hstage⟩
  | closing | finishing => exact h (Option.some.inj hholds)
  | rewriting =>
    obtain ⟨capture, hstage⟩ := h (Option.some.inj hholds)
    exact ⟨capture, _, _, hstage⟩

theorem Knows.not_holds_unborn (h : Knows hash dir .unborn phase) : phase.holds ≠ some hash := by
  intro hholds
  obtain ⟨_, _, _, hstage⟩ := h.processing hholds
  cases hstage

/-- The directory is the same as far as the candidate goes. -/
structure SameFor (hash : String) (dir dir' : Dir) : Prop where
  record : ∀ suffix, dir'.entry (.record hash suffix) = dir.entry (.record hash suffix)
  plan : dir'.entry (.plan hash) = dir.entry (.plan hash)
  data : ∀ file : Inode Name, file.1.base.1 = hash → dir'.data file = dir.data file

theorem SameFor.read_plan (h : SameFor hash dir dir') (howned : Owned dir) :
    dir'.read (.plan hash) = dir.read (.plan hash) := by
  unfold Files.read
  rw [h.plan]
  cases hentry : dir.entry (.plan hash) with
  | none => rfl
  | some file =>
    rw [Option.map_some, Option.map_some, h.data file (by rw [howned _ _ hentry]; rfl)]

theorem Placed.same {log log' : List (Event reader)} (h : Placed hash dir log stage)
    (hsame : SameFor hash dir dir') (howned : Owned dir)
    (hcreations : creations hash log' = creations hash log)
    (hreplays : ∀ file record text, .replayed hash file record text ∈ log' →
      .replayed hash file record text ∈ log) : Placed hash dir' log' stage := by
  cases h with
  | unborn fresh absent =>
    exact .unborn (hcreations.trans fresh) fun s => (hsame.record s).trans (absent s)
  | @born capture file suffix intact once there alone plan pending prefixed replayed =>
    refine .born (hcreations.trans once) ((hsame.record suffix).trans there)
      (fun s hs => (hsame.record s).trans (alone s hs)) ?_ pending ?_
      fun file' record text hmem => replayed file' record text (hreplays _ _ _ hmem)
    · intro text htext
      rw [hsame.read_plan howned]
      exact plan text htext
    · intro hintact
      rw [hsame.data file (by rw [howned _ _ there]; rfl)]
      exact prefixed hintact

theorem Knows.same {log : List (Event reader)} (h : Knows hash dir stage phase)
    (hplaced : Placed hash dir log stage) (hsame : SameFor hash dir dir') (howned : Owned dir) :
    Knows hash dir' stage phase := by
  cases phase with
  | probing capture left =>
    intro hhash
    obtain ⟨hleft, hnone⟩ := h hhash
    exact ⟨hleft, fun s hs => (hsame.record s).trans (hnone s hs)⟩
  | planning capture text file n =>
    intro hhash
    obtain ⟨hstage, htext, hentry, hdata⟩ := h hhash
    refine ⟨hstage, htext, hsame.plan.trans hentry, ?_⟩
    rw [hsame.data file (by rw [howned _ _ hentry]; rfl)]
    exact hdata
  | publishing capture =>
    intro hhash
    obtain ⟨hstage, hplan⟩ := h hhash
    refine ⟨hstage, fun text htext => ?_⟩
    rw [hsame.read_plan howned]
    exact hplan text htext
  | writing capture file n =>
    intro hhash
    obtain ⟨suffix, intact, rfl, hdata⟩ := h hhash
    refine ⟨suffix, intact, rfl, fun hintact => ?_⟩
    cases hplaced with
    | born once there =>
      rw [hsame.data file (by rw [howned _ _ there]; rfl)]
      exact hdata hintact
  | idle | draining | claimed | reading | replaying | closing | rewriting | finishing => exact h

/-- A worker takes the candidate further; hooks that look for it or write it
    notice no difference. -/
theorem Knows.advance {capture : Capture reader} {file : Inode Name} {suffix suffix' : Suffix}
    {intact intact' : Bool} (h : Knows hash dir (.born capture file suffix intact) phase)
    (hholds : phase.holds ≠ some hash)
    (hprobe : ∀ left, left <:+ recordSuffixes →
      (∀ s, s ∉ left → dir.entry (.record hash s) = none) →
      ∀ s, s ∉ left → dir'.entry (.record hash s) = none)
    (hdata : intact' = true → intact = true ∧ dir'.data file = dir.data file) :
    Knows hash dir' (.born capture file suffix' intact') phase := by
  cases phase with
  | probing capture' left =>
    intro hhash
    obtain ⟨hleft, hnone⟩ := h hhash
    exact ⟨hleft, hprobe left hleft hnone⟩
  | planning =>
    intro hhash
    cases (h hhash).1
  | publishing =>
    intro hhash
    cases (h hhash).1
  | writing capture' file' n =>
    intro hhash
    obtain ⟨_, _, hstage, hwritten⟩ := h hhash
    cases hstage
    refine ⟨suffix', intact', rfl, fun hintact => ?_⟩
    obtain ⟨hbefore, hsame⟩ := hdata hintact
    rw [hsame]
    exact hwritten hbefore
  | idle | draining => trivial
  | claimed | reading | replaying | closing | rewriting | finishing =>
    intro hhash
    exact absurd (congrArg some hhash) hholds

end Knows

/-! ## 4. Steps -/

section Steps

variable {hash : String} {c : Config reader π} {stage : Stage reader} {p : π}
  {phase : Phase reader}

/-- While one hook captures a candidate that is not there, nobody else has
    anything to do with it. -/
theorem Lives.knows_other (h : Lives hash c .unborn) (hserial : Serial hash c)
    (hp : (c.phase p).captures = some hash) {q : π} (hq : q ≠ p) {dir : Dir}
    {stage' : Stage reader} : Knows hash dir stage' (c.phase q) :=
  knows_of_neither (fun hcaptures => hq (hserial q p hcaptures hp)) (h.knows q).not_holds_unborn

/-- Nothing under any of the names: the candidate is not there yet. -/
theorem Placed.unborn_of_absent {dir : Dir} {log : List (Event reader)}
    (h : Placed hash dir log stage) (habsent : ∀ s, dir.entry (.record hash s) = none) :
    stage = .unborn := by
  cases h with
  | unborn => rfl
  | born once there =>
    rw [habsent] at there
    cases there

/-- A hook that has looked at all the names goes on to write. -/
theorem Lives.probed (h : Lives hash c stage) {capture : Capture reader}
    (hp : c.phase p = .probing capture []) (hhash : capture.hash = hash) :
    stage = .unborn ∧ ∀ s, c.dir.entry (.record hash s) = none := by
  have hknows := h.knows p
  rw [hp] at hknows
  have habsent := fun s => (hknows hhash).2 s List.not_mem_nil
  exact ⟨h.placed.unborn_of_absent habsent, habsent⟩

theorem lives_initial : Lives hash (Config.initial : Config reader π) .unborn :=
  ⟨.unborn rfl fun _ => rfl, fun _ => trivial, fun _ _ hp => nomatch hp⟩

variable [DecidableEq π]

/-- A process goes on; what it knows is enough. -/
theorem Lives.next {stage' : Stage reader} {dir : Dir} {log : List (Event reader)}
    (h : Lives hash c stage) (hplaced : Placed hash dir log stage')
    (hp : Knows hash dir stage' phase)
    (hothers : ∀ q, q ≠ p → Knows hash dir stage' (c.phase q))
    (halone : phase.holds = some hash →
      (c.phase p).holds = some hash ∨ ∀ q, (c.phase q).holds ≠ some hash) :
    Lives hash (⟨dir, Function.update c.phase p phase, log⟩ : Config reader π) stage' := by
  have hphase : ∀ q, Function.update c.phase p phase q = if q = p then phase else c.phase q :=
    fun q => phase_go (c := c)
  refine ⟨hplaced, fun q => ?_, fun q r hq hr => ?_⟩
  · show Knows hash dir stage' (Function.update c.phase p phase q)
    rw [hphase]
    split
    · exact hp
    · exact hothers q (by assumption)
  · dsimp only at hq hr
    rw [hphase] at hq hr
    have hone : ∀ q, q ≠ p → phase.holds = some hash → (c.phase q).holds = some hash → False := by
      intro q hne hnew hold
      rcases halone hnew with hbefore | hnone
      · exact hne (h.alone q p hold hbefore)
      · exact hnone q hold
    by_cases hqp : q = p <;> by_cases hrp : r = p
    · rw [hqp, hrp]
    · rw [if_pos hqp] at hq
      rw [if_neg hrp] at hr
      exact (hone r hrp hq hr).elim
    · rw [if_neg hqp] at hq
      rw [if_pos hrp] at hr
      exact (hone q hqp hr hq).elim
    · rw [if_neg hqp] at hq
      rw [if_neg hrp] at hr
      exact h.alone q r hq hr

/-- A step that changes nothing but the phase. -/
theorem Lives.go (h : Lives hash c stage) (hp : Knows hash c.dir stage phase)
    (halone : phase.holds = some hash → (c.phase p).holds = some hash) :
    Lives hash (c.go p phase) stage :=
  h.next h.placed hp (fun q _ => h.knows q) fun hholds => .inl (halone hholds)

/-- A step that has nothing to do with the candidate. -/
theorem Lives.elsewhere {dir : Dir} {log : List (Event reader)} (h : Lives hash c stage)
    (howned : Owned c.dir) (hsame : SameFor hash c.dir dir)
    (hcreations : creations hash log = creations hash c.log)
    (hreplays : ∀ file record text, .replayed hash file record text ∈ log →
      .replayed hash file record text ∈ c.log)
    (hcaptures : phase.captures ≠ some hash) (hholds : phase.holds ≠ some hash) :
    Lives hash (⟨dir, Function.update c.phase p phase, log⟩ : Config reader π) stage :=
  h.next (h.placed.same hsame howned hcreations hreplays) (knows_of_neither hcaptures hholds)
    (fun q _ => (h.knows q).same h.placed hsame howned) fun hnew => absurd hnew hholds

theorem sameFor_create {dir : Dir} (howned : Owned dir) {n : Name} (hn : n.base.1 ≠ hash) :
    SameFor hash dir (dir.create n) where
  record s := Files.create_entry_of_ne fun heq => hn (heq ▸ rfl)
  plan := Files.create_entry_of_ne fun heq => hn (heq ▸ rfl)
  data file hfile := Files.create_data_of_ne fun heq => hn (by
    rw [← owned_opened howned n, ← heq]
    exact hfile)

theorem sameFor_write {dir : Dir} {file : Inode Name} (hfile : file.1.base.1 ≠ hash) {n : Nat}
    {chunk : Bytes} : SameFor hash dir (dir.write file 0 n chunk) where
  record _ := rfl
  plan := rfl
  data _ hother := Files.write_data_of_ne fun heq => hfile (heq ▸ hother)

theorem sameFor_rename {dir dir' : Dir} {a b : Name} (ha : a.base.1 ≠ hash) (hb : b.base.1 ≠ hash)
    (hr : dir.rename a b = some dir') : SameFor hash dir dir' := by
  have hne : ∀ {n m : Name}, m.base.1 ≠ hash → n.base.1 = hash → n ≠ m := by
    intro n m hm hn heq
    exact hm (heq ▸ hn)
  exact {
    record := fun s => Files.rename_entry_other (hne ha rfl) (hne hb rfl) hr
    plan := Files.rename_entry_other (hne ha rfl) (hne hb rfl) hr
    data := fun file _ => by rw [Files.rename_data hr] }

/-- The plan of a candidate is another file than its record. -/
theorem plan_ne {dir : Dir} (howned : Owned dir) {file : Inode Name}
    (hfile : file.1.base = (hash, false)) {i : Inode Name}
    (hentry : dir.entry (.plan hash) = some i) : i ≠ file := by
  intro heq
  have hbase := howned _ _ hentry
  rw [heq, hfile] at hbase
  cases hbase

theorem read_plan_write {dir : Dir} (howned : Owned dir) {file : Inode Name}
    (hfile : file.1.base = (hash, false)) {n : Nat} {chunk : Bytes} :
    (dir.write file 0 n chunk).read (.plan hash) = dir.read (.plan hash) := by
  unfold Files.read
  rw [Files.write_entry]
  cases hentry : dir.entry (.plan hash) with
  | none => rfl
  | some i =>
    rw [Option.map_some, Option.map_some, Files.write_data_of_ne (plan_ne howned hfile hentry)]

theorem read_plan_create {dir : Dir} (howned : Owned dir) (s : Suffix) :
    (dir.create (.record hash s)).read (.plan hash) = dir.read (.plan hash) := by
  unfold Files.read
  rw [Files.create_entry_of_ne (by simp)]
  cases hentry : dir.entry (.plan hash) with
  | none => rfl
  | some i =>
    rw [Option.map_some, Option.map_some,
      Files.create_data_of_ne (plan_ne howned (owned_opened howned (.record hash s)) hentry)]

/-! ## 5. Any step -/

/-- The names that are left to look at include those that a record gets later. -/
theorem mem_left {left : List Suffix} (h : left <:+ recordSuffixes) {suffix suffix' : Suffix}
    (hmem : suffix ∈ left) (hlater : [suffix, suffix'].Sublist recordSuffixes) :
    suffix' ∈ left := by
  have hcases : left = [.json, .processing, .done] ∨ left = [.processing, .done] ∨
      left = [.done] ∨ left = [] := by
    simpa [recordSuffixes, List.suffix_cons_iff] using h
  revert hmem hlater
  rcases hcases with rfl | rfl | rfl | rfl <;> cases suffix <;> cases suffix' <;> decide

/-- A hook that looks for the candidate does not miss it when it is renamed. -/
theorem absent_rename {dir dir' : Dir} {a b : Suffix} (hlater : [a, b].Sublist recordSuffixes)
    (hr : dir.rename (.record hash a) (.record hash b) = some dir') {left : List Suffix}
    (hleft : left <:+ recordSuffixes) (hnone : ∀ s, s ∉ left → dir.entry (.record hash s) = none) :
    ∀ s, s ∉ left → dir'.entry (.record hash s) = none := by
  intro s hs
  have ha : a ∈ left := by
    by_contra hnot
    rw [Files.rename_eq_none.mpr (hnone a hnot)] at hr
    cases hr
  have hb : b ∈ left := mem_left hleft ha hlater
  have hne : ∀ t ∈ left, Name.record hash s ≠ .record hash t := by
    rintro t ht heq
    cases heq
    exact hs ht
  rw [Files.rename_entry_other (hne a ha) (hne b hb) hr]
  exact hnone s hs

theorem creations_created {capture : Capture reader} {file : Inode Name}
    {log : List (Event reader)} : creations hash (.created capture file :: log) =
      if capture.hash = hash then (capture, file) :: creations hash log else creations hash log := by
  unfold creations
  rw [List.filterMap_cons]
  by_cases hhash : capture.hash = hash <;> simp [Event.creation?, hhash]

theorem Lives.probe (h : Lives hash c stage) {capture : Capture reader} {suffix : Suffix}
    {left : List Suffix} (hp : c.phase p = .probing capture (suffix :: left))
    (hnone : c.dir.entry (.record capture.hash suffix) = none) :
    Lives hash (c.go p (.probing capture left)) stage := by
  refine h.go (fun hhash => ?_) fun hn => nomatch hn
  have hknows := h.knows p
  rw [hp] at hknows
  obtain ⟨hleft, habsent⟩ := hknows hhash
  refine ⟨(List.suffix_cons suffix left).trans hleft, fun s hs => ?_⟩
  by_cases hsuffix : s = suffix
  · rw [hsuffix, ← hhash]
    exact hnone
  · exact habsent s fun hmem => (List.mem_cons.mp hmem).elim hsuffix hs

theorem Lives.openPlan (h : Lives hash c stage) (howned : Owned c.dir) (hserial : Serial hash c)
    {capture : Capture reader} {text : Bytes} (hp : c.phase p = .probing capture [])
    (htext : capture.plan = some text) :
    Lives hash ((c.withDir (c.dir.create (.plan capture.hash))).go p
      (.planning capture text (c.dir.opened (.plan capture.hash)) 0)) stage := by
  by_cases hhash : capture.hash = hash
  · obtain ⟨rfl, habsent⟩ := h.probed hp hhash
    subst hhash
    refine h.next ?_ (fun _ => ⟨rfl, htext, Files.create_entry_self, Files.create_data_self⟩)
      (fun q hq => h.knows_other hserial (by rw [hp]; rfl) hq) fun hn => nomatch hn
    cases h.placed with
    | unborn fresh =>
      exact .unborn fresh fun s => (Files.create_entry_of_ne (by simp)).trans (habsent s)
  · exact h.elsewhere howned (sameFor_create howned hhash) rfl (fun _ _ _ hr => hr)
      (fun heq => hhash (Option.some.inj heq)) fun hn => nomatch hn

theorem Lives.writePlan (h : Lives hash c stage) (hapart : Apart c) (hserial : Serial hash c)
    {k n : Nat} {capture : Capture reader} {text : Bytes} {file : Inode Name}
    (hp : c.phase p = .planning capture text file n) (hk : n + k ≤ text.length) :
    Lives hash ((c.withDir (c.dir.write file 0 n ((text.drop n).take k))).go p
      (.planning capture text file (n + k))) stage := by
  have hknows := h.knows p
  rw [hp] at hknows
  have hbase := hapart.targets p file (capture.hash, true) (by rw [hp]; rfl)
  by_cases hhash : capture.hash = hash
  · obtain ⟨rfl, htext, hentry, hdata⟩ := hknows hhash
    have hwritten : (c.dir.write file 0 n ((text.drop n).take k)).data file =
        text.take (n + k) := by
      rw [Files.write_data_self, hdata]
      exact Files.writeAt_take (Nat.le_trans (Nat.le_add_right n k) hk)
    refine h.next ?_ (fun _ => ⟨rfl, htext, hentry, hwritten⟩)
      (fun q hq => h.knows_other hserial (by rw [hp]; exact congrArg some hhash) hq)
      fun hn => nomatch hn
    cases h.placed with
    | unborn fresh absent => exact .unborn fresh absent
  · exact h.elsewhere hapart.owned (sameFor_write (by rw [hbase]; exact hhash)) rfl
      (fun _ _ _ hr => hr) (fun heq => hhash (Option.some.inj heq)) fun hn => nomatch hn

theorem Lives.closePlan (h : Lives hash c stage) {capture : Capture reader} {text : Bytes}
    {file : Inode Name} (hp : c.phase p = .planning capture text file text.length) :
    Lives hash (c.go p (.publishing capture)) stage := by
  refine h.go (fun hhash => ?_) fun hn => nomatch hn
  have hknows := h.knows p
  rw [hp] at hknows
  obtain ⟨hstage, htext, hentry, hdata⟩ := hknows hhash
  refine ⟨hstage, fun text' htext' => ?_⟩
  rw [htext] at htext'
  cases htext'
  rw [Files.read_of_entry hentry, hdata, List.take_length]

/-- The candidate is born. -/
theorem Placed.publish {capture : Capture reader} {dir : Dir} {log : List (Event reader)}
    (h : Placed capture.hash dir log .unborn) (howned : Owned dir)
    (hplan : ∀ text, capture.plan = some text → dir.read (.plan capture.hash) = some text)
    (hnew : replays capture.hash log = []) :
    Placed capture.hash (dir.create (.record capture.hash .json))
      (.created capture (dir.opened (.record capture.hash .json)) :: log)
      (.born capture (dir.opened (.record capture.hash .json)) .json true) := by
  cases h with
  | unborn fresh absent =>
    refine .born ?_ Files.create_entry_self (fun s hs => ?_) (fun text htext => ?_)
      (fun _ => rfl) (fun _ => ⟨0, Files.create_data_self⟩) fun file record text hmem => ?_
    · rw [creations_created, if_pos rfl, fresh]
    · refine (Files.create_entry_of_ne fun heq => hs ?_).trans (absent s)
      cases heq
      rfl
    · rw [read_plan_create howned]
      exact hplan text htext
    · rcases List.mem_cons.mp hmem with heq | hold
      · cases heq
      · have hmem' := mem_replays.mpr ⟨record, text, hold⟩
        rw [hnew] at hmem'
        cases hmem'

theorem Lives.publish (h : Lives hash c stage) (hsound : Sound c) (howned : Owned c.dir)
    (hserial : Serial hash c) {capture : Capture reader} (hp : c.phase p = .publishing capture) :
    ∃ stage', Lives hash (((c.withDir (c.dir.create (.record capture.hash .json))).record
        (.created capture (c.dir.opened (.record capture.hash .json)))).go p
      (.writing capture (c.dir.opened (.record capture.hash .json)) 0)) stage' := by
  have hknows := h.knows p
  rw [hp] at hknows
  by_cases hhash : capture.hash = hash
  · subst hhash
    obtain ⟨rfl, hplan⟩ := hknows rfl
    have hnew : replays capture.hash c.log = [] := by
      have hle := replays_length_le hsound capture.hash
      cases h.placed with
      | unborn fresh =>
        rw [fresh] at hle
        exact List.eq_nil_of_length_eq_zero (Nat.le_zero.mp hle)
    exact ⟨_, h.next (h.placed.publish howned hplan hnew)
      (fun _ => ⟨.json, true, rfl, fun _ => Files.create_data_self⟩)
      (fun q hq => h.knows_other hserial (by rw [hp]; rfl) hq) fun hn => nomatch hn⟩
  · refine ⟨stage, h.elsewhere howned (sameFor_create howned hhash) ?_ (fun _ _ _ hmem => ?_)
      (fun heq => hhash (Option.some.inj heq)) fun hn => nomatch hn⟩
    · exact creations_created.trans (if_neg hhash)
    · exact (List.mem_cons.mp hmem).resolve_left fun heq => nomatch heq

theorem Lives.write (h : Lives hash c stage) (hapart : Apart c) (hserial : Serial hash c)
    {k n : Nat} {capture : Capture reader} {file : Inode Name}
    (hp : c.phase p = .writing capture file n) (hk : n + k ≤ capture.record.length) :
    Lives hash ((c.withDir (c.dir.write file 0 n ((capture.record.drop n).take k))).go p
      (.writing capture file (n + k))) stage := by
  have hknows := h.knows p
  rw [hp] at hknows
  have hbase := hapart.targets p file (capture.hash, false) (by rw [hp]; rfl)
  by_cases hhash : capture.hash = hash
  · subst hhash
    obtain ⟨suffix, intact, rfl, hdata⟩ := hknows rfl
    have hwritten : intact = true → (c.dir.write file 0 n
        ((capture.record.drop n).take k)).data file = capture.record.take (n + k) := by
      intro hintact
      rw [Files.write_data_self, hdata hintact]
      exact Files.writeAt_take (Nat.le_trans (Nat.le_add_right n k) hk)
    refine h.next ?_ (fun _ => ⟨suffix, intact, rfl, hwritten⟩) (fun q hq => ?_)
      fun hn => nomatch hn
    · cases h.placed with
      | born once there alone plan pending prefixed replayed =>
        refine .born once there alone (fun text htext => ?_) pending
          (fun hintact => ⟨_, hwritten hintact⟩) replayed
        exact (read_plan_write hapart.owned hbase).trans (plan text htext)
    · exact (h.knows q).of_not_captures fun hcaptures =>
        hq (hserial q p hcaptures (by rw [hp]; rfl))
  · exact h.elsewhere hapart.owned (sameFor_write (by rw [hbase]; exact hhash)) rfl
      (fun _ _ _ hr => hr) (fun heq => hhash (Option.some.inj heq)) fun hn => nomatch hn

/-- A record goes from one name to a later one. -/
theorem Placed.rename {capture : Capture reader} {file : Inode Name} {dir dir' : Dir}
    {log : List (Event reader)} {a b : Suffix} {intact : Bool}
    (h : Placed hash dir log (.born capture file a intact)) (hab : a ≠ b) (hb : b ≠ .json)
    (hr : dir.rename (.record hash a) (.record hash b) = some dir') :
    Placed hash dir' log (.born capture file b intact) := by
  cases h with
  | born once there alone plan pending prefixed replayed =>
    have hname : ∀ s t : Suffix, s ≠ t → Name.record hash s ≠ .record hash t := by
      intro s t hne heq
      cases heq
      exact hne rfl
    refine .born once ((Files.rename_entry_new hr).trans there) (fun s hs => ?_)
      (fun text htext => ?_) (fun hs => absurd hs hb) ?_ replayed
    · by_cases ha : s = a
      · subst ha
        exact Files.rename_entry_old (hname s b hab) hr
      · rw [Files.rename_entry_other (hname s a ha) (hname s b hs) hr]
        exact alone s ha
    · have hsame : dir'.read (.plan hash) = dir.read (.plan hash) := by
        unfold Files.read
        rw [Files.rename_entry_other (by simp) (by simp) hr, Files.rename_data hr]
      rw [hsame]
      exact plan text htext
    · rw [Files.rename_data hr]
      exact prefixed

theorem Lives.claim (h : Lives hash c stage) (howned : Owned c.dir) {hash' : String}
    {left : List String} {file : Inode Name} {dir : Dir}
    (hentry : c.dir.entry (.record hash' .json) = some file)
    (hrename : c.dir.rename (.record hash' .json) (.record hash' .processing) = some dir) :
    ∃ stage', Lives hash ((c.withDir dir).go p (.claimed hash' file left)) stage' := by
  by_cases hhash : hash' = hash
  · subst hhash
    have hborn : ∃ capture, stage = .born capture file .json true := by
      cases h.placed with
      | unborn fresh absent =>
        rw [absent] at hentry
        cases hentry
      | @born capture file' suffix intact once there alone plan pending =>
        obtain rfl : suffix = .json := by
          by_contra hne
          rw [alone _ (Ne.symm hne)] at hentry
          cases hentry
        rw [there] at hentry
        cases hentry
        exact ⟨capture, by rw [pending rfl]⟩
    obtain ⟨capture, rfl⟩ := hborn
    have hfree : ∀ q, (c.phase q).holds ≠ some hash' := by
      intro q hholds
      obtain ⟨_, _, _, hstage⟩ := (h.knows q).processing hholds
      cases hstage
    exact ⟨.born capture file .processing true,
      h.next (h.placed.rename (by decide) (by decide) hrename) (fun _ => ⟨capture, rfl⟩)
        (fun q _ => (h.knows q).advance (hfree q)
          (fun left hleft hnone => absent_rename (by decide) hrename hleft hnone)
          fun _ => ⟨rfl, congrFun (Files.rename_data hrename) file⟩) fun _ => .inr hfree⟩
  · exact ⟨stage, h.elsewhere howned
      (sameFor_rename (a := .record hash' .json) (b := .record hash' .processing) hhash hhash hrename) rfl
      (fun _ _ _ hr => hr) (fun hn => nomatch hn) fun heq => hhash (Option.some.inj heq)⟩

/-- What is an object is complete. -/
theorem complete_of_isObject {capture : Capture reader} {n : Nat}
    (h : reader.isObject (capture.record.take n) = true) :
    capture.record.take n = capture.record := by
  by_contra hne
  have hlt : n < capture.record.length := by
    by_contra hge
    exact hne (List.take_of_length_le (Nat.not_lt.mp hge))
  rw [capture.whole n hlt] at h
  cases h

theorem Lives.read (h : Lives hash c stage) {hash' : String} {file : Inode Name}
    {left : List String} {record : Bytes} (hp : c.phase p = .claimed hash' file left)
    (hread : c.dir.read (.record hash' .processing) = some record)
    (hobject : reader.isObject record = true) :
    Lives hash (c.go p (.reading hash' file record left)) stage := by
  refine h.go (fun hhash => ?_) fun hn => by rw [hp]; exact hn
  have hknows := h.knows p
  rw [hp] at hknows
  obtain ⟨capture, rfl⟩ := hknows hhash
  refine ⟨capture, true, rfl, ?_⟩
  cases h.placed with
  | born once there alone plan pending prefixed =>
    obtain ⟨n, hdata⟩ := prefixed rfl
    rw [hhash, Files.read_of_entry there, hdata] at hread
    cases hread
    exact complete_of_isObject hobject

theorem Lives.reconstruct (h : Lives hash c stage) {hash' plan : String} {file : Inode Name}
    {record text : Bytes} {left : List String} (hp : c.phase p = .reading hash' file record left)
    (hplan : reader.planFile record = some plan) (hread : c.dir.read (.plan plan) = some text) :
    Lives hash (c.go p (.replaying hash' file record text left)) stage := by
  refine h.go (fun hhash => ?_) fun hn => by rw [hp]; exact hn
  have hknows := h.knows p
  rw [hp] at hknows
  obtain ⟨capture, intact, rfl, rfl⟩ := hknows hhash
  refine ⟨capture, intact, rfl, rfl, ?_⟩
  cases h.placed with
  | born once there alone hfrozen =>
    have hcapture : capture.hash = hash := by
      have hmem : (capture, file) ∈ creations hash c.log := by
        rw [once]
        exact List.mem_cons_self ..
      exact (mem_creations.mp hmem).2
    rw [capture.planFile] at hplan
    obtain ⟨text', htext', rfl⟩ := Option.map_eq_some_iff.mp hplan
    rw [hcapture, hfrozen text' htext'] at hread
    cases hread
    exact htext'

theorem Lives.replay (h : Lives hash c stage) (howned : Owned c.dir) {hash' : String} {file : Inode Name}
    {record plan outcome : Bytes} {left : List String}
    (hp : c.phase p = .replaying hash' file record plan left) :
    Lives hash ((c.record (.replayed hash' file record plan)).go p
      (.closing hash' outcome left)) stage := by
  have hknows := h.knows p
  rw [hp] at hknows
  refine h.next ?_ (fun hhash => ?_) (fun q _ => h.knows q) fun hn => .inl (by rw [hp]; exact hn)
  · by_cases hhash : hash' = hash
    · obtain ⟨capture, intact, rfl, hrecord, hplan⟩ := hknows hhash
      cases h.placed with
      | born once there alone frozen pending prefixed replayed =>
        refine .born once there alone frozen pending prefixed fun file' record' text' hmem => ?_
        rcases List.mem_cons.mp hmem with heq | hold
        · cases heq
          exact ⟨hrecord, hplan⟩
        · exact replayed file' record' text' hold
    · refine h.placed.same ⟨fun _ => rfl, rfl, fun _ _ => rfl⟩ howned rfl fun _ _ _ hmem => ?_
      · refine (List.mem_cons.mp hmem).resolve_left fun heq => ?_
        cases heq
        exact hhash rfl
  · obtain ⟨capture, intact, rfl, -⟩ := hknows hhash
    exact ⟨capture, file, intact, rfl⟩

/-- A worker opens the record to write the outcome. -/
theorem Lives.reopen (h : Lives hash c stage) (howned : Owned c.dir) {hash' : String}
    {outcome : Bytes} {left : List String} (hp : c.phase p = .closing hash' outcome left) :
    ∃ stage', Lives hash ((c.withDir (c.dir.create (.record hash' .processing))).go p
      (.rewriting hash' outcome (c.dir.opened (.record hash' .processing)) 0 left)) stage' := by
  have hknows := h.knows p
  rw [hp] at hknows
  have hholds : (c.phase p).holds = some hash' := by
    rw [hp]
    rfl
  by_cases hhash : hash' = hash
  · subst hhash
    obtain ⟨capture, file, intact, rfl⟩ := hknows rfl
    cases h.placed with
    | born once there alone frozen pending prefixed replayed =>
      have hopened := Files.opened_of_entry there
      have hentry : ∀ s, (c.dir.create (.record hash' .processing)).entry (.record hash' s) =
          c.dir.entry (.record hash' s) := by
        intro s
        by_cases hs : s = .processing
        · rw [hs, Files.create_entry_self, hopened, there]
        · refine Files.create_entry_of_ne fun heq => hs ?_
          cases heq
          rfl
      refine ⟨.born capture file .processing false, h.next ?_ (fun _ => ⟨capture, ?_⟩)
        (fun q hq => (h.knows q).advance (fun hq' => hq (h.alone q p hq' hholds))
          (fun left _ hnone s hs => (hentry s).trans (hnone s hs)) fun hf => nomatch hf)
        fun _ => .inl hholds⟩
      · refine .born once ((hentry _).trans there) (fun s hs => (hentry s).trans (alone s hs))
          (fun text htext => ?_) (fun hs => nomatch hs) (fun hf => nomatch hf) replayed
        exact (read_plan_create howned .processing).trans (frozen text htext)
      · rw [hopened]
  · exact ⟨stage, h.elsewhere howned (sameFor_create howned hhash) rfl (fun _ _ _ hr => hr)
      (fun hn => nomatch hn) fun heq => hhash (Option.some.inj heq)⟩

theorem Lives.rewrite (h : Lives hash c stage) (hapart : Apart c) {hash' : String}
    {outcome : Bytes} {file : Inode Name} {n : Nat} {left : List String}
    (hp : c.phase p = .rewriting hash' outcome file n left) (k : Nat) :
    Lives hash ((c.withDir (c.dir.write file 0 n ((outcome.drop n).take k))).go p
      (.rewriting hash' outcome file (n + k) left)) stage := by
  have hknows := h.knows p
  rw [hp] at hknows
  have hbase := hapart.targets p file (hash', false) (by rw [hp]; rfl)
  have hholds : (c.phase p).holds = some hash' := by
    rw [hp]
    rfl
  by_cases hhash : hash' = hash
  · subst hhash
    obtain ⟨capture, rfl⟩ := hknows rfl
    refine h.next ?_ (fun _ => ⟨capture, rfl⟩)
      (fun q hq => (h.knows q).advance (fun hq' => hq (h.alone q p hq' hholds))
        (fun _ _ hnone => hnone) fun hf => nomatch hf) fun _ => .inl hholds
    cases h.placed with
    | born once there alone frozen pending prefixed replayed =>
      refine .born once there alone (fun text htext => ?_) pending (fun hf => nomatch hf) replayed
      exact (read_plan_write hapart.owned hbase).trans (frozen text htext)
  · exact h.elsewhere hapart.owned (sameFor_write (by rw [hbase]; exact hhash)) rfl
      (fun _ _ _ hr => hr) (fun hn => nomatch hn) fun heq => hhash (Option.some.inj heq)

theorem Lives.finish (h : Lives hash c stage) (howned : Owned c.dir) {hash' : String}
    {left : List String} {dir : Dir} (hp : c.phase p = .finishing hash' left)
    (hrename : c.dir.rename (.record hash' .processing) (.record hash' .done) = some dir) :
    ∃ stage', Lives hash ((c.withDir dir).go p (.draining left)) stage' := by
  have hknows := h.knows p
  rw [hp] at hknows
  have hholds : (c.phase p).holds = some hash' := by
    rw [hp]
    rfl
  by_cases hhash : hash' = hash
  · subst hhash
    obtain ⟨capture, file, intact, rfl⟩ := hknows rfl
    exact ⟨.born capture file .done intact,
      h.next (h.placed.rename (by decide) (by decide) hrename) trivial
        (fun q hq => (h.knows q).advance (fun hq' => hq (h.alone q p hq' hholds))
          (fun left hleft hnone => absent_rename (by decide) hrename hleft hnone)
          fun hf => ⟨hf, congrFun (Files.rename_data hrename) file⟩) fun hn => nomatch hn⟩
  · exact ⟨stage, h.elsewhere howned
      (sameFor_rename (a := .record hash' .processing) (b := .record hash' .done) hhash hhash hrename)
      rfl (fun _ _ _ hr => hr) (fun hn => nomatch hn) fun hn => nomatch hn⟩

/-- Any step of any process. -/
theorem Lives.step {c' : Config reader π} (h : Lives hash c stage) (hsound : Sound c)
    (hapart : Apart c) (hserial : Serial hash c) (hs : Step c c') :
    ∃ stage', Lives hash c' stage' := by
  have hbefore : ∀ (p : π) {phase phase' : Phase reader}, c.phase p = phase →
      phase'.holds = some hash → phase.holds = phase'.holds → (c.phase p).holds = some hash := by
    intro p phase phase' hp hholds hsame
    rw [hp, hsame, hholds]
  cases hs with
  | stop p => exact ⟨stage, h.go trivial fun hn => nomatch hn⟩
  | drain p left hp => exact ⟨stage, h.go trivial fun hn => nomatch hn⟩
  | lose p hp => exact ⟨stage, h.go trivial fun hn => nomatch hn⟩
  | skip p left hp => exact ⟨stage, h.go trivial fun hn => nomatch hn⟩
  | capture p capture hp =>
    refine ⟨stage, h.go (fun _ => ⟨List.suffix_refl _, fun s hs => ?_⟩) fun hn => nomatch hn⟩
    exact absurd (by cases s <;> decide) hs
  | probe p hp hnone => exact ⟨stage, h.probe hp hnone⟩
  | openPlan p hp htext => exact ⟨stage, h.openPlan hapart.owned hserial hp htext⟩
  | noPlan p hp hnoplan =>
    refine ⟨stage, h.go (fun hhash => ⟨(h.probed hp hhash).1, fun text htext => ?_⟩)
      fun hn => nomatch hn⟩
    rw [hnoplan] at htext
    cases htext
  | writePlan p k hp hk => exact ⟨stage, h.writePlan hapart hserial hp hk⟩
  | closePlan p hp => exact ⟨stage, h.closePlan hp⟩
  | publish p hp => exact h.publish hsound hapart.owned hserial hp
  | write p k hp hk => exact ⟨stage, h.write hapart hserial hp hk⟩
  | claim p hp hentry hrename => exact h.claim hapart.owned hentry hrename
  | read p hp hread hobject => exact ⟨stage, h.read hp hread hobject⟩
  | unreadable p outcome hp =>
    refine ⟨stage, h.go (fun hhash => ?_) fun hn => hbefore p hp hn rfl⟩
    have hknows := h.knows p
    rw [hp] at hknows
    obtain ⟨capture, rfl⟩ := hknows hhash
    exact ⟨capture, _, _, rfl⟩
  | reconstruct p hp hplan hread => exact ⟨stage, h.reconstruct hp hplan hread⟩
  | unavailable p outcome hp =>
    refine ⟨stage, h.go (fun hhash => ?_) fun hn => hbefore p hp hn rfl⟩
    have hknows := h.knows p
    rw [hp] at hknows
    obtain ⟨capture, intact, rfl, -⟩ := hknows hhash
    exact ⟨capture, _, intact, rfl⟩
  | replay p outcome hp => exact ⟨stage, h.replay hapart.owned hp⟩
  | reopen p hp => exact h.reopen hapart.owned hp
  | rewrite p k hp => exact ⟨stage, h.rewrite hapart hp k⟩
  | rewritten p hp =>
    refine ⟨stage, h.go (fun hhash => ?_) fun hn => hbefore p hp hn rfl⟩
    have hknows := h.knows p
    rw [hp] at hknows
    obtain ⟨capture, rfl⟩ := hknows hhash
    exact ⟨capture, _, _, rfl⟩
  | finish p hp hrename => exact h.finish hapart.owned hp hrename

theorem Reachable.lives (h : Reachable (Serial hash) c) :
    Apart c ∧ Serial hash c ∧ ∃ stage, Lives hash c stage := by
  induction h with
  | initial => exact ⟨apart_initial, fun _ _ hp => (nomatch hp), .unborn, lives_initial⟩
  | step hbefore hs hserial ih =>
    obtain ⟨hapart, hserial', stage, hlives⟩ := ih
    exact ⟨hapart.step hs, hserial, hlives.step hbefore.sound hapart hserial' hs⟩

end Steps

end MultiForge.Semantic.ShadowDrain
