/-
MultiForge.Lib.Interruptible — sections that can be cut short anywhere.

Under an open discipline the lock can be released in every state that
satisfies the invariant, so that faults and kills may strike between any
two actions. What there is to show of a transaction is a property that it
ends in however it ends (`keep`), and what holds besides when it has not
raised (`post`).
-/
import Mathlib.Logic.Relation
import MultiForge.Lib.Locked

namespace MultiForge.Locked

variable {σ ε α β : Type}

/-! ## 1. Transactions -/

/-- Wherever the invariant holds, the lock can be released. -/
def Discipline.Open (D : Discipline σ) : Prop := ∀ s, D.inv s → D.Closed s

/-- A property that says enough and that the others leave alone. -/
structure Discipline.Keeping (D : Discipline σ) (keep : σ → Prop) : Prop where
  inv : ∀ s, keep s → D.inv s
  quiet : ∀ s s', keep s → D.quiet s s' → keep s'

theorem Discipline.keeping_inv (D : Discipline σ) : D.Keeping D.inv :=
  ⟨fun _ h => h, fun _ _ h hs => D.quiet_inv h hs⟩

/-- A transaction keeps to the discipline, ends in `keep`, and with `post`
unless it raises. -/
def Txn.Keeps (D : Discipline σ) (keep : σ → Prop) (post : α → σ → Prop) (x : Txn σ ε α)
    (s : σ) : Prop :=
  Section.Meets D (fun r s' => keep s' ∧ ∀ a, r = .ok a → post a s') x s

section

variable {D : Discipline σ} {keep keep' : σ → Prop} {post : β → σ → Prop} {s : σ}

theorem Txn.Keeps.mono {post' : β → σ → Prop} {x : Txn σ ε β} (h : x.Keeps D keep post s)
    (hkeep : ∀ s, keep s → keep' s) (hpost : ∀ b s, keep s → post b s → post' b s) :
    x.Keeps D keep' post' s :=
  Section.Meets.mono (fun _ _ hr => ⟨hkeep _ hr.1, fun b hb => hpost b _ hr.1 (hr.2 b hb)⟩) h

theorem Txn.Keeps.pure (hkeep : D.Keeping keep) {b : β} (h : keep s)
    (hpost : ∀ s₁, D.quiet s s₁ → keep s₁ → post b s₁) :
    Txn.Keeps D keep post (Pure.pure b : Txn σ ε β) s := by
  intro s₁ hs
  refine ⟨hkeep.quiet s s₁ h hs, fun b' hb => ?_⟩
  cases hb
  exact hpost s₁ hs (hkeep.quiet s s₁ h hs)

theorem Txn.Keeps.throw (hkeep : D.Keeping keep) {e : ε} (h : keep s) :
    Txn.Keeps D keep post (MonadExcept.throw e : Txn σ ε β) s :=
  fun s₁ hs => ⟨hkeep.quiet s s₁ h hs, fun _ hr => by cases hr⟩

/-- One after another. -/
theorem Txn.Keeps.bind (hkeep : D.Keeping keep) {x : Txn σ ε α} {f : α → Txn σ ε β}
    (h : x.Keeps D keep (fun a s' => (f a).Keeps D keep post s') s) :
    Txn.Keeps D keep post (x >>= f) s := by
  refine Txn.Meets.bind (Section.Meets.mono (fun r s' hr => ?_) h)
  cases r with
  | ok a => exact hr.2 a rfl
  | error e => exact fun s₁ hs => ⟨hkeep.quiet s' s₁ hr.1 hs, fun _ hr => by cases hr⟩

/-- A transaction whose failure is dealt with. -/
theorem Txn.Keeps.tryCatch {x : Txn σ ε β} {handler : ε → Txn σ ε β}
    (h : x.Keeps D keep (fun b s' => ∀ s₁, D.quiet s' s₁ → keep' s₁ ∧ post b s₁) s)
    (hhandler : ∀ e s', keep s' → (handler e).Keeps D keep' post s') :
    Txn.Keeps D keep' post (MonadExcept.tryCatch x handler) s := by
  refine Txn.Meets.tryCatch (Section.Meets.mono (fun r s' hr => ?_) h)
  cases r with
  | ok b =>
    intro s₁ hs
    obtain ⟨hk, hp⟩ := hr.2 b rfl s₁ hs
    refine ⟨hk, fun b' hb => ?_⟩
    cases hb
    exact hp
  | error e => exact hhandler e s' hr.1

theorem Txn.Keeps.ofExcept (hkeep : D.Keeping keep) {r : Except ε α} {f : α → Txn σ ε β}
    (h : keep s) (hnext : ∀ a, r = .ok a → (f a).Keeps D keep post s) :
    Txn.Keeps D keep post (MonadExcept.ofExcept r >>= f : Txn σ ε β) s := by
  cases r with
  | ok a => exact hnext a rfl
  | error e => exact Txn.Keeps.throw hkeep h

/-- An action that may raise, and what follows it. -/
theorem Txn.Keeps.attempt (hopen : D.Open) (hkeep : D.Keeping keep) {faulty : σ → Prop} {e : ε}
    {rel : σ → α → σ → Prop} {f : α → Txn σ ε β} (h : keep s)
    (hnext : ∀ s₁, D.quiet s s₁ → keep s₁ → ∀ a s', rel s₁ a s' →
      keep s' ∧ D.step s₁ s' ∧ (f a).Keeps D keep post s') :
    Txn.Keeps D keep post (Txn.attempt faulty e rel >>= f : Txn σ ε β) s := by
  have hraise : ∀ {s : σ}, keep s → Raises D
      (fun r s' => keep s' ∧ ∀ b : β, r = Except.ok b → post b s') e s :=
    fun h s₁ hs => ⟨hkeep.quiet _ s₁ h hs, fun _ hr => by cases hr⟩
  refine Txn.Meets.attempt fun s₁ hs => ?_
  have h₁ := hkeep.quiet s s₁ h hs
  refine ⟨hkeep.inv s₁ h₁, fun _ => hopen s₁ (hkeep.inv s₁ h₁), fun _ => hraise h₁,
    fun a s' hrel => ?_⟩
  obtain ⟨h', hstep, hf⟩ := hnext s₁ hs h₁ a s' hrel
  exact ⟨hstep, fun _ => hraise h', hf⟩

theorem Txn.Keeps.read (hopen : D.Open) (hkeep : D.Keeping keep) {faulty : σ → Prop} {e : ε}
    {g : σ → α} {f : α → Txn σ ε β} (h : keep s)
    (hnext : ∀ s₁, D.quiet s s₁ → keep s₁ → (f (g s₁)).Keeps D keep post s₁) :
    Txn.Keeps D keep post (Txn.read faulty e g >>= f : Txn σ ε β) s := by
  refine Txn.Keeps.attempt hopen hkeep h fun s₁ hs h₁ => ?_
  rintro a s' ⟨rfl, rfl⟩
  exact ⟨h₁, D.step_refl _, hnext s' hs h₁⟩

theorem Txn.Keeps.write (hopen : D.Open) (hkeep : D.Keeping keep) {faulty : σ → Prop} {e : ε}
    {g : σ → σ} {f : Unit → Txn σ ε β} (h : keep s)
    (hnext : ∀ s₁, D.quiet s s₁ → keep s₁ →
      keep (g s₁) ∧ D.step s₁ (g s₁) ∧ (f ()).Keeps D keep post (g s₁)) :
    Txn.Keeps D keep post (Txn.write faulty e g >>= f : Txn σ ε β) s := by
  refine Txn.Keeps.attempt hopen hkeep h fun s₁ hs h₁ => ?_
  rintro a s' rfl
  exact hnext s₁ hs h₁

/-- A transaction that ends with an action. -/
theorem Txn.Keeps.last {x : Txn σ ε β}
    (h : Txn.Keeps D keep post (x >>= Pure.pure : Txn σ ε β) s) : x.Keeps D keep post s := by
  rwa [bind_pure] at h

/-- A transaction all of whose actions are within a relation. -/
theorem Txn.Keeps.within (hopen : D.Open) (hkeep : D.Keeping keep) {R : σ → σ → Prop}
    (hstep : ∀ s s', keep s → R s s' → keep s' ∧ D.step s s') {x : Txn σ ε β}
    (hx : Section.Within R x) (h : keep s) : x.Keeps D keep (fun _ s' => keep s') s :=
  (Section.Within.meets hstep hkeep.quiet
    (fun s hs => ⟨hkeep.inv s hs, fun _ => hopen s (hkeep.inv s hs)⟩) hx h).mono
    fun _ _ hr => ⟨hr, fun _ _ => hr⟩

theorem Section.Within.and {R R' : σ → σ → Prop} :
    ∀ {x : Section σ α}, x.Within R → x.Within R' → x.Within fun s s' => R s s' ∧ R' s s'
  | .ret _, _, _ => trivial
  | .act _ _, h, h' => ⟨fun s b s' hr => ⟨h.1 s b s' hr, h'.1 s b s' hr⟩,
      fun b => (h.2 b).and (h'.2 b)⟩

end

/-! ## 2. Jobs -/

/-- A job keeps to the discipline, and ends with `post` unless it raises. -/
def Job.Ends (D : Discipline σ) (post : α → σ → Prop) (x : Job σ ε α) (s : σ) : Prop :=
  Program.Meets D (fun r s' => ∀ a, r = .ok a → post a s') x s

section

variable {D : Discipline σ} {post : β → σ → Prop} {s : σ}

theorem Job.Ends.mono {post' : β → σ → Prop} {x : Job σ ε β} (h : x.Ends D post s)
    (hpost : ∀ b s, post b s → post' b s) : x.Ends D post' s :=
  Program.Meets.mono (fun _ _ hr b hb => hpost b _ (hr b hb)) h

theorem Job.Ends.pure {b : β} (h : ∀ s₁, D.step s s₁ → D.inv s₁ → post b s₁) :
    Job.Ends D post (Pure.pure b : Job σ ε β) s := by
  intro s₁ hs hinv b' hb
  cases hb
  exact h s₁ hs hinv

theorem Job.Ends.throw {e : ε} : Job.Ends D post (MonadExcept.throw e : Job σ ε β) s :=
  fun _ _ _ _ hr => by cases hr

/-- One after another. -/
theorem Job.Ends.bind (hinv : D.inv s) {x : Job σ ε α} {f : α → Job σ ε β}
    (h : x.Ends D (fun a s' => D.step s s' → D.inv s' → (f a).Ends D post s') s) :
    Job.Ends D post (x >>= f) s := by
  refine Job.Meets.bind hinv (Program.Meets.mono (fun r s' hr => ?_)
    (Program.Meets.onward (D.step_refl s) h))
  cases r with
  | ok a => exact hr.1 a rfl hr.2.1 hr.2.2
  | error e => exact fun _ _ _ _ hr => by cases hr

theorem Job.Ends.read {g : σ → α} {f : α → Job σ ε β}
    (h : ∀ s₁, D.step s s₁ → D.inv s₁ → (f (g s₁)).Ends D post s₁) :
    Job.Ends D post (Job.read g >>= f : Job σ ε β) s :=
  Job.Meets.read h

theorem Job.Ends.write {e : ε} {g : σ → σ} {f : Unit → Job σ ε β}
    (h : ∀ s₁, D.step s s₁ → D.inv s₁ → D.quiet s₁ (g s₁) ∧ (f ()).Ends D post (g s₁)) :
    Job.Ends D post (Job.write e g >>= f : Job σ ε β) s :=
  Job.Meets.write fun s₁ hs hinv =>
    ⟨(h s₁ hs hinv).1, (h s₁ hs hinv).2, fun _ _ _ _ hr => by cases hr⟩

/-- A section of a job. -/
theorem Job.Ends.locked (hopen : D.Open) {x : Txn σ ε β}
    (h : ∀ s₁, D.step s s₁ → D.inv s₁ → x.Keeps D D.inv (fun b s₂ => D.step s₁ s₂ →
      ∀ s₃, D.step s₂ s₃ → D.inv s₃ → post b s₃) s₁) : Job.Ends D post (Job.locked x) s := by
  intro s₁ hs hinv _
  refine Section.Meets.mono (fun r s₂ hr => ⟨hopen s₂ hr.1.1, fun s₃ h₃ hinv₃ b hb => ?_⟩)
    (Section.Meets.onward (D.step_refl s₁) (h s₁ hs hinv))
  exact hr.1.2 b hb hr.2 s₃ (D.step_trans (D.release_step s₂) h₃) hinv₃

theorem Job.Ends.discard (hinv : D.inv s) {x : Job σ ε α} {post : Unit → σ → Prop}
    (h : x.Ends D (fun _ s' => ∀ s₁, D.step s' s₁ → D.inv s₁ → post () s₁) s) :
    Job.Ends D post (Functor.discard x : Job σ ε Unit) s := by
  refine Program.Meets.bind hinv (Program.Meets.mono (fun r s' hr => ?_) h)
  cases r with
  | ok a => exact fun s₁ hs hinv₁ _ _ => hr a rfl s₁ hs hinv₁
  | error e => exact fun _ _ _ _ hr => by cases hr

end

/-! ## 3. What comes later -/

section

universe u

variable {π : Type} {ι : Type u} [DecidableEq π] {D : Discipline σ} {sys : System ι σ α}
  {post : ι → σ → α → σ → Prop}

/-- A run goes on as the discipline has it. -/
theorem Config.Ok.later (hsys : sys.Keeps D post) {c c' : Config π ι σ α} (h : c.Ok D post)
    (hsteps : Relation.ReflTransGen (Step sys) c c') :
    c'.Ok D post ∧ D.step c.shared c'.shared := by
  induction hsteps with
  | refl => exact ⟨h, D.step_refl _⟩
  | tail _ hstep ih =>
    exact ⟨ih.1.step hsys hstep, D.step_trans ih.2 (ih.1.onward hsys hstep)⟩

end

end MultiForge.Locked
