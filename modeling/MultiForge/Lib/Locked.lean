/-
MultiForge.Lib.Locked — programs of processes that share a state and one
lock.

A program does atomic actions, some of them in critical sections: inside a
section it holds the lock, and the sections of two processes do not
overlap. Actions are relations between a state, a result and the next
state, so that they can fail. A process can be killed between any two
actions, which releases the lock.

A `Discipline` says what the processes keep to: `inv` holds in every
state, `free` in every state where no one holds the lock, `step` is what
an action may do, `quiet` what an action outside of a section may do.
`Section.Meets` and `Program.Meets` say that one program keeps to it,
whatever the others do, and `Reachable.ok` that this is enough: programs
that meet the discipline one by one keep to it together, in every
interleaving and with every kill.
-/

namespace MultiForge.Locked

universe u

/-! ## 1. Programs -/

/-- A critical section. -/
inductive Section (σ α : Type) : Type 1
  | ret (a : α)
  | act {β : Type} (rel : σ → β → σ → Prop) (next : β → Section σ α)

/-- A program. -/
inductive Program (σ α : Type) : Type 1
  | ret (a : α)
  | act {β : Type} (rel : σ → β → σ → Prop) (next : β → Program σ α)
  | locked {β : Type} (body : Section σ β) (next : β → Program σ α)

variable {σ α β γ : Type}

def Section.bind : Section σ α → (α → Section σ β) → Section σ β
  | .ret a, f => f a
  | .act rel next, f => .act rel fun b => (next b).bind f

def Program.bind : Program σ α → (α → Program σ β) → Program σ β
  | .ret a, f => f a
  | .act rel next, f => .act rel fun b => (next b).bind f
  | .locked body next, f => .locked body fun b => (next b).bind f

instance : Monad (Section σ) where
  pure := .ret
  bind := Section.bind

instance : Monad (Program σ) where
  pure := .ret
  bind := Program.bind

theorem Section.bind_ret : ∀ x : Section σ α, x.bind .ret = x
  | .ret _ => rfl
  | .act rel next => congrArg (Section.act rel) (funext fun b => (next b).bind_ret)

theorem Section.bind_assoc (f : α → Section σ β) (g : β → Section σ γ) :
    ∀ x : Section σ α, (x.bind f).bind g = x.bind fun a => (f a).bind g
  | .ret _ => rfl
  | .act rel next => congrArg (Section.act rel) (funext fun b => (next b).bind_assoc f g)

instance : LawfulMonad (Section σ) :=
  .mk' _ Section.bind_ret (fun _ _ => rfl) (fun x f g => Section.bind_assoc f g x)

/-- One action of a section. -/
def Section.one (rel : σ → α → σ → Prop) : Section σ α := .act rel .ret

/-- One action outside of a section. -/
def Program.one (rel : σ → α → σ → Prop) : Program σ α := .act rel .ret

/-- One section. -/
def Program.section (body : Section σ α) : Program σ α := .locked body .ret

/-! ## 2. Processes -/

/-- What runs: a program for every operation, the states in which a
process that holds the lock can be killed, and what a release of the lock
records. -/
structure System (ι : Type u) (σ α : Type) : Type (max u 1) where
  code : ι → Program σ α
  faulty : σ → Prop
  release : σ → σ

/-- Where a process is. -/
inductive Proc (σ α : Type) : Type 1
  | free (prog : Program σ α)
  | inside {β : Type} (body : Section σ β) (next : β → Program σ α)

/-- A process, with its operation and the state it started in. -/
structure Task (ι : Type u) (σ α : Type) : Type (max u 1) where
  op : ι
  start : σ
  proc : Proc σ α

/-- The shared state, the holder of the lock and the processes. -/
structure Config (π : Type) (ι : Type u) (σ α : Type) : Type (max u 1) where
  shared : σ
  lock : Option π
  tasks : π → Option (Task ι σ α)

variable {π : Type} {ι : Type u} [DecidableEq π]

/-- Change what a process does. -/
def Config.update (c : Config π ι σ α) (p : π) (t : Option (Task ι σ α)) : Config π ι σ α :=
  { c with tasks := fun q => if q = p then t else c.tasks q }

/-- One step of one process. A process that holds the lock is killed in a
faulty state only; outside of a section it is killed in any state. -/
inductive Step (sys : System ι σ α) : Config π ι σ α → Config π ι σ α → Prop
  | start {c : Config π ι σ α} {p : π} (i : ι) :
      c.tasks p = none →
      Step sys c (c.update p (some ⟨i, c.shared, .free (sys.code i)⟩))
  | act {c : Config π ι σ α} {p : π} {i : ι} {s₀ s' : σ} {β : Type}
      {rel : σ → β → σ → Prop} {next : β → Program σ α} {b : β} :
      c.tasks p = some ⟨i, s₀, .free (.act rel next)⟩ → rel c.shared b s' →
      Step sys c { c.update p (some ⟨i, s₀, .free (next b)⟩) with shared := s' }
  | enter {c : Config π ι σ α} {p : π} {i : ι} {s₀ : σ} {β : Type}
      {body : Section σ β} {next : β → Program σ α} :
      c.tasks p = some ⟨i, s₀, .free (.locked body next)⟩ → c.lock = none →
      Step sys c { c.update p (some ⟨i, s₀, .inside body next⟩) with lock := some p }
  | actInside {c : Config π ι σ α} {p : π} {i : ι} {s₀ s' : σ} {β γ : Type}
      {rel : σ → β → σ → Prop} {body : β → Section σ γ} {next : γ → Program σ α} {b : β} :
      c.tasks p = some ⟨i, s₀, .inside (.act rel body) next⟩ → rel c.shared b s' →
      Step sys c { c.update p (some ⟨i, s₀, .inside (body b) next⟩) with shared := s' }
  | leave {c : Config π ι σ α} {p : π} {i : ι} {s₀ : σ} {γ : Type} {g : γ}
      {next : γ → Program σ α} :
      c.tasks p = some ⟨i, s₀, .inside (.ret g) next⟩ →
      Step sys c { c.update p (some ⟨i, s₀, .free (next g)⟩) with
        shared := sys.release c.shared
        lock := none }
  | kill {c : Config π ι σ α} {p : π} {t : Task ι σ α} :
      c.tasks p = some t → c.lock ≠ some p → Step sys c (c.update p none)
  | killInside {c : Config π ι σ α} {p : π} {t : Task ι σ α} :
      c.tasks p = some t → c.lock = some p → sys.faulty c.shared →
      Step sys c { c.update p none with shared := sys.release c.shared, lock := none }
  | exit {c : Config π ι σ α} {p : π} {i : ι} {s₀ : σ} {a : α} :
      c.tasks p = some ⟨i, s₀, .free (.ret a)⟩ → Step sys c (c.update p none)

/-- The configurations that runs from a state lead to. -/
inductive Reachable (sys : System ι σ α) (s₀ : σ) : Config π ι σ α → Prop
  | init : Reachable sys s₀ ⟨s₀, none, fun _ => none⟩
  | step {c c' : Config π ι σ α} :
      Reachable sys s₀ c → Step sys c c' → Reachable sys s₀ c'

/-! ## 3. Disciplines -/

/-- What processes keep to. -/
structure Discipline (σ : Type) where
  /-- in every state -/
  inv : σ → Prop
  /-- in every state where the lock is free -/
  free : σ → Prop
  /-- what an action may do -/
  step : σ → σ → Prop
  /-- what an action outside of a section may do -/
  quiet : σ → σ → Prop
  /-- where a process that holds the lock may be killed -/
  faulty : σ → Prop
  /-- what a release of the lock records -/
  release : σ → σ
  step_refl : ∀ s, step s s
  step_trans : ∀ {a b c}, step a b → step b c → step a c
  quiet_refl : ∀ s, quiet s s
  quiet_trans : ∀ {a b c}, quiet a b → quiet b c → quiet a c
  quiet_step : ∀ {a b}, quiet a b → step a b
  quiet_inv : ∀ {a b}, inv a → quiet a b → inv b
  quiet_free : ∀ {a b}, inv a → free a → quiet a b → free b
  release_step : ∀ s, step s (release s)

variable (D : Discipline σ)

/-- A state in which the lock can be released. -/
def Discipline.Closed (s : σ) : Prop :=
  D.inv s ∧ D.inv (D.release s) ∧ D.free (D.release s)

/-- A section that starts in a state keeps to the discipline and ends with
`post`, whatever the others do outside of sections. -/
def Section.Meets (post : α → σ → Prop) : Section σ α → σ → Prop
  | .ret a, s => ∀ s₁, D.quiet s s₁ → post a s₁
  | .act rel next, s => ∀ s₁, D.quiet s s₁ → D.inv s₁ ∧ (D.faulty s₁ → D.Closed s₁) ∧
      ∀ b s', rel s₁ b s' → D.step s₁ s' ∧ (next b).Meets post s'

/-- A program that is at a state keeps to the discipline and ends with
`post`, whatever the others do. -/
def Program.Meets (post : α → σ → Prop) : Program σ α → σ → Prop
  | .ret a, s => ∀ s₁, D.step s s₁ → D.inv s₁ → post a s₁
  | .act rel next, s => ∀ s₁, D.step s s₁ → D.inv s₁ → ∀ b s', rel s₁ b s' →
      D.quiet s₁ s' ∧ (next b).Meets post s'
  | .locked body next, s => ∀ s₁, D.step s s₁ → D.inv s₁ → D.free s₁ →
      body.Meets D (fun b s₂ => D.Closed s₂ ∧ (next b).Meets post (D.release s₂)) s₁

/-! ## 4. Rules -/

section Rules

variable {D} {s s' : σ}

theorem Section.Meets.mono {post post' : α → σ → Prop} (h : ∀ a s, post a s → post' a s) :
    ∀ {x : Section σ α} {s : σ}, x.Meets D post s → x.Meets D post' s
  | .ret _, _, hx => fun s₁ hs => h _ _ (hx s₁ hs)
  | .act _ _, _, hx => fun s₁ hs =>
      let ⟨hinv, hfree, hnext⟩ := hx s₁ hs
      ⟨hinv, hfree, fun b s' hr => ⟨(hnext b s' hr).1, (hnext b s' hr).2.mono h⟩⟩

/-- What others do outside of sections does not matter inside. -/
theorem Section.Meets.quiet {post : α → σ → Prop} {x : Section σ α} (h : x.Meets D post s)
    (hs : D.quiet s s') : x.Meets D post s' := by
  cases x with
  | ret a => exact fun s₁ h₁ => h s₁ (D.quiet_trans hs h₁)
  | act rel next => exact fun s₁ h₁ => h s₁ (D.quiet_trans hs h₁)

/-- One after another. -/
theorem Section.Meets.bind {post : β → σ → Prop} {f : α → Section σ β} :
    ∀ {x : Section σ α} {s : σ}, x.Meets D (fun a s' => (f a).Meets D post s') s →
      (x >>= f).Meets D post s
  | .ret _, s, h => h s (D.quiet_refl s)
  | .act _ _, _, h => fun s₁ hs =>
      let ⟨hinv, hfree, hnext⟩ := h s₁ hs
      ⟨hinv, hfree, fun b s' hr => ⟨(hnext b s' hr).1, (hnext b s' hr).2.bind⟩⟩

theorem Section.Meets.pure {post : α → σ → Prop} {a : α}
    (h : ∀ s₁, D.quiet s s₁ → post a s₁) :
    Section.Meets D post (Pure.pure a : Section σ α) s := h

theorem Section.Meets.inv {post : α → σ → Prop} (hpost : ∀ a s, post a s → D.inv s)
    {x : Section σ α} (h : x.Meets D post s) : D.inv s := by
  cases x with
  | ret a => exact hpost a s (h s (D.quiet_refl s))
  | act rel next => exact (h s (D.quiet_refl s)).1

theorem Section.Meets.closed {post : α → σ → Prop} (hpost : ∀ a s, post a s → D.Closed s)
    {x : Section σ α} (h : x.Meets D post s) (hs : D.faulty s) : D.Closed s := by
  cases x with
  | ret a => exact hpost a s (h s (D.quiet_refl s))
  | act rel next => exact (h s (D.quiet_refl s)).2.1 hs

/-- What others do does not matter to a program that is at any state. -/
theorem Program.Meets.step {post : α → σ → Prop} {x : Program σ α} (h : x.Meets D post s)
    (hs : D.step s s') : x.Meets D post s' := by
  cases x with
  | ret a => exact fun s₁ h₁ => h s₁ (D.step_trans hs h₁)
  | act rel next => exact fun s₁ h₁ => h s₁ (D.step_trans hs h₁)
  | locked body next => exact fun s₁ h₁ => h s₁ (D.step_trans hs h₁)

theorem Program.Meets.mono {post post' : α → σ → Prop} (h : ∀ a s, post a s → post' a s) :
    ∀ {x : Program σ α} {s : σ}, x.Meets D post s → x.Meets D post' s
  | .ret _, _, hx => fun s₁ hs hinv => h _ _ (hx s₁ hs hinv)
  | .act _ _, _, hx => fun s₁ hs hinv b s' hr =>
      ⟨(hx s₁ hs hinv b s' hr).1, (hx s₁ hs hinv b s' hr).2.mono h⟩
  | .locked _ _, _, hx => fun s₁ hs hinv hfree =>
      (hx s₁ hs hinv hfree).mono fun _ _ hb => ⟨hb.1, hb.2.mono h⟩

theorem Program.Meets.bind {post : β → σ → Prop} {f : α → Program σ β} :
    ∀ {x : Program σ α} {s : σ}, D.inv s → x.Meets D (fun a s' => (f a).Meets D post s') s →
      (x >>= f).Meets D post s
  | .ret _, s, hinv, h => h s (D.step_refl s) hinv
  | .act _ _, _, _, h => fun s₁ hs hinv b s' hr =>
      let ⟨hq, hn⟩ := h s₁ hs hinv b s' hr
      ⟨hq, hn.bind (D.quiet_inv hinv hq)⟩
  | .locked _ _, _, _, h => fun s₁ hs hinv hfree =>
      (h s₁ hs hinv hfree).mono fun _ _ hb => ⟨hb.1, hb.2.bind hb.1.2.1⟩

/-- A section ends in a state that its start leads to. -/
theorem Section.Meets.onward {post : α → σ → Prop} {s₀ : σ} :
    ∀ {x : Section σ α} {s : σ}, D.step s₀ s → x.Meets D post s →
      x.Meets D (fun a s' => post a s' ∧ D.step s₀ s') s
  | .ret _, _, h₀, hx => fun s₁ hs => ⟨hx s₁ hs, D.step_trans h₀ (D.quiet_step hs)⟩
  | .act _ _, _, h₀, hx => fun s₁ hs =>
      have h := hx s₁ hs
      have h₁ := D.step_trans h₀ (D.quiet_step hs)
      ⟨h.1, h.2.1, fun b s' hr =>
        ⟨(h.2.2 b s' hr).1, (h.2.2 b s' hr).2.onward (D.step_trans h₁ (h.2.2 b s' hr).1)⟩⟩

/-- A program ends in a state that its start leads to. -/
theorem Program.Meets.onward {post : α → σ → Prop} {s₀ : σ} :
    ∀ {x : Program σ α} {s : σ}, D.step s₀ s → x.Meets D post s →
      x.Meets D (fun a s' => post a s' ∧ D.step s₀ s' ∧ D.inv s') s
  | .ret _, _, h₀, hx => fun s₁ hs hinv => ⟨hx s₁ hs hinv, D.step_trans h₀ hs, hinv⟩
  | .act _ _, _, h₀, hx => fun s₁ hs hinv b s' hr =>
      have h := hx s₁ hs hinv b s' hr
      ⟨h.1, h.2.onward (D.step_trans (D.step_trans h₀ hs) (D.quiet_step h.1))⟩
  | .locked _ _, _, h₀, hx => fun s₁ hs hinv hfree =>
      ((hx s₁ hs hinv hfree).onward (D.step_trans h₀ hs)).mono fun _ _ hb =>
        ⟨hb.1.1, hb.1.2.onward (D.step_trans hb.2 (D.release_step _))⟩

/-- Every action of a section is within a relation. -/
def Section.Within (R : σ → σ → Prop) : Section σ α → Prop
  | .ret _ => True
  | .act rel next => (∀ s b s', rel s b s' → R s s') ∧ ∀ b, (next b).Within R

/-- A section keeps what its actions keep, if that is enough for the
discipline. -/
theorem Section.Within.meets {R : σ → σ → Prop} {keep : σ → Prop}
    (hkeep : ∀ s s', keep s → R s s' → keep s' ∧ D.step s s')
    (hquiet : ∀ s s', keep s → D.quiet s s' → keep s')
    (hok : ∀ s, keep s → D.inv s ∧ (D.faulty s → D.Closed s)) :
    ∀ {x : Section σ α} {s : σ}, x.Within R → keep s → x.Meets D (fun _ s' => keep s') s
  | .ret _, s, _, hs => fun s₁ h₁ => hquiet s s₁ hs h₁
  | .act _ _, s, hx, hs => fun s₁ h₁ =>
      have hs₁ := hquiet s s₁ hs h₁
      ⟨(hok s₁ hs₁).1, (hok s₁ hs₁).2, fun b s' hr =>
        have h' := hkeep s₁ s' hs₁ (hx.1 s₁ b s' hr)
        ⟨h'.2, (hx.2 b).meets hkeep hquiet hok h'.1⟩⟩

end Rules

/-! ## 5. Actions that fail -/

/-- A section whose actions can raise. -/
abbrev Txn (σ ε α : Type) : Type 1 := ExceptT ε (Section σ) α

/-- A program that can raise. -/
abbrev Job (σ ε α : Type) : Type 1 := ExceptT ε (Program σ) α

section Failing

variable {ε : Type}

/-- An action that can also raise in a faulty state, before or after its
effect. -/
def Txn.attempt (faulty : σ → Prop) (e : ε) (rel : σ → α → σ → Prop) : Txn σ ε α :=
  Section.one fun s r s' =>
    (∃ a, r = .ok a ∧ rel s a s') ∨ (faulty s' ∧ r = .error e ∧ (s' = s ∨ ∃ a, rel s a s'))

/-- Read the state. -/
def Txn.read (faulty : σ → Prop) (e : ε) (f : σ → α) : Txn σ ε α :=
  attempt faulty e fun s a s' => a = f s ∧ s' = s

/-- Change the state. -/
def Txn.write (faulty : σ → Prop) (e : ε) (f : σ → σ) : Txn σ ε Unit :=
  attempt faulty e fun s _ s' => s' = f s

/-- Read the state outside of sections. -/
def Job.read (f : σ → α) : Job σ ε α :=
  Program.one fun s r s' => r = .ok (f s) ∧ s' = s

/-- Change the state outside of sections, or raise and leave it. -/
def Job.write (e : ε) (f : σ → σ) : Job σ ε Unit :=
  Program.one fun s r s' => (r = .ok () ∧ s' = f s) ∨ (r = .error e ∧ s' = s)

/-- A critical section of a program that can raise. -/
def Job.locked (body : Txn σ ε α) : Job σ ε α := Program.section body

variable {D} {post : Except ε β → σ → Prop} {s : σ}

/-- Raising ends with `post`. -/
def Raises (D : Discipline σ) (post : Except ε β → σ → Prop) (e : ε) (s : σ) : Prop :=
  ∀ s₁, D.quiet s s₁ → post (.error e) s₁

theorem Txn.Meets.bind {x : Txn σ ε α} {f : α → Txn σ ε β}
    (h : Section.Meets D (fun r s' => match r with
      | .ok a => Section.Meets D post (f a) s'
      | .error e => Raises D post e s') x s) :
    Section.Meets D post (x >>= f : Txn σ ε β) s := by
  refine Section.Meets.bind (f := ExceptT.bindCont f) (h.mono fun r s' hr => ?_)
  cases r with
  | ok a => exact hr
  | error e => exact hr

theorem Txn.Meets.pure {a : β} (h : ∀ s₁, D.quiet s s₁ → post (.ok a) s₁) :
    Section.Meets D post (Pure.pure a : Txn σ ε β) s := h

theorem Txn.Meets.throw {e : ε} (h : Raises D post e s) :
    Section.Meets D post (MonadExcept.throw e : Txn σ ε β) s := h

theorem Txn.Meets.tryCatch {x : Txn σ ε β} {handler : ε → Txn σ ε β}
    (h : Section.Meets D (fun r s' => match r with
      | .ok a => ∀ s₁, D.quiet s' s₁ → post (.ok a) s₁
      | .error e => Section.Meets D post (handler e) s') x s) :
    Section.Meets D post (MonadExcept.tryCatch x handler : Txn σ ε β) s := by
  refine Section.Meets.bind (h.mono fun r s' hr => ?_)
  cases r with
  | ok a => exact hr
  | error e => exact hr

/-- An action, and what follows it. -/
theorem Txn.Meets.attempt {faulty : σ → Prop} {e : ε} {rel : σ → α → σ → Prop}
    {f : α → Txn σ ε β}
    (h : ∀ s₁, D.quiet s s₁ → D.inv s₁ ∧ (D.faulty s₁ → D.Closed s₁) ∧
      (faulty s₁ → Raises D post e s₁) ∧
      ∀ a s', rel s₁ a s' → D.step s₁ s' ∧ (faulty s' → Raises D post e s') ∧
        Section.Meets D post (f a) s') :
    Section.Meets D post (Txn.attempt faulty e rel >>= f : Txn σ ε β) s := by
  refine Txn.Meets.bind fun s₁ hs => ?_
  obtain ⟨hinv, hfree, hsame, hnext⟩ := h s₁ hs
  refine ⟨hinv, hfree, fun r s' hr => ?_⟩
  rcases hr with ⟨a, rfl, ha⟩ | ⟨hf, rfl, rfl | ⟨a, ha⟩⟩
  · obtain ⟨hstep, -, hmeets⟩ := hnext a s' ha
    exact ⟨hstep, fun s₂ h₂ => hmeets.quiet h₂⟩
  · exact ⟨D.step_refl _, fun s₂ h₂ s₃ h₃ => hsame hf s₃ (D.quiet_trans h₂ h₃)⟩
  · obtain ⟨hstep, hraise, -⟩ := hnext a s' ha
    exact ⟨hstep, fun s₂ h₂ s₃ h₃ => hraise hf s₃ (D.quiet_trans h₂ h₃)⟩

theorem Txn.Meets.read {faulty : σ → Prop} {e : ε} {g : σ → α} {f : α → Txn σ ε β}
    (h : ∀ s₁, D.quiet s s₁ → D.inv s₁ ∧ (D.faulty s₁ → D.Closed s₁) ∧
      (faulty s₁ → Raises D post e s₁) ∧ Section.Meets D post (f (g s₁)) s₁) :
    Section.Meets D post (Txn.read faulty e g >>= f : Txn σ ε β) s := by
  refine Txn.Meets.attempt fun s₁ hs => ?_
  obtain ⟨hinv, hfree, hraise, hmeets⟩ := h s₁ hs
  refine ⟨hinv, hfree, hraise, ?_⟩
  rintro a s' ⟨rfl, rfl⟩
  exact ⟨D.step_refl _, hraise, hmeets⟩

theorem Txn.Meets.write {faulty : σ → Prop} {e : ε} {g : σ → σ} {f : Unit → Txn σ ε β}
    (h : ∀ s₁, D.quiet s s₁ → D.inv s₁ ∧ (D.faulty s₁ → D.Closed s₁) ∧
      (faulty s₁ → Raises D post e s₁) ∧ D.step s₁ (g s₁) ∧
      (faulty (g s₁) → Raises D post e (g s₁)) ∧ Section.Meets D post (f ()) (g s₁)) :
    Section.Meets D post (Txn.write faulty e g >>= f : Txn σ ε β) s := by
  refine Txn.Meets.attempt fun s₁ hs => ?_
  obtain ⟨hinv, hfree, hraise, hrest⟩ := h s₁ hs
  refine ⟨hinv, hfree, hraise, ?_⟩
  rintro a s' rfl
  exact hrest

theorem Job.Meets.bind {x : Job σ ε α} {f : α → Job σ ε β} (hinv : D.inv s)
    (h : Program.Meets D (fun r s' => match r with
      | .ok a => Program.Meets D post (f a) s'
      | .error e => ∀ s₁, D.step s' s₁ → D.inv s₁ → post (.error e) s₁) x s) :
    Program.Meets D post (x >>= f : Job σ ε β) s := by
  refine Program.Meets.bind hinv (h.mono fun r s' hr => ?_)
  cases r with
  | ok a => exact hr
  | error e => exact hr

/-- A program reads the state and goes on. -/
theorem Job.Meets.read {g : σ → α} {f : α → Job σ ε β}
    (h : ∀ s₁, D.step s s₁ → D.inv s₁ → Program.Meets D post (f (g s₁)) s₁) :
    Program.Meets D post (Job.read g >>= f : Job σ ε β) s := by
  rintro s₁ hs hinv b s' ⟨rfl, rfl⟩
  exact ⟨D.quiet_refl _, h s' hs hinv⟩

/-- A program changes the state and goes on. -/
theorem Job.Meets.write {e : ε} {g : σ → σ} {f : Unit → Job σ ε β}
    (h : ∀ s₁, D.step s s₁ → D.inv s₁ → D.quiet s₁ (g s₁) ∧ Program.Meets D post (f ()) (g s₁) ∧
      ∀ s₂, D.step s₁ s₂ → D.inv s₂ → post (.error e) s₂) :
    Program.Meets D post (Job.write e g >>= f : Job σ ε β) s := by
  intro s₁ hs hinv b s' hr
  obtain ⟨hquiet, hnext, hraise⟩ := h s₁ hs hinv
  rcases hr with ⟨rfl, rfl⟩ | ⟨rfl, rfl⟩
  · exact ⟨hquiet, hnext⟩
  · exact ⟨D.quiet_refl _, hraise⟩

end Failing

/-! ## 6. Disciplines under which nothing happens outside of sections -/

/-- No action outside of a section changes the state. -/
def Discipline.Still (D : Discipline σ) : Prop := ∀ {a b}, D.quiet a b → a = b

section Still

variable {ε : Type} {D} {post : Except ε β → σ → Prop} {s : σ} (hD : D.Still)

include hD

theorem Discipline.Still.pure {a : β} (h : post (.ok a) s) :
    Section.Meets D post (Pure.pure a : Txn σ ε β) s :=
  fun _ hs => hD hs ▸ h

theorem Discipline.Still.throw {e : ε} (h : post (.error e) s) :
    Section.Meets D post (MonadExcept.throw e : Txn σ ε β) s :=
  fun _ hs => hD hs ▸ h

theorem Discipline.Still.bind {x : Txn σ ε α} {f : α → Txn σ ε β}
    (h : Section.Meets D (fun r s' => match r with
      | .ok a => Section.Meets D post (f a) s'
      | .error e => post (.error e) s') x s) :
    Section.Meets D post (x >>= f : Txn σ ε β) s := by
  refine Txn.Meets.bind (h.mono fun r s' hr => ?_)
  cases r with
  | ok a => exact hr
  | error e => exact fun _ hs => hD hs ▸ hr

theorem Discipline.Still.tryCatch {x : Txn σ ε β} {handler : ε → Txn σ ε β}
    (h : Section.Meets D (fun r s' => match r with
      | .ok a => post (.ok a) s'
      | .error e => Section.Meets D post (handler e) s') x s) :
    Section.Meets D post (MonadExcept.tryCatch x handler : Txn σ ε β) s := by
  refine Txn.Meets.tryCatch (h.mono fun r s' hr => ?_)
  cases r with
  | ok a => exact fun _ hs => hD hs ▸ hr
  | error e => exact hr

/-- An action that can fail, and what follows it. -/
theorem Discipline.Still.attempt {faulty : σ → Prop} {e : ε} {rel : σ → α → σ → Prop}
    {f : α → Txn σ ε β} (hinv : D.inv s) (hclosed : D.faulty s → D.Closed s)
    (hraise : faulty s → post (.error e) s)
    (hnext : ∀ a s', rel s a s' → D.step s s' ∧ (faulty s' → post (.error e) s') ∧
      Section.Meets D post (f a) s') :
    Section.Meets D post (Txn.attempt faulty e rel >>= f : Txn σ ε β) s := by
  refine Txn.Meets.attempt fun s₁ hs => ?_
  cases hD hs
  refine ⟨hinv, hclosed, fun hf _ h => hD h ▸ hraise hf, fun a s' ha => ?_⟩
  obtain ⟨hstep, hraise', hmeets⟩ := hnext a s' ha
  exact ⟨hstep, fun hf _ h => hD h ▸ hraise' hf, hmeets⟩

omit hD in
/-- A transaction that ends with an action. -/
theorem Txn.Meets.last {x : Txn σ ε β} (h : Section.Meets D post (x >>= Pure.pure : Txn σ ε β) s) :
    Section.Meets D post x s := by
  rwa [bind_pure] at h

end Still

/-! ## 7. Together -/

section Together

variable {D} {sys : System ι σ α} {post : ι → σ → α → σ → Prop} {s₀ : σ}

/-- A process keeps to the discipline from where it is. -/
def Task.Ok (D : Discipline σ) (post : ι → σ → α → σ → Prop) (t : Task ι σ α) (s : σ) :
    Prop :=
  match t.proc with
  | .free prog => prog.Meets D (post t.op t.start) s
  | .inside body next => body.Meets D (fun b s' => D.Closed s' ∧
      (next b).Meets D (post t.op t.start) (D.release s')) s

def Proc.isInside : Proc σ α → Bool
  | .free _ => false
  | .inside _ _ => true

/-- The processes keep to the discipline together. -/
structure Config.Ok (D : Discipline σ) (post : ι → σ → α → σ → Prop)
    (c : Config π ι σ α) : Prop where
  inv : D.inv c.shared
  free : c.lock = none → D.free c.shared
  tasks : ∀ p t, c.tasks p = some t → t.Ok D post c.shared
  /-- the holder of the lock is in a section, and no one else -/
  holder : ∀ p t, c.tasks p = some t → (t.proc.isInside ↔ c.lock = some p)
  held : ∀ p, c.lock = some p → c.tasks p ≠ none

/-- A process outside of sections does not mind any step. -/
theorem Task.Ok.step {t : Task ι σ α} {s s' : σ} (h : t.Ok D post s)
    (hout : t.proc.isInside = false) (hs : D.step s s') : t.Ok D post s' := by
  obtain ⟨prog, start, proc⟩ := t
  cases proc with
  | free x => exact Program.Meets.step h hs
  | inside body next => cases hout

theorem Task.Ok.quiet {t : Task ι σ α} {s s' : σ} (h : t.Ok D post s) (hs : D.quiet s s') :
    t.Ok D post s' := by
  obtain ⟨prog, start, proc⟩ := t
  cases proc with
  | free x => exact Program.Meets.step h (D.quiet_step hs)
  | inside body next => exact Section.Meets.quiet h hs

/-- What one process has to show for its own step. -/
structure Move (D : Discipline σ) (post : ι → σ → α → σ → Prop) (c c' : Config π ι σ α)
    (p : π) : Prop where
  tasks : ∀ q, q ≠ p → c'.tasks q = c.tasks q
  inv : D.inv c'.shared
  free : c'.lock = none → D.free c'.shared
  own : ∀ t, c'.tasks p = some t → t.Ok D post c'.shared ∧
    (t.proc.isInside ↔ c'.lock = some p)
  held : c'.lock = some p → c'.tasks p ≠ none
  others : ∀ q, q ≠ p → (c'.lock = some q ↔ c.lock = some q)
  step : D.step c.shared c'.shared
  quiet : ∀ q, q ≠ p → c.lock = some q → D.quiet c.shared c'.shared

theorem Config.Ok.move {c c' : Config π ι σ α} {p : π} (h : c.Ok D post) (m : Move D post c c' p) :
    c'.Ok D post := by
  refine ⟨m.inv, m.free, fun q t ht => ?_, fun q t ht => ?_, fun q hq => ?_⟩
  · by_cases hqp : q = p
    · subst hqp
      exact (m.own t ht).1
    · rw [m.tasks q hqp] at ht
      cases hin : t.proc.isInside with
      | false => exact (h.tasks q t ht).step hin m.step
      | true => exact (h.tasks q t ht).quiet (m.quiet q hqp ((h.holder q t ht).mp hin))
  · by_cases hqp : q = p
    · subst hqp
      exact (m.own t ht).2
    · rw [m.tasks q hqp] at ht
      exact (h.holder q t ht).trans (m.others q hqp).symm
  · by_cases hqp : q = p
    · subst hqp
      exact m.held hq
    · rw [m.tasks q hqp]
      exact h.held q ((m.others q hqp).mp hq)

theorem Config.update_other {c : Config π ι σ α} {p q : π} {t : Option (Task ι σ α)} (h : q ≠ p) :
    (c.update p t).tasks q = c.tasks q := if_neg h

theorem Config.update_own {c : Config π ι σ α} {p : π} {t : Option (Task ι σ α)} :
    (c.update p t).tasks p = t := if_pos rfl

/-- The system runs under a discipline. -/
structure System.Keeps (sys : System ι σ α) (D : Discipline σ)
    (post : ι → σ → α → σ → Prop) : Prop where
  faulty : sys.faulty = D.faulty
  release : sys.release = D.release
  code : ∀ i s, D.inv s → (sys.code i).Meets D (post i s) s

/-- **One step of one process keeps the discipline of all.** -/
theorem Config.Ok.step (hsys : sys.Keeps D post) {c c' : Config π ι σ α}
    (h : c.Ok D post) (hstep : Step sys c c') : c'.Ok D post := by
  cases hstep with
  | @start p i hnone =>
    have hlock : c.lock ≠ some p := fun e => h.held p e hnone
    refine h.move (p := p) ⟨fun q hq => Config.update_other hq, h.inv, h.free, fun t ht => ?_,
      fun e => absurd e hlock, fun q _ => Iff.rfl, D.step_refl _, fun q _ _ => D.quiet_refl _⟩
    cases Config.update_own.symm.trans ht
    exact ⟨hsys.code i c.shared h.inv, nofun, fun e => absurd e hlock⟩
  | @act p i s₀ s' β rel next b ht hr =>
    have hok : Program.Meets D (post i s₀) (.act rel next) c.shared := h.tasks p _ ht
    obtain ⟨hq, hn⟩ := hok c.shared (D.step_refl _) h.inv b s' hr
    have hlock : c.lock ≠ some p := fun e => nomatch (h.holder p _ ht).mpr e
    refine h.move (p := p) ⟨fun q hq => Config.update_other hq, D.quiet_inv h.inv hq,
      fun hl => D.quiet_free h.inv (h.free hl) hq, fun t ht => ?_, fun e => absurd e hlock,
      fun q _ => Iff.rfl, D.quiet_step hq, fun q _ _ => hq⟩
    cases Config.update_own.symm.trans ht
    exact ⟨hn, nofun, fun e => absurd e hlock⟩
  | @enter p i s₀ β body next ht hl =>
    have hok : Program.Meets D (post i s₀) (.locked body next) c.shared := h.tasks p _ ht
    refine h.move (p := p) ⟨fun q hq => Config.update_other hq, h.inv, nofun, fun t ht => ?_,
      fun _ => ?_, fun q hq => ?_, D.step_refl _, fun q _ _ => D.quiet_refl _⟩
    · cases Config.update_own.symm.trans ht
      exact ⟨hok c.shared (D.step_refl _) h.inv (h.free hl), fun _ => rfl, fun _ => rfl⟩
    · exact fun e => nomatch (Config.update_own.symm.trans e)
    · exact ⟨fun e => absurd (Option.some.inj e).symm hq, fun e => (nomatch hl.symm.trans e)⟩
  | @actInside p i s₀ s' β γ rel body next b ht hr =>
    have hok : Section.Meets D (fun b s' => D.Closed s' ∧
      (next b).Meets D (post i s₀) (D.release s')) (.act rel body) c.shared := h.tasks p _ ht
    obtain ⟨-, -, hnext⟩ := hok c.shared (D.quiet_refl _)
    obtain ⟨hs, hn⟩ := hnext b s' hr
    have hlock : c.lock = some p := (h.holder p _ ht).mp rfl
    refine h.move (p := p) ⟨fun q hq => Config.update_other hq, hn.inv fun _ _ hb => hb.1.1,
      fun e => (nomatch hlock.symm.trans e), fun t ht => ?_, fun _ => ?_, fun q _ => Iff.rfl, hs,
      fun q hq e => absurd (Option.some.inj (e.symm.trans hlock)) hq⟩
    · cases Config.update_own.symm.trans ht
      exact ⟨hn, fun _ => hlock, fun _ => rfl⟩
    · exact fun e => nomatch (Config.update_own.symm.trans e)
  | @leave p i s₀ γ g next ht =>
    have hok : Section.Meets D (fun b s' => D.Closed s' ∧
      (next b).Meets D (post i s₀) (D.release s')) (.ret g) c.shared := h.tasks p _ ht
    obtain ⟨⟨-, hinv, hfree⟩, hn⟩ := hok c.shared (D.quiet_refl _)
    have hlock : c.lock = some p := (h.holder p _ ht).mp rfl
    rw [hsys.release]
    refine h.move (p := p) ⟨fun q hq => Config.update_other hq, hinv, fun _ => hfree,
      fun t ht => ?_, nofun, fun q hq => ⟨nofun, fun e => ?_⟩, D.release_step _,
      fun q hq e => ?_⟩
    · cases Config.update_own.symm.trans ht
      exact ⟨hn, nofun, nofun⟩
    · exact absurd (Option.some.inj (e.symm.trans hlock)) hq
    · exact absurd (Option.some.inj (e.symm.trans hlock)) hq
  | @kill p t ht hl =>
    exact h.move (p := p) ⟨fun q hq => Config.update_other hq, h.inv, h.free,
      fun t ht => (nomatch (Config.update_own.symm.trans ht)), fun e => absurd e hl,
      fun q _ => Iff.rfl, D.step_refl _, fun q _ _ => D.quiet_refl _⟩
  | @killInside p t ht hl hf =>
    rw [hsys.faulty] at hf
    obtain ⟨-, hinv, hfree⟩ : D.Closed c.shared := by
      have hok := h.tasks p t ht
      have hin := (h.holder p t ht).mpr hl
      obtain ⟨i, start, proc⟩ := t
      cases proc with
      | free x => cases hin
      | inside body next =>
        exact Section.Meets.closed (fun _ _ hb => hb.1)
          (show Section.Meets D _ body _ from hok) hf
    rw [hsys.release]
    refine h.move (p := p) ⟨fun q hq => Config.update_other hq, hinv, fun _ => hfree,
      fun t ht => (nomatch (Config.update_own.symm.trans ht)), nofun,
      fun q hq => ⟨nofun, fun e => ?_⟩, D.release_step _, fun q hq e => ?_⟩
    · exact absurd (Option.some.inj (e.symm.trans hl)) hq
    · exact absurd (Option.some.inj (e.symm.trans hl)) hq
  | @exit p i s₀ a ht =>
    have hlock : c.lock ≠ some p := fun e => nomatch (h.holder p _ ht).mpr e
    exact h.move (p := p) ⟨fun q hq => Config.update_other hq, h.inv, h.free,
      fun t ht => (nomatch (Config.update_own.symm.trans ht)), fun e => absurd e hlock,
      fun q _ => Iff.rfl, D.step_refl _, fun q _ _ => D.quiet_refl _⟩

/-- One step of one process is a step of the discipline. -/
theorem Config.Ok.onward (hsys : sys.Keeps D post) {c c' : Config π ι σ α}
    (h : c.Ok D post) (hstep : Step sys c c') : D.step c.shared c'.shared := by
  cases hstep with
  | start i hnone => exact D.step_refl _
  | @act p i s₀ s' β rel next b ht hr =>
    have hok : Program.Meets D (post i s₀) (.act rel next) c.shared := h.tasks p _ ht
    exact D.quiet_step (hok c.shared (D.step_refl _) h.inv b s' hr).1
  | enter ht hl => exact D.step_refl _
  | @actInside p i s₀ s' β γ rel body next b ht hr =>
    have hok : Section.Meets D (fun b s' => D.Closed s' ∧
      (next b).Meets D (post i s₀) (D.release s')) (.act rel body) c.shared := h.tasks p _ ht
    exact ((hok c.shared (D.quiet_refl _)).2.2 b s' hr).1
  | leave ht => exact hsys.release ▸ D.release_step _
  | kill ht hl => exact D.step_refl _
  | killInside ht hl hf => exact hsys.release ▸ D.release_step _
  | exit ht => exact D.step_refl _

/-- **Programs that keep to a discipline one by one keep to it together**, in
every run. -/
theorem Reachable.ok (hsys : sys.Keeps D post) (hinv : D.inv s₀) (hfree : D.free s₀)
    {c : Config π ι σ α} (h : Reachable sys s₀ c) : c.Ok D post := by
  induction h with
  | init => exact ⟨hinv, fun _ => hfree, nofun, nofun, nofun⟩
  | step _ hs ih => exact ih.step hsys hs

omit [DecidableEq π] in
/-- What an operation that comes to its end has reached. -/
theorem Config.Ok.result {c : Config π ι σ α} (h : c.Ok D post) {p : π} {i : ι}
    {start : σ} {a : α} (ht : c.tasks p = some ⟨i, start, .free (.ret a)⟩) :
    post i start a c.shared :=
  h.tasks p _ ht c.shared (D.step_refl _) h.inv

end Together

/-! ## 8. Runs -/

section Runs

variable {sys : System ι σ α} {s₀ : σ}

/-- A section, run alone, ends with a result in a state. -/
inductive Section.Runs {α : Type} : Section σ α → σ → α → σ → Prop
  | ret {a : α} {s : σ} : Runs (.ret a) s a s
  | act {β : Type} {rel : σ → β → σ → Prop} {next : β → Section σ α} {s s' s'' : σ} {b : β}
      {a : α} : rel s b s' → Runs (next b) s' a s'' → Runs (.act rel next) s a s''

theorem Section.Runs.bind {x : Section σ α} {f : α → Section σ β} {s s' s'' : σ} {a : α} {b : β}
    (h : x.Runs s a s') (h' : (f a).Runs s' b s'') : (x >>= f).Runs s b s'' := by
  induction h with
  | ret => exact h'
  | act hrel _ ih => exact .act hrel (ih h')

/-- A transaction goes on after an action that did not fail. -/
theorem Txn.Runs.attempt {ε : Type} {faulty : σ → Prop} {e : ε} {rel : σ → α → σ → Prop}
    {f : α → Txn σ ε β} {s s' s'' : σ} {a : α} {r : Except ε β} (hrel : rel s a s')
    (h : Section.Runs (f a) s' r s'') :
    Section.Runs (Txn.attempt faulty e rel >>= f : Txn σ ε β) s r s'' := by
  refine Section.Runs.act (b := .ok a) (.inl ⟨a, rfl, hrel⟩) ?_
  exact h

/-- One transaction after another, neither of which raises. -/
theorem Txn.Runs.bind {ε : Type} {x : Txn σ ε α} {f : α → Txn σ ε β} {s s' s'' : σ} {a : α}
    {r : Except ε β} (h : Section.Runs x s (.ok a) s') (h' : Section.Runs (f a) s' r s'') :
    Section.Runs (x >>= f : Txn σ ε β) s r s'' :=
  Section.Runs.bind (f := ExceptT.bindCont f) h h'

/-- What a section that meets a discipline ends with when it runs alone. -/
theorem Section.Meets.runs {D : Discipline σ} {post : α → σ → Prop} {x : Section σ α} {s s' : σ}
    {a : α} (h : x.Runs s a s') : x.Meets D post s → post a s' := by
  induction h with
  | ret => exact fun hx => hx _ (D.quiet_refl _)
  | act hrel _ ih => exact fun hx => ih ((hx _ (D.quiet_refl _)).2.2 _ _ hrel).2

/-- A program, run alone for some actions, gets to another program in
another state. -/
inductive Program.Goes {α : Type} : Program σ α → σ → Program σ α → σ → Prop
  | refl {x : Program σ α} {s : σ} : Goes x s x s
  | act {β : Type} {rel : σ → β → σ → Prop} {next : β → Program σ α} {y : Program σ α}
      {s s' s'' : σ} {b : β} : rel s b s' → Goes (next b) s' y s'' → Goes (.act rel next) s y s''

theorem Program.Goes.bind {x y : Program σ α} {f : α → Program σ β} {s s' : σ}
    (h : x.Goes s y s') : (x >>= f).Goes s (y >>= f) s' := by
  induction h with
  | refl => exact .refl
  | act hrel _ ih => exact .act hrel ih

theorem Program.Goes.trans {x y z : Program σ α} {s s' s'' : σ} (h : x.Goes s y s')
    (h' : y.Goes s' z s'') : x.Goes s z s'' := by
  induction h with
  | refl => exact h'
  | act hrel _ ih => exact .act hrel (ih h')

theorem Job.Goes.read {ε : Type} {g : σ → α} {f : α → Job σ ε β} {s s' : σ}
    {y : Program σ (Except ε β)} (h : Program.Goes (f (g s)) s y s') :
    Program.Goes (Job.read g >>= f : Job σ ε β) s y s' := by
  refine Program.Goes.act (b := .ok (g s)) ⟨rfl, rfl⟩ ?_
  exact h

/-- One process has gone on, to a state in which the lock is free. -/
structure Advanced (sys : System ι σ α) (s₀ : σ) (c : Config π ι σ α) (p : π)
    (t : Task ι σ α) (s : σ) (c' : Config π ι σ α) : Prop where
  reachable : Reachable sys s₀ c'
  shared : c'.shared = s
  lock : c'.lock = none
  own : c'.tasks p = some t
  others : ∀ q, q ≠ p → c'.tasks q = c.tasks q

/-- A process goes on outside of sections. -/
theorem Reachable.goes {p : π} {i : ι} {start : σ} {x y : Program σ α} {s s' : σ}
    (hx : x.Goes s y s') : ∀ {c : Config π ι σ α}, Reachable sys s₀ c → c.lock = none →
      c.tasks p = some ⟨i, start, .free x⟩ → c.shared = s →
      ∃ c', Advanced sys s₀ c p ⟨i, start, .free y⟩ s' c' := by
  induction hx with
  | refl =>
    rintro c hc hl ht rfl
    exact ⟨c, hc, rfl, hl, ht, fun _ _ => rfl⟩
  | act hrel _ ih =>
    rintro c hc hl ht rfl
    obtain ⟨c', hc'⟩ := ih (hc.step (.act ht hrel)) hl Config.update_own rfl
    exact ⟨c', hc'.reachable, hc'.shared, hc'.lock, hc'.own,
      fun q hq => (hc'.others q hq).trans (Config.update_other hq)⟩

/-- The holder of the lock runs its section to the end. -/
theorem Reachable.inside {p : π} {i : ι} {start : σ} {next : β → Program σ α}
    {body : Section σ β} {s s' : σ} {b : β} (hr : body.Runs s b s') :
    ∀ {c : Config π ι σ α}, Reachable sys s₀ c →
      c.tasks p = some ⟨i, start, .inside body next⟩ → c.shared = s →
      ∃ c', Advanced sys s₀ c p ⟨i, start, .free (next b)⟩ (sys.release s') c' := by
  induction hr with
  | ret =>
    rintro c hc ht rfl
    exact ⟨_, hc.step (.leave ht), rfl, rfl, Config.update_own, fun q hq => Config.update_other hq⟩
  | act hrel _ ih =>
    rintro c hc ht rfl
    obtain ⟨c', hc'⟩ := ih (hc.step (.actInside ht hrel)) Config.update_own rfl
    exact ⟨c', hc'.reachable, hc'.shared, hc'.lock, hc'.own,
      fun q hq => (hc'.others q hq).trans (Config.update_other hq)⟩

/-- A process that finds the lock free runs its section. -/
theorem Reachable.section {c : Config π ι σ α} (hc : Reachable sys s₀ c) {p : π} {i : ι}
    {start : σ} {next : β → Program σ α} {body : Section σ β} {s' : σ} {b : β}
    (ht : c.tasks p = some ⟨i, start, .free (.locked body next)⟩) (hl : c.lock = none)
    (hr : body.Runs c.shared b s') :
    ∃ c', Advanced sys s₀ c p ⟨i, start, .free (next b)⟩ (sys.release s') c' := by
  obtain ⟨c', hc'⟩ := Reachable.inside hr (hc.step (.enter ht hl)) Config.update_own rfl
  exact ⟨c', hc'.reachable, hc'.shared, hc'.lock, hc'.own,
    fun q hq => (hc'.others q hq).trans (Config.update_other hq)⟩

end Runs

end MultiForge.Locked
