/-
MultiForge.Lib.Fragments — calls delivered in fragments, between texts.

A stream carries texts and fragments. The fragments of one call share a
key; a fragment that `opens` may start the call. A reader that works in
one pass keeps at most one group of calls open: a text ends the group,
a fragment of an open call is added to it, and a fragment of a call that
is not open is dropped unless it opens the call.

`run` is that reader. Its result is compared with what the stream says
about one key: the payloads before the first opening fragment, those in
the `window` from there to the next text, and those after. `parts_run`
is the answer for every stream; `parts_run_iff` says when nothing is lost
and nothing is doubled.
-/
import Mathlib.Data.List.Basic
import Mathlib.Data.List.Perm.Basic
import Mathlib.Data.List.Nodup
import Mathlib.Data.List.TakeWhile
import Mathlib.Data.List.Induction

namespace MultiForge.Fragments

variable {τ κ β : Type}

/-! ## 1. Streams and blocks -/

/-- An element of a stream. -/
inductive Item (τ κ β : Type) where
  | text (t : τ)
  | frag (key : κ) (opens : Bool) (payload : β)
  deriving DecidableEq, Repr

/-- What the reader delivers. -/
inductive Block (τ κ β : Type) where
  | text (ts : List τ)
  | call (key : κ) (parts : List β)
  deriving DecidableEq, Repr

/-- The group that is still open. -/
inductive Group (τ κ β : Type) where
  | text (ts : List τ)
  | calls (cs : List (κ × List β))
  deriving DecidableEq, Repr

def Group.blocks : Group τ κ β → List (Block τ κ β)
  | .text ts => [.text ts]
  | .calls cs => cs.map fun c => .call c.1 c.2

structure State (τ κ β : Type) where
  done : List (Block τ κ β) := []
  cur : Group τ κ β := .calls []
  deriving DecidableEq, Repr

def State.blocks (s : State τ κ β) : List (Block τ κ β) := s.done ++ s.cur.blocks

/-! ## 2. The reader -/

section Reader

variable [DecidableEq κ]

/-- Add a part to an open call, or open it. -/
def addPart (k : κ) (opens : Bool) (p : β) : List (κ × List β) → List (κ × List β)
  | [] => if opens then [(k, [p])] else []
  | (k', ps) :: cs => if k' = k then (k', ps ++ [p]) :: cs else (k', ps) :: addPart k opens p cs

/-- Open a call with no parts yet. -/
def openPart (k : κ) (opens : Bool) : List (κ × List β) → List (κ × List β)
  | [] => if opens then [(k, [])] else []
  | (k', ps) :: cs => if k' = k then (k', ps) :: cs else (k', ps) :: openPart k opens cs

/-- Add a part to an open call. -/
def appendPart (k : κ) (p : β) : List (κ × List β) → List (κ × List β)
  | [] => []
  | (k', ps) :: cs => if k' = k then (k', ps ++ [p]) :: cs else (k', ps) :: appendPart k p cs

/-- Opening and adding can be done one after the other. -/
theorem addPart_eq (k : κ) (opens : Bool) (p : β) : ∀ cs : List (κ × List β),
    addPart k opens p cs = appendPart k p (openPart k opens cs)
  | [] => by cases opens <;> simp [addPart, openPart, appendPart]
  | (k', ps) :: cs => by
      by_cases hk : k' = k
      · simp [addPart, openPart, appendPart, hk]
      · simp [addPart, openPart, appendPart, hk, addPart_eq k opens p cs]

theorem openPart_of_mem {k : κ} (opens : Bool) : ∀ {cs : List (κ × List β)},
    k ∈ cs.map Prod.fst → openPart k opens cs = cs
  | [], h => by simp at h
  | (k', ps) :: cs, h => by
      by_cases hk : k' = k
      · simp [openPart, hk]
      · rcases List.mem_cons.mp h with h | h
        · exact absurd h.symm hk
        · rw [openPart, if_neg hk, openPart_of_mem opens h]

theorem openPart_of_not_mem {k : κ} (opens : Bool) : ∀ {cs : List (κ × List β)},
    k ∉ cs.map Prod.fst → openPart k opens cs = if opens then cs ++ [(k, [])] else cs
  | [], _ => rfl
  | (k', ps) :: cs, h => by
      simp only [List.map_cons, List.mem_cons, not_or] at h
      rw [openPart, if_neg (fun e => h.1 e.symm), openPart_of_not_mem opens h.2]
      cases opens <;> rfl

theorem appendPart_of_not_mem {k : κ} (p : β) : ∀ {cs : List (κ × List β)},
    k ∉ cs.map Prod.fst → appendPart k p cs = cs
  | [], _ => rfl
  | (k', ps) :: cs, h => by
      simp only [List.map_cons, List.mem_cons, not_or] at h
      rw [appendPart, if_neg (fun e => h.1 e.symm), appendPart_of_not_mem p h.2]

theorem appendPart_split {k : κ} (p : β) (ps : List β) (post : List (κ × List β)) :
    ∀ {pre : List (κ × List β)}, k ∉ pre.map Prod.fst →
      appendPart k p (pre ++ (k, ps) :: post) = pre ++ (k, ps ++ [p]) :: post
  | [], _ => by simp [appendPart]
  | (k', qs) :: pre, h => by
      simp only [List.map_cons, List.mem_cons, not_or] at h
      rw [List.cons_append, appendPart, if_neg (fun e => h.1 e.symm), appendPart_split p ps post h.2]
      rfl

def step (s : State τ κ β) : Item τ κ β → State τ κ β
  | .text t =>
      match s.cur with
      | .text ts => { s with cur := .text (ts ++ [t]) }
      | .calls cs => { done := s.done ++ (Group.calls cs).blocks, cur := .text [t] }
  | .frag k opens p =>
      match s.cur with
      | .text ts => { done := s.done ++ [.text ts], cur := .calls (addPart k opens p []) }
      | .calls cs => { s with cur := .calls (addPart k opens p cs) }

def run (s : State τ κ β) (items : List (Item τ κ β)) : State τ κ β := items.foldl step s

@[simp] theorem run_nil (s : State τ κ β) : run s [] = s := rfl

@[simp] theorem run_cons (s : State τ κ β) (i : Item τ κ β) (items : List (Item τ κ β)) :
    run s (i :: items) = run (step s i) items := rfl

theorem run_append (s : State τ κ β) (as bs : List (Item τ κ β)) :
    run s (as ++ bs) = run (run s as) bs :=
  List.foldl_append

end Reader

/-! ## 3. The texts -/

def Item.text? : Item τ κ β → Option τ
  | .text t => some t
  | .frag _ _ _ => none

def Block.texts : Block τ κ β → List τ
  | .text ts => ts
  | .call _ _ => []

theorem texts_calls (cs : List (κ × List β)) :
    ((Group.calls cs : Group τ κ β).blocks.flatMap Block.texts) = [] := by
  simp [Group.blocks, List.flatMap_map, Block.texts]

variable [DecidableEq κ]

/-- **No text is lost or moved**, whatever happens to the calls. -/
theorem texts_run (items : List (Item τ κ β)) (s : State τ κ β) :
    (run s items).blocks.flatMap Block.texts
      = s.blocks.flatMap Block.texts ++ items.filterMap Item.text? := by
  induction items generalizing s with
  | nil => simp
  | cons i items ih =>
    rw [run_cons, ih]
    have hstep : (step s i).blocks.flatMap Block.texts
        = s.blocks.flatMap Block.texts ++ i.text?.toList := by
      obtain ⟨done, cur⟩ := s
      cases i with
      | text t =>
        cases cur with
        | text ts => simp [step, State.blocks, Group.blocks, Block.texts, Item.text?]
        | calls cs =>
          simp [step, State.blocks, Item.text?, texts_calls]
          simp [Group.blocks, Block.texts]
      | frag k opens p =>
        cases cur with
        | text ts =>
          simp [step, State.blocks, Item.text?, texts_calls]
          simp [Group.blocks]
        | calls cs => simp [step, State.blocks, Item.text?, texts_calls]
    rw [hstep]
    cases h : i.text? <;> simp [h]

/-! ## 4. One call -/

/-- The part lists of the blocks delivered for a key. -/
def parts (k : κ) (blocks : List (Block τ κ β)) : List (List β) :=
  blocks.filterMap fun
    | .text _ => none
    | .call k' ps => if k' = k then some ps else none

/-- What is left of the reader when one key is looked at: what it has
delivered, and the parts of the open call if it is open. -/
structure KeyState (β : Type) where
  delivered : List (List β) := []
  opened : Option (List β) := none
  deriving DecidableEq, Repr

def keyStep (k : κ) (s : KeyState β) : Item τ κ β → KeyState β
  | .text _ => { delivered := s.delivered ++ s.opened.toList, opened := none }
  | .frag k' opens p =>
      if k' = k then
        match s.opened with
        | some ps => { s with opened := some (ps ++ [p]) }
        | none => if opens then { s with opened := some [p] } else s
      else s

def keyRun (k : κ) (s : KeyState β) (items : List (Item τ κ β)) : KeyState β :=
  items.foldl (keyStep k) s

def KeyState.parts (s : KeyState β) : List (List β) := s.delivered ++ s.opened.toList

/-- The parts of an open call. -/
def openParts (k : κ) : List (κ × List β) → Option (List β)
  | [] => none
  | (k', ps) :: cs => if k' = k then some ps else openParts k cs

/-- The state of a key inside the state of the reader. -/
def State.key (k : κ) (s : State τ κ β) : KeyState β where
  delivered := parts k s.done
  opened := match s.cur with
    | .text _ => none
    | .calls cs => openParts k cs

/-- Open calls have distinct keys. -/
def State.Distinct (s : State τ κ β) : Prop :=
  match s.cur with
  | .text _ => True
  | .calls cs => (cs.map Prod.fst).Nodup

theorem addPart_keys (k : κ) (opens : Bool) (p : β) (cs : List (κ × List β)) :
    ((addPart k opens p cs).map Prod.fst) =
      if k ∈ cs.map Prod.fst ∨ opens = false then cs.map Prod.fst else cs.map Prod.fst ++ [k] := by
  induction cs with
  | nil => cases opens <;> simp [addPart]
  | cons c cs ih =>
    obtain ⟨k', ps⟩ := c
    by_cases hk : k' = k
    · simp [addPart, hk]
    · have hk' : ¬ k = k' := fun h => hk h.symm
      simp only [addPart, hk, if_false, List.map_cons, ih, List.mem_cons, hk', false_or]
      split <;> simp

theorem addPart_nodup {k : κ} {opens : Bool} {p : β} {cs : List (κ × List β)}
    (h : (cs.map Prod.fst).Nodup) : ((addPart k opens p cs).map Prod.fst).Nodup := by
  rw [addPart_keys]
  split
  · exact h
  · rename_i hk
    rw [not_or] at hk
    simpa [List.nodup_append] using ⟨h, fun a b hab e => hk.1 (e ▸ List.mem_map.mpr ⟨_, hab, rfl⟩)⟩

theorem step_distinct {s : State τ κ β} (h : s.Distinct) (i : Item τ κ β) :
    (step s i).Distinct := by
  obtain ⟨done, cur⟩ := s
  cases i with
  | text t => cases cur <;> trivial
  | frag k opens p =>
    cases cur with
    | text ts => exact addPart_nodup (by simp)
    | calls cs => exact addPart_nodup h

theorem openParts_addPart_self (k : κ) (opens : Bool) (p : β) : ∀ cs : List (κ × List β),
    openParts k (addPart k opens p cs) = match openParts k cs with
      | some ps => some (ps ++ [p])
      | none => if opens then some [p] else none
  | [] => by cases opens <;> simp [addPart, openParts]
  | (k', ps) :: cs => by
      by_cases hk : k' = k
      · simp [addPart, openParts, hk]
      · simp [addPart, openParts, hk, openParts_addPart_self k opens p cs]

theorem openParts_addPart_other {k k' : κ} (h : k' ≠ k) (opens : Bool) (p : β) :
    ∀ cs : List (κ × List β), openParts k (addPart k' opens p cs) = openParts k cs
  | [] => by cases opens <;> simp [addPart, openParts, h]
  | (k'', ps) :: cs => by
      by_cases hk : k'' = k'
      · subst hk
        simp [addPart, openParts, h]
      · simp only [addPart, hk, if_false, openParts, openParts_addPart_other h opens p cs]

theorem parts_append (k : κ) (as bs : List (Block τ κ β)) :
    parts k (as ++ bs) = parts k as ++ parts k bs := by
  simp [parts]

/-- A key that is open is delivered once when the group ends. -/
theorem parts_calls (k : κ) : ∀ {cs : List (κ × List β)}, (cs.map Prod.fst).Nodup →
    parts k (Group.calls cs : Group τ κ β).blocks = (openParts k cs).toList
  | [], _ => rfl
  | (k', ps) :: cs, h => by
      have h' := List.nodup_cons.mp h
      have ih := parts_calls k h'.2
      simp only [Group.blocks, parts, List.map_cons, List.filterMap_cons, openParts] at ih ⊢
      by_cases hk : k' = k
      · have hnone : openParts k cs = none := by
          have hnot : k ∉ cs.map Prod.fst := hk ▸ h'.1
          clear ih h h'
          induction cs with
          | nil => rfl
          | cons c cs ihc =>
            obtain ⟨k'', qs⟩ := c
            simp only [List.map_cons, List.mem_cons, not_or] at hnot
            rw [openParts, if_neg (fun e => hnot.1 e.symm), ihc hnot.2]
        rw [hnone] at ih
        simp only [hk, if_true, ih]
        rfl
      · simp only [hk, if_false, ih]

/-- One step of the reader is one step for every key. -/
theorem step_key {s : State τ κ β} (h : s.Distinct) (k : κ) (i : Item τ κ β) :
    (step s i).key k = keyStep k (s.key k) i := by
  obtain ⟨done, cur⟩ := s
  cases i with
  | text t =>
    cases cur with
    | text ts => simp [step, State.key, keyStep]
    | calls cs => simp [step, State.key, keyStep, parts_append, parts_calls k h]
  | frag k' opens p =>
    have htext : ∀ ts : List τ, parts k [(Block.text ts : Block τ κ β)] = [] := fun _ => rfl
    by_cases hk : k' = k
    · subst hk
      cases cur with
      | text ts =>
        simp only [step, State.key, keyStep, if_true, parts_append, htext, List.append_nil,
          openParts_addPart_self, openParts]
        cases opens <;> rfl
      | calls cs =>
        simp only [step, State.key, keyStep, if_true, openParts_addPart_self]
        cases openParts k' cs with
        | none => cases opens <;> rfl
        | some ps => rfl
    · cases cur with
      | text ts =>
        simp only [step, State.key, keyStep, hk, if_false, parts_append, htext, List.append_nil,
          openParts_addPart_other hk, openParts]
      | calls cs =>
        simp only [step, State.key, keyStep, hk, if_false, openParts_addPart_other hk]

theorem run_key {s : State τ κ β} (h : s.Distinct) (k : κ) (items : List (Item τ κ β)) :
    (run s items).Distinct ∧ (run s items).key k = keyRun k (s.key k) items := by
  induction items generalizing s with
  | nil => exact ⟨h, rfl⟩
  | cons i items ih =>
    have hi := ih (step_distinct h i)
    rw [step_key h k i] at hi
    exact hi

theorem parts_blocks {s : State τ κ β} (h : s.Distinct) (k : κ) :
    parts k s.blocks = (s.key k).parts := by
  obtain ⟨done, cur⟩ := s
  cases cur with
  | text ts => simp [State.blocks, State.key, KeyState.parts, parts, Group.blocks]
  | calls cs => simp [State.blocks, State.key, KeyState.parts, parts_append, parts_calls k h]

/-- What the reader delivers for a key is what the key's own run delivers. -/
theorem parts_run (k : κ) (items : List (Item τ κ β)) :
    parts k (run {} items).blocks = (keyRun k {} items).parts := by
  obtain ⟨hd, hk⟩ := run_key (s := ({} : State τ κ β)) (by simp [State.Distinct]) k items
  rw [parts_blocks hd, hk]
  rfl

/-! ## 5. When a call is delivered whole -/

def Item.isText : Item τ κ β → Bool
  | .text _ => true
  | .frag _ _ _ => false

/-- A fragment of the key that may start the call. -/
def Item.opens (k : κ) : Item τ κ β → Bool
  | .text _ => false
  | .frag k' opens _ => k' = k && opens

/-- The payloads a stream carries for a key. -/
def payloads (k : κ) (items : List (Item τ κ β)) : List β :=
  items.filterMap fun
    | .text _ => none
    | .frag k' _ p => if k' = k then some p else none

/-- The stream up to the first fragment that opens the call. -/
def before (k : κ) (items : List (Item τ κ β)) : List (Item τ κ β) :=
  items.takeWhile fun i => !i.opens k

/-- The stream from that fragment to the next text. -/
def window (k : κ) (items : List (Item τ κ β)) : List (Item τ κ β) :=
  (items.dropWhile fun i => !i.opens k).takeWhile fun i => !i.isText

/-- The stream from that text on. -/
def after (k : κ) (items : List (Item τ κ β)) : List (Item τ κ β) :=
  (items.dropWhile fun i => !i.opens k).dropWhile fun i => !i.isText

theorem before_window_after (k : κ) (items : List (Item τ κ β)) :
    before k items ++ (window k items ++ after k items) = items := by
  rw [window, after, List.takeWhile_append_dropWhile, before, List.takeWhile_append_dropWhile]

theorem payloads_append (k : κ) (as bs : List (Item τ κ β)) :
    payloads k (as ++ bs) = payloads k as ++ payloads k bs := by
  simp [payloads]

/-- A call is opened exactly once: some fragment opens it, and none does
after the group it was opened in. -/
def OpensOnce (k : κ) (items : List (Item τ κ β)) : Prop :=
  (∃ i ∈ items, i.opens k = true) ∧ ∀ i ∈ after k items, i.opens k = false

theorem Item.eq_of_opens {k : κ} {i : Item τ κ β} (h : i.opens k = true) :
    ∃ p, i = .frag k true p := by
  cases i with
  | text t => cases h
  | frag k' opens p =>
    simp only [Item.opens, Bool.and_eq_true, decide_eq_true_eq] at h
    obtain ⟨rfl, rfl⟩ := h
    exact ⟨p, rfl⟩

@[simp] theorem keyRun_cons (k : κ) (s : KeyState β) (i : Item τ κ β)
    (items : List (Item τ κ β)) : keyRun k s (i :: items) = keyRun k (keyStep k s i) items := rfl

theorem keyRun_append (k : κ) (s : KeyState β) (as bs : List (Item τ κ β)) :
    keyRun k s (as ++ bs) = keyRun k (keyRun k s as) bs :=
  List.foldl_append

/-- A closed call stays closed until a fragment opens it. -/
theorem keyStep_closed {k : κ} {i : Item τ κ β} (h : i.opens k = false)
    {delivered : List (List β)} : keyStep k ⟨delivered, none⟩ i = ⟨delivered, none⟩ := by
  cases i with
  | text t => simp [keyStep]
  | frag k' opens p =>
    by_cases hk : k' = k
    · have hopens : opens = false := by simpa [Item.opens, hk] using h
      simp [keyStep, hopens]
    · simp [keyStep, hk]

theorem keyRun_closed {k : κ} {items : List (Item τ κ β)} (h : ∀ i ∈ items, i.opens k = false)
    (delivered : List (List β)) :
    keyRun k ⟨delivered, none⟩ items = ⟨delivered, none⟩ := by
  induction items with
  | nil => rfl
  | cons i items ih =>
    rw [keyRun_cons, keyStep_closed (h i List.mem_cons_self)]
    exact ih fun i hi => h i (List.mem_cons_of_mem _ hi)

/-- An open call takes every payload up to the next text. -/
theorem keyRun_open {k : κ} {items : List (Item τ κ β)} (h : ∀ i ∈ items, i.isText = false)
    (delivered : List (List β)) (ps : List β) :
    keyRun k ⟨delivered, some ps⟩ items = ⟨delivered, some (ps ++ payloads k items)⟩ := by
  induction items generalizing ps with
  | nil => simp [keyRun, payloads]
  | cons i items ih =>
    have hrest : ∀ i ∈ items, i.isText = false := fun i hi => h i (List.mem_cons_of_mem _ hi)
    cases i with
    | text t => exact absurd (h _ List.mem_cons_self) (by simp [Item.isText])
    | frag k' opens p =>
      rw [keyRun_cons]
      by_cases hk : k' = k
      · simpa [keyStep, hk, payloads] using ih hrest (ps ++ [p])
      · simpa [keyStep, hk, payloads] using ih hrest ps

/-- What is delivered never shrinks. -/
theorem keyRun_delivered (k : κ) (items : List (Item τ κ β)) (s : KeyState β) :
    s.delivered.length ≤ (keyRun k s items).delivered.length := by
  induction items generalizing s with
  | nil => exact Nat.le_refl _
  | cons i items ih =>
    refine Nat.le_trans ?_ (ih (keyStep k s i))
    cases i with
    | text t => simp [keyStep]
    | frag k' opens p =>
      simp only [keyStep]
      split
      · split
        · exact Nat.le_refl _
        · split <;> exact Nat.le_refl _
      · exact Nat.le_refl _

/-- An open call is still open at the end, or delivered by a text. -/
theorem keyRun_open_delivered (k : κ) (items : List (Item τ κ β)) (delivered : List (List β))
    (ps : List β) : delivered.length < (keyRun k ⟨delivered, some ps⟩ items).parts.length := by
  induction items generalizing ps with
  | nil => simp [keyRun, KeyState.parts]
  | cons i items ih =>
    cases i with
    | text t =>
      have hlen := keyRun_delivered k items (⟨delivered ++ [ps], none⟩ : KeyState β)
      simp only [List.length_append, List.length_cons, List.length_nil] at hlen
      have hstep : keyStep k (⟨delivered, some ps⟩ : KeyState β) (Item.text (κ := κ) t)
          = ⟨delivered ++ [ps], none⟩ := by simp [keyStep]
      rw [keyRun_cons, hstep, KeyState.parts, List.length_append]
      exact Nat.lt_of_lt_of_le hlen (Nat.le_add_right _ _)
    | frag k' opens q =>
      rw [keyRun_cons]
      by_cases hk : k' = k
      · simpa [keyStep, hk] using ih (ps ++ [q])
      · simpa [keyStep, hk] using ih ps

/-- A closed call that is opened again is delivered once more. -/
theorem keyRun_reopened {k : κ} {items : List (Item τ κ β)} (h : ∃ i ∈ items, i.opens k = true)
    (delivered : List (List β)) :
    delivered.length < (keyRun k ⟨delivered, none⟩ items).parts.length := by
  induction items with
  | nil => obtain ⟨i, hi, -⟩ := h; cases hi
  | cons i items ih =>
    rw [keyRun_cons]
    cases hi : i.opens k with
    | true =>
      obtain ⟨p, rfl⟩ := Item.eq_of_opens hi
      have hstep : keyStep k (⟨delivered, none⟩ : KeyState β) (Item.frag (τ := τ) k true p)
          = ⟨delivered, some [p]⟩ := by simp [keyStep]
      rw [hstep]
      exact keyRun_open_delivered k items delivered [p]
    | false =>
      obtain ⟨j, hj, hjo⟩ := h
      have hex : ∃ i ∈ items, i.opens k = true := by
        rcases List.mem_cons.mp hj with rfl | hj
        · rw [hi] at hjo; cases hjo
        · exact ⟨j, hj, hjo⟩
      rw [keyStep_closed hi]
      exact ih hex

/-- The run of a key over the three parts of a stream in which the call
is opened: what the window holds is delivered, then the rest runs on. -/
theorem keyRun_split {k : κ} {items : List (Item τ κ β)} (h : ∃ i ∈ items, i.opens k = true) :
    (after k items = [] ∧
      keyRun k {} items = ⟨[], some (payloads k (window k items))⟩) ∨
    (∃ t rest, after k items = .text t :: rest ∧
      keyRun k {} items = keyRun k ⟨[payloads k (window k items)], none⟩ rest) := by
  have hbefore : keyRun k {} (before k items) = {} :=
    keyRun_closed (fun i hi => by simpa using List.mem_takeWhile_imp hi) []
  -- the window starts with the fragment that opens the call
  obtain ⟨d, rest, hd⟩ : ∃ d rest, (items.dropWhile fun i => !i.opens k) = d :: rest := by
    refine List.exists_cons_of_ne_nil fun hnil => ?_
    obtain ⟨i, hi, hio⟩ := h
    have := List.dropWhile_eq_nil_iff.mp hnil i hi
    simp [hio] at this
  have hopen : d.opens k = true := by
    have := List.head?_dropWhile_not (fun i : Item τ κ β => !i.opens k) items
    rw [hd] at this
    simpa using this
  obtain ⟨p, rfl⟩ := Item.eq_of_opens hopen
  have hwin : window k items = .frag k true p :: rest.takeWhile fun i => !i.isText := by
    rw [window, hd]
    simp [Item.isText]
  have hafter : after k items = rest.dropWhile fun i => !i.isText := by
    rw [after, hd]
    simp [Item.isText]
  have hwindow : keyRun k {} (window k items) = ⟨[], some (payloads k (window k items))⟩ := by
    rw [hwin, keyRun_cons]
    have htext : ∀ i ∈ rest.takeWhile fun i => !i.isText, i.isText = false :=
      fun i hi => by simpa using List.mem_takeWhile_imp hi
    have := keyRun_open (k := k) htext [] [p]
    simpa [keyStep, payloads] using this
  have hrun : keyRun k {} items
      = keyRun k ⟨[], some (payloads k (window k items))⟩ (after k items) := by
    conv_lhs => rw [← before_window_after k items]
    rw [keyRun_append, hbefore, keyRun_append, hwindow]
  cases hcases : after k items with
  | nil => exact Or.inl ⟨rfl, by rw [hrun, hcases]; rfl⟩
  | cons i tail =>
    have htext : i.isText = true := by
      have := List.head?_dropWhile_not (fun i : Item τ κ β => !i.isText) rest
      rw [← hafter, hcases] at this
      simpa using this
    cases i with
    | frag k' opens q => cases htext
    | text t =>
      refine Or.inr ⟨t, tail, rfl, ?_⟩
      rw [hrun, hcases, keyRun_cons]
      simp [keyStep]

/-- **A call is delivered exactly once when it is opened exactly once**,
and then with the payloads of its window. -/
theorem parts_run_iff (k : κ) (items : List (Item τ κ β)) (ps : List β) :
    parts k (run {} items).blocks = [ps] ↔
      OpensOnce k items ∧ ps = payloads k (window k items) := by
  rw [parts_run]
  by_cases hex : ∃ i ∈ items, i.opens k = true
  · rcases keyRun_split hex with ⟨hnil, hrun⟩ | ⟨t, rest, hafter, hrun⟩
    · have honce : OpensOnce k items := ⟨hex, by simp [hnil]⟩
      rw [hrun]
      simp [KeyState.parts, honce, eq_comm]
    · rw [hrun]
      have hiff : OpensOnce k items ↔ ∀ i ∈ rest, i.opens k = false := by
        rw [OpensOnce, hafter, and_iff_right hex, List.forall_mem_cons]
        exact and_iff_right rfl
      rw [hiff]
      constructor
      · intro hparts
        have hclosed : ∀ i ∈ rest, i.opens k = false := by
          intro i hi
          cases hio : i.opens k with
          | false => rfl
          | true =>
            have := keyRun_reopened ⟨i, hi, hio⟩ [payloads k (window k items)]
            rw [hparts] at this
            simp at this
        rw [keyRun_closed hclosed] at hparts
        exact ⟨hclosed, by simpa [KeyState.parts, eq_comm] using hparts⟩
      · rintro ⟨hclosed, rfl⟩
        rw [keyRun_closed hclosed]
        rfl
  · have hclosed : ∀ i ∈ items, i.opens k = false := by
      intro i hi
      cases hio : i.opens k with
      | false => rfl
      | true => exact absurd ⟨i, hi, hio⟩ hex
    rw [keyRun_closed hclosed]
    simp [KeyState.parts, OpensOnce, hex]

/-- The calls delivered, in order. -/
def calls (blocks : List (Block τ κ β)) : List (κ × List β) :=
  blocks.filterMap fun
    | .text _ => none
    | .call k ps => some (k, ps)

theorem parts_eq_calls (k : κ) : ∀ blocks : List (Block τ κ β),
    parts k blocks = ((calls blocks).filter fun c => c.1 = k).map Prod.snd
  | [] => rfl
  | .text ts :: blocks => by
      have ih := parts_eq_calls k blocks
      simpa [parts, calls] using ih
  | .call k' ps :: blocks => by
      have ih := parts_eq_calls k blocks
      simp only [parts, calls] at ih
      by_cases hk : k' = k <;> simp [parts, calls, hk, ih]

/-- Only calls that are opened are delivered. -/
theorem exists_opens_of_mem_calls {k : κ} {ps : List β} {items : List (Item τ κ β)}
    (h : (k, ps) ∈ calls (run {} items).blocks) : ∃ i ∈ items, i.opens k = true := by
  by_contra hno
  have hclosed : ∀ i ∈ items, i.opens k = false := by
    intro i hi
    cases hio : i.opens k with
    | false => rfl
    | true => exact absurd ⟨i, hi, hio⟩ hno
  have hparts := parts_run k items
  rw [keyRun_closed hclosed, parts_eq_calls] at hparts
  have hmem : ps ∈ ((calls (run {} items).blocks).filter fun c => c.1 = k).map Prod.snd :=
    List.mem_map.mpr ⟨_, List.mem_filter.mpr ⟨h, by simp⟩, rfl⟩
  rw [hparts] at hmem
  simp [KeyState.parts] at hmem

/-! ## 6. Texts first, calls that open at once -/

def Item.key? : Item τ κ β → Option κ
  | .text _ => none
  | .frag k _ _ => some k

/-- The keys of a stream in the order of their first fragments. -/
def firstKeys (items : List (Item τ κ β)) : List κ :=
  items.foldl (fun ks i => match i.key? with
    | some k => if k ∈ ks then ks else ks ++ [k]
    | none => ks) []

/-- The first fragment of every call opens it. -/
def OpensFirst (items : List (Item τ κ β)) : Prop :=
  ∀ pre k opens p post, items = pre ++ .frag k opens p :: post →
    (∀ i ∈ pre, i.key? ≠ some k) → opens = true

theorem firstKeys_snoc (items : List (Item τ κ β)) (k : κ) (opens : Bool) (p : β) :
    firstKeys (items ++ [.frag k opens p])
      = if k ∈ firstKeys items then firstKeys items else firstKeys items ++ [k] := by
  rw [firstKeys, List.foldl_append]
  rfl

theorem mem_firstKeys (items : List (Item τ κ β)) :
    (∀ i ∈ items, i.isText = false) → (firstKeys items).Nodup ∧
      ∀ k, k ∈ firstKeys items ↔ ∃ i ∈ items, i.key? = some k := by
  induction items using List.reverseRecOn with
  | nil => simp [firstKeys]
  | append_singleton items i ih =>
    intro htext
    obtain ⟨hnd, hmem⟩ := ih fun i hi => htext i (List.mem_append_left _ hi)
    cases i with
    | text t => exact absurd (htext _ (List.mem_append_right _ List.mem_cons_self)) (by simp [Item.isText])
    | frag k' opens p =>
      rw [firstKeys_snoc]
      constructor
      · split
        · exact hnd
        · rename_i hk
          rw [List.nodup_append]
          refine ⟨hnd, by simp, fun a ha b hb e => hk ?_⟩
          rw [List.mem_singleton.mp hb] at e
          exact e ▸ ha
      · intro k
        have hsplit : (∃ i ∈ items ++ [Item.frag (τ := τ) k' opens p], i.key? = some k) ↔
            (∃ i ∈ items, i.key? = some k) ∨ k' = k := by
          simp [or_and_right, exists_or, Item.key?]
        rw [hsplit, ← hmem]
        split
        · rename_i hk
          exact ⟨Or.inl, fun h => h.elim id fun e => e ▸ hk⟩
        · simp [eq_comm]

theorem payloads_eq_nil {k : κ} {items : List (Item τ κ β)} (h : ∀ i ∈ items, i.key? ≠ some k) :
    payloads k items = [] := by
  refine List.filterMap_eq_nil_iff.mpr fun i hi => ?_
  cases i with
  | text t => rfl
  | frag k' opens p =>
    have hne : ¬ k' = k := fun e => h _ hi (by rw [e]; rfl)
    simp [hne]

theorem addPart_map {k : κ} (p : β) {f g : κ → List β} (hk : g k = f k ++ [p])
    (hg : ∀ j, j ≠ k → g j = f j) (opens : Bool) : ∀ {ks : List κ}, ks.Nodup → k ∈ ks →
    addPart k opens p (ks.map fun j => (j, f j)) = ks.map fun j => (j, g j)
  | [], _, h => by simp at h
  | j :: ks, hnd, h => by
      have hnd' := List.nodup_cons.mp hnd
      by_cases hj : j = k
      · subst hj
        have hrest : (ks.map fun i => (i, f i)) = ks.map fun i => (i, g i) :=
          List.map_congr_left fun i hi => by rw [hg i fun e => hnd'.1 (e ▸ hi)]
        simp [addPart, hk, hrest]
      · have hmem : k ∈ ks := (List.mem_cons.mp h).resolve_left fun e => hj e.symm
        simp [addPart, hj, hg j hj, addPart_map p hk hg opens hnd'.2 hmem]

theorem addPart_new {k : κ} (p : β) : ∀ {cs : List (κ × List β)}, k ∉ cs.map Prod.fst →
    addPart k true p cs = cs ++ [(k, [p])]
  | [], _ => rfl
  | (j, ps) :: cs, h => by
      simp only [List.map_cons, List.mem_cons, not_or] at h
      rw [addPart, if_neg (fun e => h.1 e.symm), addPart_new p h.2]
      rfl

/-- Fragments whose calls open at once are delivered whole, in the order
of their first fragments. -/
theorem run_opensFirst (done : List (Block τ κ β)) (items : List (Item τ κ β)) :
    (∀ i ∈ items, i.isText = false) → OpensFirst items →
      run ⟨done, .calls []⟩ items
        = ⟨done, .calls ((firstKeys items).map fun k => (k, payloads k items))⟩ := by
  induction items using List.reverseRecOn with
  | nil => simp [firstKeys]
  | append_singleton items i ih =>
    intro htext hfirst
    have htext' : ∀ i ∈ items, i.isText = false := fun i hi => htext i (List.mem_append_left _ hi)
    have hfirst' : OpensFirst items := by
      intro pre k opens p post he hpre
      exact hfirst pre k opens p (post ++ [i]) (by rw [he]; simp) hpre
    obtain ⟨hnd, hmem⟩ := mem_firstKeys items htext'
    cases i with
    | text t => exact absurd (htext _ (List.mem_append_right _ List.mem_cons_self)) (by simp [Item.isText])
    | frag k opens p =>
      have hpk : payloads k (items ++ [Item.frag k opens p]) = payloads k items ++ [p] := by
        simp [payloads]
      have hpj : ∀ j, j ≠ k → payloads j (items ++ [Item.frag k opens p]) = payloads j items := by
        intro j hj
        have hne : ¬ k = j := fun e => hj e.symm
        simp [payloads, hne]
      rw [run_append, ih htext' hfirst', firstKeys_snoc]
      by_cases hk : k ∈ firstKeys items
      · rw [if_pos hk]
        simp only [run_cons, run_nil, step]
        rw [addPart_map p hpk hpj opens hnd hk]
      · rw [if_neg hk]
        have hnone : ∀ i ∈ items, i.key? ≠ some k := fun i hi e => hk ((hmem k).mpr ⟨i, hi, e⟩)
        obtain rfl := hfirst items k opens p [] rfl hnone
        have hsame : ((firstKeys items).map fun j => (j, payloads j (items ++ [Item.frag k true p])))
            = (firstKeys items).map fun j => (j, payloads j items) :=
          List.map_congr_left fun j hj => by rw [hpj j fun e => hk (e ▸ hj)]
        simp only [run_cons, run_nil, step]
        rw [addPart_new p (by simpa using hk), List.map_append, hsame, List.map_singleton, hpk,
          payloads_eq_nil hnone]
        rfl

theorem run_texts (ts : List τ) :
    run ({} : State τ κ β) (ts.map .text) = if ts = [] then {} else ⟨[], .text ts⟩ := by
  induction ts using List.reverseRecOn with
  | nil => rfl
  | append_singleton ts t ih =>
    rw [List.map_append, run_append, ih]
    by_cases h : ts = []
    · subst h; rfl
    · simp [h, step]

/-- **Texts, then calls that open at once**: one text block and the calls
with all their payloads. -/
theorem blocks_texts_calls (ts : List τ) {items : List (Item τ κ β)}
    (htext : ∀ i ∈ items, i.isText = false) (hfirst : OpensFirst items) :
    (run {} (ts.map .text ++ items)).blocks
      = (if ts = [] then [] else [.text ts])
        ++ (firstKeys items).map fun k => .call k (payloads k items) := by
  rw [run_append, run_texts]
  cases items with
  | nil => by_cases h : ts = [] <;> simp [h, State.blocks, Group.blocks, firstKeys]
  | cons i items =>
    have hclosed : run (if ts = [] then {} else ⟨[], .text ts⟩) (i :: items)
        = run ⟨if ts = [] then [] else [.text ts], .calls []⟩ (i :: items) := by
      cases i with
      | text t => exact absurd (htext _ List.mem_cons_self) (by simp [Item.isText])
      | frag k opens p => by_cases h : ts = [] <;> simp [h, step]
    rw [hclosed, run_opensFirst _ _ htext hfirst]
    simp [State.blocks, Group.blocks]

/-! ## 7. Comparing two lists of keyed results -/

section Keyed

variable {κ α γ δ : Type} [DecidableEq κ] [DecidableEq δ]

theorem count_keys (l : List (κ × α)) (k : κ) :
    (l.map Prod.fst).count k = (l.filter fun c => c.1 = k).length := by
  rw [List.count, List.countP_map, List.countP_eq_length_filter]
  congr 1

/-- Results that are there once for every key are the results of the keys. -/
theorem perm_of_each {l : List (κ × α)} {ks : List κ} (hks : ks.Nodup)
    (hl : ∀ c ∈ l, c.1 ∈ ks) (f : κ × α → γ) (g : κ → γ)
    (h : ∀ k ∈ ks, ∃ a, (l.filter fun c => c.1 = k) = [(k, a)] ∧ f (k, a) = g k) :
    (l.map f).Perm (ks.map g) := by
  have hcount : ∀ k ∈ ks, (l.map Prod.fst).count k = 1 := by
    intro k hk
    obtain ⟨a, ha, -⟩ := h k hk
    rw [count_keys, ha]
    rfl
  have hmap : l.map f = (l.map Prod.fst).map g := by
    rw [List.map_map]
    refine List.map_congr_left fun c hc => ?_
    obtain ⟨a, ha, hfg⟩ := h c.1 (hl c hc)
    have hmem : c ∈ l.filter fun c' => c'.1 = c.1 := List.mem_filter.mpr ⟨hc, by simp⟩
    rw [ha, List.mem_singleton] at hmem
    rw [← hmem] at hfg
    exact hfg
  have hmem_iff : ∀ k, k ∈ l.map Prod.fst ↔ k ∈ ks := by
    intro k
    constructor
    · intro hmem
      obtain ⟨c, hc, rfl⟩ := List.mem_map.mp hmem
      exact hl c hc
    · exact fun hk => List.count_pos_iff.mp (by rw [hcount k hk]; exact Nat.one_pos)
  have hnd : (l.map Prod.fst).Nodup := by
    rw [List.nodup_iff_count_le_one]
    intro k
    by_cases hk : k ∈ ks
    · rw [hcount k hk]
    · rw [List.count_eq_zero_of_not_mem fun hmem => hk ((hmem_iff k).mp hmem)]
      exact Nat.zero_le 1
  rw [hmap]
  exact List.Perm.map g ((List.perm_ext_iff_of_nodup hnd hks).mpr hmem_iff)

/-- And conversely, when the results carry a tag by which the keys can be
told apart. -/
theorem each_of_perm {l : List (κ × α)} {ks : List κ} (hks : ks.Nodup)
    (hl : ∀ c ∈ l, c.1 ∈ ks) (f : κ × α → γ) (g : κ → γ) (tag : γ → δ) (t : κ → δ)
    (hf : ∀ c, tag (f c) = t c.1) (hg : ∀ k, tag (g k) = t k)
    (ht : ∀ k ∈ ks, ∀ k' ∈ ks, t k = t k' → k = k') (h : (l.map f).Perm (ks.map g)) :
    ∀ k ∈ ks, ∃ a, (l.filter fun c => c.1 = k) = [(k, a)] ∧ f (k, a) = g k := by
  intro k hk
  have hfilter := h.filter fun x => decide (tag x = t k)
  rw [List.filter_map, List.filter_map] at hfilter
  have hleft : l.filter ((fun x => decide (tag x = t k)) ∘ f) = l.filter fun c => c.1 = k := by
    refine List.filter_congr fun c hc => ?_
    simp only [Function.comp_apply, hf]
    exact decide_eq_decide.mpr ⟨ht _ (hl c hc) _ hk, fun e => by rw [e]⟩
  have hright : ks.filter ((fun x => decide (tag x = t k)) ∘ g) = [k] := by
    have : ks.filter ((fun x => decide (tag x = t k)) ∘ g) = ks.filter fun k' => k' = k := by
      refine List.filter_congr fun k' hk' => ?_
      simp only [Function.comp_apply, hg]
      exact decide_eq_decide.mpr ⟨ht _ hk' _ hk, fun e => by rw [e]⟩
    rw [this, List.filter_eq, List.count_eq_one_of_mem hks hk]
    rfl
  rw [hleft, hright, List.map_singleton, List.perm_singleton] at hfilter
  obtain ⟨c, hc, hcg⟩ := List.map_eq_singleton_iff.mp hfilter
  have hck : c.1 = k := by
    have : c ∈ l.filter fun c => c.1 = k := by rw [hc]; exact List.mem_singleton.mpr rfl
    simpa using (List.mem_filter.mp this).2
  obtain ⟨k', a⟩ := c
  simp only at hck
  subst hck
  exact ⟨a, hc, hcg⟩

end Keyed

end MultiForge.Fragments
