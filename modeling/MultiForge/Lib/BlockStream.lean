/-
MultiForge.Lib.BlockStream — streams of indexed, possibly overlapping
blocks.

A producer opens blocks numbered 0, 1, 2, …, sends deltas to blocks that
are open and closes each block once. `Accepted` states that contract
about a whole list of actions; `Monitor` is the reader that checks it one
action at a time and remembers only which blocks are open.
`Accepted.of_run` says the monitor is enough: a list it reads to the end
with no block open is accepted.

A producer that appends to its output needs three rules only —
`run_start`, `run_delta` and `run_closes` — each about the monitor after
one more action (or after closing everything that is open).
-/
import Mathlib.Data.List.Perm.Basic
import Mathlib.Data.List.Nodup

namespace MultiForge.BlockStream

variable {τ : Type} [DecidableEq τ]

/-- One action of the producer on the block numbered `i`. -/
inductive Action (τ : Type) where
  | start (i : Int) (t : τ)
  | delta (i : Int) (t : τ)
  | stop (i : Int)
  deriving DecidableEq, Repr

/-- The index an action opens. -/
def Action.started? : Action τ → Option Int
  | .start i _ => some i
  | .delta _ _ => none
  | .stop _ => none

/-! ## 1. The contract -/

/-- The contract on a complete list of actions. -/
structure Accepted (as : List (Action τ)) : Prop where
  /-- blocks are numbered 0, 1, 2, … in the order they are opened -/
  numbered : ∃ n : Nat, as.filterMap Action.started? = (List.range n).map (fun k : Nat => (k : Int))
  /-- a delta goes to a block of its own type that is open -/
  delta_open : ∀ pre i t post, as = pre ++ Action.delta i t :: post →
    Action.start i t ∈ pre ∧ Action.stop i ∉ pre
  /-- only an opened block is closed -/
  stop_open : ∀ pre i post, as = pre ++ Action.stop i :: post →
    (∃ t, Action.start i t ∈ pre) ∧ Action.stop i ∉ pre
  /-- every opened block is closed exactly once -/
  closed : ∀ i t, Action.start i t ∈ as → as.count (Action.stop i) = 1

/-! ## 2. The monitor -/

/-- What a reader remembers: the next index and the open blocks. -/
structure Monitor (τ : Type) where
  next : Int := 0
  opens : List (Int × τ) := []
  deriving DecidableEq, Repr

def Monitor.step (m : Monitor τ) : Action τ → Option (Monitor τ)
  | .start i t => if i = m.next then some { next := m.next + 1, opens := m.opens ++ [(i, t)] } else none
  | .delta i t => if (i, t) ∈ m.opens then some m else none
  | .stop i =>
      if (∃ b ∈ m.opens, b.1 = i) then some { m with opens := m.opens.filter (fun b => b.1 ≠ i) }
      else none

def Monitor.run (m : Monitor τ) : List (Action τ) → Option (Monitor τ)
  | [] => some m
  | a :: as => (m.step a).bind fun m' => m'.run as

theorem Monitor.run_append (m : Monitor τ) (as bs : List (Action τ)) :
    m.run (as ++ bs) = (m.run as).bind fun m' => m'.run bs := by
  induction as generalizing m with
  | nil => rfl
  | cons a as ih =>
    simp only [List.cons_append, Monitor.run]
    cases m.step a with
    | none => rfl
    | some m' => simp [ih]

/-- Reading one more action at the end of an accepted prefix. -/
theorem Monitor.run_concat {m m' : Monitor τ} {as : List (Action τ)} (h : m.run as = some m')
    (a : Action τ) : m.run (as ++ [a]) = m'.step a := by
  rw [Monitor.run_append, h]
  cases ha : m'.step a <;> simp [Monitor.run, ha]

/-! ## 3. Rules for a producer -/

/-- The monitor's open blocks are `bs`, up to order, and the next index
is `n`. -/
structure Monitor.Tracks (m : Monitor τ) (n : Int) (bs : List (Int × τ)) : Prop where
  next : m.next = n
  opens : m.opens.Perm bs

theorem run_start {m : Monitor τ} {as : List (Action τ)} {n : Int} {bs : List (Int × τ)}
    (hrun : Monitor.run {} as = some m) (ht : m.Tracks n bs) (t : τ) :
    ∃ m', Monitor.run {} (as ++ [.start n t]) = some m' ∧ m'.Tracks (n + 1) (bs ++ [(n, t)]) := by
  refine ⟨{ next := n + 1, opens := m.opens ++ [(n, t)] }, ?_, rfl, ht.opens.append_right _⟩
  rw [Monitor.run_concat hrun]
  simp [Monitor.step, ht.next]

theorem run_delta {m : Monitor τ} {as : List (Action τ)} {n : Int} {bs : List (Int × τ)}
    (hrun : Monitor.run {} as = some m) (ht : m.Tracks n bs) {i : Int} {t : τ}
    (hmem : (i, t) ∈ bs) : Monitor.run {} (as ++ [.delta i t]) = some m := by
  rw [Monitor.run_concat hrun]
  simp [Monitor.step, ht.opens.mem_iff.mpr hmem]

theorem run_stop {m : Monitor τ} {as : List (Action τ)} {n : Int} {bs : List (Int × τ)}
    (hrun : Monitor.run {} as = some m) (ht : m.Tracks n bs) {i : Int}
    (hmem : ∃ b ∈ bs, b.1 = i) :
    ∃ m', Monitor.run {} (as ++ [.stop i]) = some m' ∧
      m'.Tracks n (bs.filter (fun b => b.1 ≠ i)) := by
  obtain ⟨b, hb, hi⟩ := hmem
  have hopen : ∃ b ∈ m.opens, b.1 = i := ⟨b, ht.opens.mem_iff.mpr hb, hi⟩
  refine ⟨{ m with opens := m.opens.filter (fun b => b.1 ≠ i) }, ?_, ht.next,
    ht.opens.filter _⟩
  rw [Monitor.run_concat hrun]
  simp only [Monitor.step, if_pos hopen]

theorem run_deltas {m : Monitor τ} {as : List (Action τ)} {n : Int} {bs : List (Int × τ)}
    (hrun : Monitor.run {} as = some m) (ht : m.Tracks n bs) {i : Int} {t : τ}
    (hmem : (i, t) ∈ bs) :
    ∀ k, Monitor.run {} (as ++ List.replicate k (.delta i t)) = some m
  | 0 => by simpa using hrun
  | k + 1 => by
      rw [List.replicate_succ', ← List.append_assoc]
      exact run_delta (run_deltas hrun ht hmem k) ht hmem

/-- Closing every open block, in any order and each after some last
deltas, leaves none open. -/
theorem run_closes {α : Type} {blk : α → Int × τ} {close : α → List (Action τ)}
    (hclose : ∀ a, ∃ k, close a = List.replicate k (.delta (blk a).1 (blk a).2) ++ [.stop (blk a).1])
    {n : Int} : ∀ {xs : List α} {as : List (Action τ)} {m : Monitor τ},
    Monitor.run {} as = some m → m.Tracks n (xs.map blk) → (xs.map fun a => (blk a).1).Nodup →
    ∃ m', Monitor.run {} (as ++ xs.flatMap close) = some m' ∧ m'.Tracks n []
  | [], as, m, hrun, ht, _ => ⟨m, by simpa using hrun, ht⟩
  | x :: xs, as, m, hrun, ht, hnd => by
      obtain ⟨hx, hnd'⟩ := List.nodup_cons.mp hnd
      obtain ⟨k, hk⟩ := hclose x
      have hmem : ((blk x).1, (blk x).2) ∈ (x :: xs).map blk := by simp
      have hrun₁ := run_deltas hrun ht hmem k
      obtain ⟨m₂, hrun₂, ht₂⟩ := run_stop hrun₁ ht (i := (blk x).1) ⟨blk x, hmem, rfl⟩
      have hrest : ((x :: xs).map blk).filter (fun b => b.1 ≠ (blk x).1) = xs.map blk := by
        have hkeep : ∀ b ∈ xs.map blk, b.1 ≠ (blk x).1 := by
          intro b hb he
          obtain ⟨y, hy, rfl⟩ := List.mem_map.mp hb
          exact hx (List.mem_map.mpr ⟨y, hy, he⟩)
        simpa [List.filter_cons] using hkeep
      rw [hrest] at ht₂
      obtain ⟨m', hrun', ht'⟩ := run_closes hclose hrun₂ ht₂ hnd'
      exact ⟨m', by simpa [hk] using hrun', ht'⟩

/-! ## 4. The monitor decides the contract -/

/-- What the monitor knows about the prefix it has read. -/
structure Monitor.Knows (m : Monitor τ) (as : List (Action τ)) : Prop where
  numbered : ∃ n : Nat, m.next = n ∧
    as.filterMap Action.started? = (List.range n).map (fun k : Nat => (k : Int))
  opens : ∀ i t, (i, t) ∈ m.opens ↔ Action.start i t ∈ as ∧ Action.stop i ∉ as
  delta_open : ∀ pre i t post, as = pre ++ Action.delta i t :: post →
    Action.start i t ∈ pre ∧ Action.stop i ∉ pre
  stop_open : ∀ pre i post, as = pre ++ Action.stop i :: post →
    (∃ t, Action.start i t ∈ pre) ∧ Action.stop i ∉ pre

omit [DecidableEq τ] in
/-- A start that has been read has an index below the next one. -/
theorem Monitor.Knows.start_lt {m : Monitor τ} {as : List (Action τ)} (h : m.Knows as)
    {i : Int} {t : τ} (hs : Action.start i t ∈ as) : i < m.next := by
  obtain ⟨n, hn, hnum⟩ := h.numbered
  have hi : i ∈ as.filterMap Action.started? := List.mem_filterMap.mpr ⟨_, hs, rfl⟩
  rw [hnum] at hi
  simp only [List.mem_map, List.mem_range] at hi
  obtain ⟨k, hk, rfl⟩ := hi
  omega

omit [DecidableEq τ] in
/-- A stop that has been read closes a block that was opened. -/
theorem Monitor.Knows.stop_lt {m : Monitor τ} {as : List (Action τ)} (h : m.Knows as)
    {i : Int} (hs : Action.stop i ∈ as) : i < m.next := by
  obtain ⟨pre, post, rfl⟩ := List.append_of_mem hs
  obtain ⟨⟨t, ht⟩, -⟩ := h.stop_open pre i post rfl
  exact h.start_lt (t := t) (by simp [ht])

/-- Where a list with one more action is split, the split lies in the
old list or is at the new action. -/
theorem append_singleton_split {α : Type} {as pre post : List α} {a x : α}
    (h : as ++ [x] = pre ++ a :: post) :
    (∃ post', as = pre ++ a :: post') ∨ (as = pre ∧ x = a) := by
  rcases List.eq_nil_or_concat post with rfl | ⟨post', b, rfl⟩
  · right
    have := List.append_inj' h rfl
    simpa using this
  · left
    refine ⟨post', ?_⟩
    have h' : as ++ [x] = (pre ++ a :: post') ++ [b] := by simpa using h
    exact (List.append_inj' h' rfl).1

theorem Monitor.Knows.step {m m' : Monitor τ} {as : List (Action τ)} (h : m.Knows as)
    {a : Action τ} (hs : m.step a = some m') : m'.Knows (as ++ [a]) := by
  obtain ⟨n, hn, hnum⟩ := h.numbered
  cases a with
  | start i t =>
    simp only [Monitor.step] at hs
    split at hs
    · rename_i hi
      cases hs
      have hfresh : ∀ u, Action.stop i ∉ as ∧ Action.start i u ∉ as := fun u =>
        ⟨fun hm => absurd (h.stop_lt hm) (by omega), fun hm => absurd (h.start_lt hm) (by omega)⟩
      refine ⟨⟨n + 1, by simp [hn], ?_⟩, ?_, ?_, ?_⟩
      · simp [List.filterMap_append, hnum, Action.started?, List.range_succ, hi, hn]
      · intro j u
        have hj := h.opens j u
        simp only [List.mem_append, hj, List.mem_singleton, Prod.mk.injEq, Action.start.injEq,
          reduceCtorEq, or_false]
        constructor
        · rintro (hh | ⟨rfl, rfl⟩)
          · exact ⟨Or.inl hh.1, hh.2⟩
          · exact ⟨Or.inr ⟨rfl, rfl⟩, (hfresh u).1⟩
        · rintro ⟨hh | ⟨rfl, rfl⟩, hns⟩
          · exact Or.inl ⟨hh, hns⟩
          · exact Or.inr ⟨rfl, rfl⟩
      · intro pre j u post he
        rcases append_singleton_split he with ⟨post', he'⟩ | ⟨_, hx⟩
        · exact h.delta_open pre j u post' he'
        · cases hx
      · intro pre j post he
        rcases append_singleton_split he with ⟨post', he'⟩ | ⟨_, hx⟩
        · exact h.stop_open pre j post' he'
        · cases hx
    · cases hs
  | delta i t =>
    simp only [Monitor.step] at hs
    split at hs
    · rename_i hi
      cases hs
      refine ⟨⟨n, hn, ?_⟩, ?_, ?_, ?_⟩
      · simp [List.filterMap_append, hnum, Action.started?]
      · intro j u
        simpa using h.opens j u
      · intro pre j u post he
        rcases append_singleton_split he with ⟨post', he'⟩ | ⟨rfl, hx⟩
        · exact h.delta_open pre j u post' he'
        · cases hx; exact (h.opens _ _).mp hi
      · intro pre j post he
        rcases append_singleton_split he with ⟨post', he'⟩ | ⟨_, hx⟩
        · exact h.stop_open pre j post' he'
        · cases hx
    · cases hs
  | stop i =>
    simp only [Monitor.step] at hs
    split at hs
    · rename_i hi
      cases hs
      refine ⟨⟨n, hn, ?_⟩, ?_, ?_, ?_⟩
      · simp [List.filterMap_append, hnum, Action.started?]
      · intro j u
        simp only [List.mem_filter, h.opens j u, List.mem_append, List.mem_singleton,
          reduceCtorEq, or_false, Action.stop.injEq, decide_eq_true_eq]
        tauto
      · intro pre j u post he
        rcases append_singleton_split he with ⟨post', he'⟩ | ⟨_, hx⟩
        · exact h.delta_open pre j u post' he'
        · cases hx
      · intro pre j post he
        rcases append_singleton_split he with ⟨post', he'⟩ | ⟨rfl, hx⟩
        · exact h.stop_open pre j post' he'
        · cases hx
          obtain ⟨⟨j, u⟩, hb, rfl⟩ := hi
          exact ⟨⟨u, ((h.opens _ _).mp hb).1⟩, ((h.opens _ _).mp hb).2⟩
    · cases hs

theorem Monitor.Knows.run : ∀ {bs as : List (Action τ)} {m m' : Monitor τ},
    m.Knows as → m.run bs = some m' → m'.Knows (as ++ bs)
  | [], as, m, m', h, hr => by
      cases hr; simpa using h
  | a :: bs, as, m, m', h, hr => by
      simp only [Monitor.run, Option.bind_eq_some_iff] at hr
      obtain ⟨m₁, hs, hr'⟩ := hr
      simpa using (h.step hs).run hr'

omit [DecidableEq τ] in
theorem Monitor.Knows.init : ({} : Monitor τ).Knows [] where
  numbered := ⟨0, rfl, rfl⟩
  opens := by simp
  delta_open := by simp
  stop_open := by simp

/-- The open blocks of a monitor have distinct indices, all below the
next one. -/
structure Monitor.Fresh (m : Monitor τ) : Prop where
  nodup : (m.opens.map Prod.fst).Nodup
  lt : ∀ b ∈ m.opens, b.1 < m.next

theorem Monitor.Fresh.step {m m' : Monitor τ} (h : m.Fresh) {a : Action τ}
    (hs : m.step a = some m') : m'.Fresh := by
  cases a with
  | start i t =>
    simp only [Monitor.step] at hs
    split at hs
    · rename_i hi
      cases hs
      constructor
      · rw [List.map_append, List.nodup_append]
        refine ⟨h.nodup, by simp, ?_⟩
        intro j hj k hk
        obtain ⟨b, hb, rfl⟩ := List.mem_map.mp hj
        have := h.lt b hb
        simp only [List.map_cons, List.map_nil, List.mem_singleton] at hk
        omega
      · intro b hb
        rcases List.mem_append.mp hb with hb | hb
        · have := h.lt b hb
          simp only
          omega
        · simp only [List.mem_singleton] at hb
          simp only [hb]
          omega
    · cases hs
  | delta i t =>
    simp only [Monitor.step] at hs
    split at hs
    · cases hs; exact h
    · cases hs
  | stop i =>
    simp only [Monitor.step] at hs
    split at hs
    · cases hs
      exact ⟨(List.filter_sublist.map Prod.fst).nodup h.nodup,
        fun b hb => h.lt b (List.mem_of_mem_filter hb)⟩
    · cases hs

theorem Monitor.Fresh.run : ∀ {as : List (Action τ)} {m m' : Monitor τ},
    m.Fresh → m.run as = some m' → m'.Fresh
  | [], m, m', h, hr => by cases hr; exact h
  | a :: as, m, m', h, hr => by
      simp only [Monitor.run, Option.bind_eq_some_iff] at hr
      obtain ⟨m₁, hs, hr'⟩ := hr
      exact (h.step hs).run hr'

/-- The blocks a producer tracks have distinct indices. -/
theorem Monitor.Tracks.nodup {m : Monitor τ} {as : List (Action τ)} {n : Int}
    {bs : List (Int × τ)} (hr : Monitor.run {} as = some m) (ht : m.Tracks n bs) :
    (bs.map Prod.fst).Nodup := by
  have hf : m.Fresh := Monitor.Fresh.run ⟨by simp, by simp⟩ hr
  exact (ht.opens.map Prod.fst).nodup_iff.mp hf.nodup

/-- **A list the monitor reads to the end with no block open meets the
contract.** -/
theorem Accepted.of_run {as : List (Action τ)} {m : Monitor τ}
    (hr : Monitor.run {} as = some m) (hopen : m.opens = []) : Accepted as := by
  have h : m.Knows as := by simpa using Monitor.Knows.init.run hr
  obtain ⟨n, _, hnum⟩ := h.numbered
  refine ⟨⟨n, hnum⟩, h.delta_open, h.stop_open, ?_⟩
  intro i t hs
  have hstop : Action.stop i ∈ as := by
    by_contra hns
    have := (h.opens i t).mpr ⟨hs, hns⟩
    simp [hopen] at this
  obtain ⟨pre, post, rfl⟩ := List.append_of_mem hstop
  have hpre : Action.stop i ∉ pre := (h.stop_open pre i post rfl).2
  have hpost : Action.stop i ∉ post := by
    intro hm
    obtain ⟨p₁, p₂, rfl⟩ := List.append_of_mem hm
    exact (h.stop_open (pre ++ Action.stop i :: p₁) i p₂ (by simp)).2 (by simp)
  simp [List.count_append, List.count_eq_zero.mpr hpre, List.count_eq_zero.mpr hpost]

end MultiForge.BlockStream
