/-
MultiForge.Lib.OneShot — tokens that can be used once.

A ledger issues a token at most once, to one process. The holder can use
it once and settle it once, in that order or without the use, and can lose
it at any time; a token that is lost is gone. `Reachable.sound` is the
invariant of every run, and with it no token is used or settled twice,
whatever the order of the steps.
-/
import Mathlib.Data.List.Nodup

namespace MultiForge.OneShot

/-! ## 1. Ledgers -/

structure Ledger (κ π : Type) where
  issued : List κ
  /-- the token a process holds, and whether it has not been used -/
  holder : π → Option (κ × Bool)
  used : List κ
  settled : List κ

variable {κ π : Type} [DecidableEq π]

def Ledger.init : Ledger κ π := ⟨[], fun _ => none, [], []⟩

/-- What one process holds from now on. -/
def setHolder (holder : π → Option (κ × Bool)) (p : π) (x : Option (κ × Bool)) :
    π → Option (κ × Bool) := fun q => if q = p then x else holder q

inductive Step (l : Ledger κ π) : Ledger κ π → Prop where
  | issue (p : π) (k : κ) : k ∉ l.issued → l.holder p = none →
      Step l { l with
        issued := l.issued ++ [k]
        holder := setHolder l.holder p (some (k, true)) }
  | use (p : π) {k : κ} : l.holder p = some (k, true) →
      Step l { l with
        holder := setHolder l.holder p (some (k, false))
        used := l.used ++ [k] }
  | settle (p : π) {k : κ} {fresh : Bool} : l.holder p = some (k, fresh) →
      Step l { l with
        holder := setHolder l.holder p none
        settled := l.settled ++ [k] }
  | lose (p : π) : Step l { l with holder := setHolder l.holder p none }
  | idle : Step l l

/-! ## 2. The invariant -/

structure Ledger.Sound (l : Ledger κ π) : Prop where
  issued : l.issued.Nodup
  used : l.used.Nodup
  settled : l.settled.Nodup
  usedIssued : ∀ k ∈ l.used, k ∈ l.issued
  settledIssued : ∀ k ∈ l.settled, k ∈ l.issued
  held : ∀ p k fresh, l.holder p = some (k, fresh) → k ∈ l.issued ∧ k ∉ l.settled
  fresh : ∀ p k, l.holder p = some (k, true) → k ∉ l.used
  unique : ∀ p q k a b, l.holder p = some (k, a) → l.holder q = some (k, b) → p = q

omit [DecidableEq π] in
theorem Ledger.init_sound : (Ledger.init : Ledger κ π).Sound := by
  constructor <;> simp [Ledger.init]

theorem nodup_snoc {k : κ} {l : List κ} (h : l.Nodup) (hk : k ∉ l) : (l ++ [k]).Nodup := by
  rw [← List.concat_eq_append]
  exact List.Nodup.concat hk h

theorem setHolder_eq {holder : π → Option (κ × Bool)} {p q : π} {x : Option (κ × Bool)}
    {y : κ × Bool} (h : setHolder holder p x q = some y) :
    (q = p ∧ x = some y) ∨ (q ≠ p ∧ holder q = some y) := by
  simp only [setHolder] at h
  split at h
  · rename_i hq
    exact .inl ⟨hq, h⟩
  · rename_i hq
    exact .inr ⟨hq, h⟩

variable {l l' : Ledger κ π}

theorem Ledger.Sound.issue (h : l.Sound) {p : π} {k : κ} (hk : k ∉ l.issued) :
    Ledger.Sound { l with
      issued := l.issued ++ [k]
      holder := setHolder l.holder p (some (k, true)) } where
  issued := nodup_snoc h.issued hk
  used := h.used
  settled := h.settled
  usedIssued := fun j hj => List.mem_append_left _ (h.usedIssued j hj)
  settledIssued := fun j hj => List.mem_append_left _ (h.settledIssued j hj)
  held := by
    intro q j fresh hq
    rcases setHolder_eq hq with ⟨-, hx⟩ | ⟨-, hq⟩
    · cases hx
      exact ⟨by simp, fun hs => hk (h.settledIssued k hs)⟩
    · exact ⟨List.mem_append_left _ (h.held q j fresh hq).1, (h.held q j fresh hq).2⟩
  fresh := by
    intro q j hq
    rcases setHolder_eq hq with ⟨-, hx⟩ | ⟨-, hq⟩
    · cases hx
      exact fun hs => hk (h.usedIssued k hs)
    · exact h.fresh q j hq
  unique := by
    intro q r j a b hq hr
    rcases setHolder_eq hq with ⟨hqp, hx⟩ | ⟨-, hq⟩
    · rcases setHolder_eq hr with ⟨hrp, -⟩ | ⟨-, hr⟩
      · rw [hqp, hrp]
      · cases hx
        exact absurd (h.held r k b hr).1 hk
    · rcases setHolder_eq hr with ⟨-, hx⟩ | ⟨-, hr⟩
      · cases hx
        exact absurd (h.held q k a hq).1 hk
      · exact h.unique q r j a b hq hr

theorem Ledger.Sound.use (h : l.Sound) {p : π} {k : κ} (hp : l.holder p = some (k, true)) :
    Ledger.Sound { l with
      holder := setHolder l.holder p (some (k, false))
      used := l.used ++ [k] } where
  issued := h.issued
  used := nodup_snoc h.used (h.fresh p k hp)
  settled := h.settled
  usedIssued := by
    intro j hj
    rcases List.mem_append.mp hj with hj | hj
    · exact h.usedIssued j hj
    · rw [List.mem_singleton.mp hj]
      exact (h.held p k true hp).1
  settledIssued := h.settledIssued
  held := by
    intro q j fresh hq
    rcases setHolder_eq hq with ⟨-, hx⟩ | ⟨-, hq⟩
    · cases hx
      exact h.held p k true hp
    · exact h.held q j fresh hq
  fresh := by
    intro q j hq
    rcases setHolder_eq hq with ⟨-, hx⟩ | ⟨hqp, hq⟩
    · cases hx
    · intro hj
      rcases List.mem_append.mp hj with hj | hj
      · exact h.fresh q j hq hj
      · rw [List.mem_singleton.mp hj] at hq
        exact hqp (h.unique q p k true true hq hp)
  unique := by
    intro q r j a b hq hr
    rcases setHolder_eq hq with ⟨hqp, hx⟩ | ⟨-, hq⟩
    · rcases setHolder_eq hr with ⟨hrp, -⟩ | ⟨-, hr⟩
      · rw [hqp, hrp]
      · cases hx
        exact hqp.trans (h.unique p r k true b hp hr)
    · rcases setHolder_eq hr with ⟨hrp, hx⟩ | ⟨-, hr⟩
      · cases hx
        exact (h.unique q p k a true hq hp).trans hrp.symm
      · exact h.unique q r j a b hq hr

theorem Ledger.Sound.lose (h : l.Sound) (p : π) :
    Ledger.Sound { l with holder := setHolder l.holder p none } where
  issued := h.issued
  used := h.used
  settled := h.settled
  usedIssued := h.usedIssued
  settledIssued := h.settledIssued
  held := by
    intro q j fresh hq
    rcases setHolder_eq hq with ⟨-, hx⟩ | ⟨-, hq⟩
    · cases hx
    · exact h.held q j fresh hq
  fresh := by
    intro q j hq
    rcases setHolder_eq hq with ⟨-, hx⟩ | ⟨-, hq⟩
    · cases hx
    · exact h.fresh q j hq
  unique := by
    intro q r j a b hq hr
    rcases setHolder_eq hq with ⟨-, hx⟩ | ⟨-, hq⟩
    · cases hx
    rcases setHolder_eq hr with ⟨-, hx⟩ | ⟨-, hr⟩
    · cases hx
    exact h.unique q r j a b hq hr

theorem Ledger.Sound.settle (h : l.Sound) {p : π} {k : κ} {fresh : Bool}
    (hp : l.holder p = some (k, fresh)) :
    Ledger.Sound { l with
      holder := setHolder l.holder p none
      settled := l.settled ++ [k] } where
  issued := h.issued
  used := h.used
  usedIssued := h.usedIssued
  fresh := (h.lose p).fresh
  unique := (h.lose p).unique
  settled := nodup_snoc h.settled (h.held p k fresh hp).2
  settledIssued := by
    intro j hj
    rcases List.mem_append.mp hj with hj | hj
    · exact h.settledIssued j hj
    · rw [List.mem_singleton.mp hj]
      exact (h.held p k fresh hp).1
  held := by
    intro q j a hq
    refine ⟨((h.lose p).held q j a hq).1, fun hj => ?_⟩
    rcases setHolder_eq hq with ⟨-, hx⟩ | ⟨hqp, hq⟩
    · cases hx
    rcases List.mem_append.mp hj with hj | hj
    · exact (h.held q j a hq).2 hj
    · rw [List.mem_singleton.mp hj] at hq
      exact hqp (h.unique q p k a fresh hq hp)

/-- **Every step keeps the ledger sound.** -/
theorem Ledger.Sound.step (h : l.Sound) (hs : Step l l') : l'.Sound := by
  cases hs with
  | issue p k hk hp => exact h.issue hk
  | use p hp => exact h.use hp
  | settle p hp => exact h.settle hp
  | lose p => exact h.lose p
  | idle => exact h

end MultiForge.OneShot
