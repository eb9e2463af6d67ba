/-
MultiForge.Lib.Attempt — what holds when a computation ends or raises.

`Ends P Q x` says that `x` ends with a value that satisfies `P`, or raises
an exception that satisfies `Q`. The rules follow the program: one for a
sequence, one for a guard and one for a loop, whose invariant knows what
is still to be done.
-/

namespace MultiForge

variable {α β ε : Type} {P P' : α → Prop} {Q Q' : ε → Prop}

def Ends (P : α → Prop) (Q : ε → Prop) : Except ε α → Prop
  | .ok a => P a
  | .error e => Q e

/-- Raise where there is a fault. -/
def raiseIf {φ : Type} (raised : φ → ε) : Option φ → Except ε Unit
  | none => .ok ()
  | some fault => .error (raised fault)

namespace Ends

theorem ok {a : α} (h : P a) : Ends P Q (.ok a) := h

theorem error {e : ε} (h : Q e) : Ends P Q (.error e) := h

theorem mono {x : Except ε α} (h : Ends P Q x) (hP : ∀ a, P a → P' a) (hQ : ∀ e, Q e → Q' e) :
    Ends P' Q' x := by
  cases x with
  | ok a => exact hP a h
  | error e => exact hQ e h

theorem bind {x : Except ε α} {f : α → Except ε β} {R : β → Prop} (hx : Ends P Q x)
    (hf : ∀ a, P a → Ends R Q (f a)) : Ends R Q (x >>= f) := by
  cases x with
  | ok a => exact hf a hx
  | error e => exact hx

/-- A sequence ends well exactly when its parts do, one after the other. -/
theorem bind_iff {x : Except ε α} {f : α → Except ε β} {R : β → Prop} :
    Ends R Q (x >>= f) ↔ Ends (fun a => Ends R Q (f a)) Q x := by
  cases x <;> exact Iff.rfl

theorem congr {x : Except ε α} (h : ∀ a, P a ↔ P' a) : Ends P Q x ↔ Ends P' Q x := by
  cases x with
  | ok a => exact h a
  | error e => exact Iff.rfl

theorem raiseIf {φ : Type} {raised : φ → ε} (fault : Option φ) (h : ∀ e, Q (raised e)) :
    Ends (fun _ => True) Q (raiseIf raised fault) := by
  cases fault with
  | none => exact trivial
  | some e => exact h e

/-- The value of an attempt that raises nothing. -/
theorem eq_ok {x : Except ε α} {a : α} (h : Ends P Q x) (hx : x = .ok a) : P a := by
  rw [hx] at h
  exact h

theorem eq_error {x : Except ε α} {e : ε} (h : Ends P Q x) (hx : x = .error e) : Q e := by
  rw [hx] at h
  exact h

/-- A loop keeps what every pass keeps. -/
theorem foldlM {f : α → β → Except ε α} (I : List β → α → Prop)
    (hstep : ∀ x rest a, I (x :: rest) a → Ends (I rest) Q (f a x)) :
    ∀ (xs : List β) (a : α), I xs a → Ends (I []) Q (xs.foldlM f a)
  | [], _, h => h
  | x :: rest, a, h => by
      rw [List.foldlM_cons]
      exact (hstep x rest a h).bind fun a' h' => foldlM I hstep rest a' h'

end Ends

end MultiForge
