/-
MultiForge.Lib.Machine — machines seen from outside.

A machine answers an input in a state and goes on to another state. Two
states are alike when no sequence of inputs tells them apart. This is the
largest relation that a step respects and that has the same answers
(`Alike.of_bisimulation`), so a state may be replaced by one alike, such as
the state read back from what was saved of it.
-/
import Mathlib.Data.List.Basic

namespace MultiForge

universe u v w

/-- A deterministic machine. -/
structure Machine (σ : Type u) (ι : Type v) (ο : Type w) where
  observe : σ → ι → ο
  step : σ → ι → σ

namespace Machine

variable {σ : Type u} {ι : Type v} {ο : Type w} {m : Machine σ ι ο} {s t u : σ}

/-- The state after a list of inputs. -/
def after (m : Machine σ ι ο) (s : σ) (is : List ι) : σ := is.foldl m.step s

/-- No sequence of inputs tells the states apart. -/
def Alike (m : Machine σ ι ο) (s t : σ) : Prop :=
  ∀ is i, m.observe (m.after s is) i = m.observe (m.after t is) i

theorem Alike.refl (m : Machine σ ι ο) (s : σ) : m.Alike s s := fun _ _ => rfl

theorem Alike.of_eq (h : s = t) : m.Alike s t := h ▸ .refl m s

theorem Alike.symm (h : m.Alike s t) : m.Alike t s := fun is i => (h is i).symm

theorem Alike.trans (h : m.Alike s t) (h' : m.Alike t u) : m.Alike s u :=
  fun is i => (h is i).trans (h' is i)

theorem Alike.observe (h : m.Alike s t) (i : ι) : m.observe s i = m.observe t i := h [] i

theorem Alike.step (h : m.Alike s t) (i : ι) : m.Alike (m.step s i) (m.step t i) :=
  fun is => h (i :: is)

/-- A relation with the same answers that every step respects. -/
theorem Alike.of_bisimulation {R : σ → σ → Prop}
    (hobserve : ∀ s t i, R s t → m.observe s i = m.observe t i)
    (hstep : ∀ s t i, R s t → R (m.step s i) (m.step t i)) (h : R s t) : m.Alike s t := by
  intro is
  induction is generalizing s t with
  | nil => exact fun i => hobserve s t i h
  | cons j rest ih => exact ih (hstep s t j h)

end Machine

end MultiForge
