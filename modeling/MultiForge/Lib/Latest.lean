/-
MultiForge.Lib.Latest — the latest value of a field.

Several partial records describe one thing; each has a time, and a field
that may be missing. `latestBy` is the value of the record with the
greatest time among those that have one. Where records of one time are one
record, it does not depend on the order or the number of the copies
(`latestBy_congr`), and it grows with the records in the order of their
times (`latestBy_snoc`).
-/
import Mathlib.Data.List.MinMax

namespace MultiForge

variable {α β τ : Type} {ts : α → τ} {g : α → Option β} {l l' : List α}

/-- Records of one time are one record. -/
def DistinctTimes (ts : α → τ) (l : List α) : Prop :=
  ∀ a ∈ l, ∀ b ∈ l, ts a = ts b → a = b

theorem DistinctTimes.mono (h : DistinctTimes ts l') (hsub : ∀ a ∈ l, a ∈ l') :
    DistinctTimes ts l := fun a ha b hb => h a (hsub a ha) b (hsub b hb)

variable [LinearOrder τ]

/-- The value of the latest record that has one. -/
def latestBy (ts : α → τ) (g : α → Option β) (l : List α) : Option β :=
  ((l.filter fun a => (g a).isSome).argmax ts).bind g

theorem latestBy_eq_none_iff : latestBy ts g l = none ↔ ∀ a ∈ l, g a = none := by
  unfold latestBy
  cases hmax : (l.filter fun a => (g a).isSome).argmax ts with
  | none =>
    rw [List.argmax_eq_none, List.filter_eq_nil_iff] at hmax
    simpa using hmax
  | some a =>
    obtain ⟨ha, hg⟩ := List.mem_filter.mp (List.argmax_mem hmax)
    obtain ⟨b, hb⟩ := Option.isSome_iff_exists.mp hg
    rw [Option.bind_some, hb]
    refine ⟨fun h => (by cases h), fun h => ?_⟩
    rw [h a ha] at hb
    exact hb.symm

/-- The value is that of a record that no other one is later than. -/
theorem latestBy_eq_some_iff (hdistinct : DistinctTimes ts l) {b : β} :
    latestBy ts g l = some b ↔
      ∃ a ∈ l, g a = some b ∧ ∀ a' ∈ l, (g a').isSome → ts a' ≤ ts a := by
  unfold latestBy
  constructor
  · intro h
    obtain ⟨a, hmax, hg⟩ := Option.bind_eq_some_iff.mp h
    have hmem := List.argmax_mem hmax
    refine ⟨a, (List.mem_filter.mp hmem).1, hg, fun a' ha' hg' => ?_⟩
    exact List.le_of_mem_argmax (List.mem_filter.mpr ⟨ha', hg'⟩) hmax
  · rintro ⟨a, ha, hg, hall⟩
    have hmem : a ∈ l.filter fun a => (g a).isSome :=
      List.mem_filter.mpr ⟨ha, by rw [hg]; rfl⟩
    cases hmax : (l.filter fun a => (g a).isSome).argmax ts with
    | none =>
      rw [List.argmax_eq_none] at hmax
      rw [hmax] at hmem
      cases hmem
    | some a' =>
      obtain ⟨ha', hg'⟩ := List.mem_filter.mp (List.argmax_mem hmax)
      have htimes : ts a' = ts a :=
        le_antisymm (hall a' ha' hg') (List.le_of_mem_argmax hmem hmax)
      rw [Option.bind_some, hdistinct a' ha' a ha htimes]
      exact hg

/-- Only the records themselves matter. -/
theorem latestBy_congr (hdistinct : DistinctTimes ts l) (h : ∀ a, a ∈ l ↔ a ∈ l') :
    latestBy ts g l = latestBy ts g l' := by
  have hdistinct' : DistinctTimes ts l' := hdistinct.mono fun a ha => (h a).mpr ha
  apply Option.ext
  intro b
  rw [latestBy_eq_some_iff hdistinct, latestBy_eq_some_iff hdistinct']
  simp only [h]

/-- One more record, not before the others. -/
theorem latestBy_snoc {a : α} (hdistinct : DistinctTimes ts (l ++ [a]))
    (hlast : ∀ a' ∈ l, ts a' ≤ ts a) :
    latestBy ts g (l ++ [a]) = (g a).or (latestBy ts g l) := by
  have hdistinct' : DistinctTimes ts l :=
    hdistinct.mono fun a' ha' => List.mem_append_left _ ha'
  cases hg : g a with
  | some b =>
    rw [Option.some_or, latestBy_eq_some_iff hdistinct]
    refine ⟨a, by simp, hg, fun a' ha' _ => ?_⟩
    rcases List.mem_append.mp ha' with h | h
    · exact hlast a' h
    · rw [List.mem_singleton.mp h]
  | none =>
    rw [Option.none_or]
    unfold latestBy
    rw [List.filter_append]
    simp [hg]

/-! ## The last of the greatest -/

/-- The entry with the greatest key, and the last one among equals. -/
def IsLastMax (l : List (τ × β)) : Option (τ × β) → Prop
  | none => l = []
  | some e => ∃ before after, l = before ++ e :: after ∧ (∀ a ∈ before, a.1 ≤ e.1) ∧
      ∀ a ∈ after, a.1 < e.1

theorem isLastMax_nil : IsLastMax ([] : List (τ × β)) none := rfl

/-- One more entry replaces an entry that is not greater. -/
theorem IsLastMax.snoc {l : List (τ × β)} {e m : τ × β} (h : IsLastMax l (some m)) :
    IsLastMax (l ++ [e]) (some (if m.1 ≤ e.1 then e else m)) := by
  obtain ⟨before, after, rfl, hbefore, hafter⟩ := h
  by_cases hle : m.1 ≤ e.1
  · rw [if_pos hle]
    refine ⟨before ++ m :: after, [], rfl, ?_, by simp⟩
    intro a ha
    rcases List.mem_append.mp ha with ha | ha
    · exact (hbefore a ha).trans hle
    · rcases List.mem_cons.mp ha with rfl | ha
      · exact hle
      · exact (hafter a ha).le.trans hle
  · rw [if_neg hle]
    refine ⟨before, after ++ [e], by simp, hbefore, ?_⟩
    intro a ha
    rcases List.mem_append.mp ha with ha | ha
    · exact hafter a ha
    · rw [List.mem_singleton.mp ha]
      exact not_le.mp hle

/-- The first entry is the greatest of one. -/
theorem isLastMax_singleton (e : τ × β) : IsLastMax [e] (some e) :=
  ⟨[], [], rfl, by simp, by simp⟩

end MultiForge
