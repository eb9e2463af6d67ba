/-
MultiForge.Session.RewindPrefix — what a rewind writes.

The text that is written is the beginning of the file. Read back, it has the
turns that were kept and no others, and no tool call without a result; and
no more turns could have been kept.
-/
import MultiForge.Session.Rewind
import MultiForge.Lib.LineEnds

namespace MultiForge.Session.Rewind

open PyValue Lines

variable {F : Type}

/-! ## 1. Entries and lines -/

/-- Entries are numbered by their lines. -/
structure Numbered (i n : Nat) (raws : List (RawEntry F)) : Prop where
  within : ∀ raw ∈ raws, i ≤ raw.lineIndex ∧ raw.lineIndex < n
  ascending : raws.Pairwise fun a b => a.lineIndex < b.lineIndex

section Reading

variable [PyFloatText F] {limits : Limits}

theorem parse_cons {i : Nat} {line : List Char} {lines : List (List Char)}
    {raws : List (RawEntry F)} (h : parseRawTranscriptEntries limits i (line :: lines) = .ok raws) :
    ∃ entry rest, readLine limits line = .ok entry ∧
      parseRawTranscriptEntries limits (i + 1) lines = .ok rest ∧
      raws = (entry.map fun entry => ⟨entry, i⟩).toList ++ rest := by
  unfold parseRawTranscriptEntries at h
  cases hline : (readLine limits line : Except LoadError (Option (Entry F))) with
  | error e =>
    rw [hline] at h
    cases h
  | ok entry =>
    rw [hline] at h
    cases hrest : (parseRawTranscriptEntries limits (i + 1) lines :
        Except LoadError (List (RawEntry F))) with
    | error e =>
      rw [hrest] at h
      cases h
    | ok rest =>
      rw [hrest] at h
      cases h
      exact ⟨entry, rest, rfl, rfl, rfl⟩

theorem numbered_parse {i : Nat} {lines : List (List Char)} {raws : List (RawEntry F)}
    (h : parseRawTranscriptEntries limits i lines = .ok raws) :
    Numbered i (i + lines.length) raws := by
  induction lines generalizing i raws with
  | nil =>
    cases h
    exact ⟨fun _ hraw => (nomatch hraw), .nil⟩
  | cons line lines ih =>
    obtain ⟨entry, rest, -, hrest, rfl⟩ := parse_cons h
    obtain ⟨hwithin, hascending⟩ := ih hrest
    have hlength : i + (line :: lines).length = i + 1 + lines.length := by
      rw [List.length_cons]
      omega
    rw [hlength]
    have hrestWithin : ∀ raw ∈ rest, i < raw.lineIndex ∧ raw.lineIndex < i + 1 + lines.length :=
      fun raw hraw => ⟨Nat.lt_of_succ_le (hwithin raw hraw).1, (hwithin raw hraw).2⟩
    cases entry with
    | none =>
      exact ⟨fun raw hraw => ⟨(hrestWithin raw hraw).1.le, (hrestWithin raw hraw).2⟩, hascending⟩
    | some entry =>
      refine ⟨fun raw hraw => ?_, List.pairwise_cons.mpr
        ⟨fun raw hraw => (hrestWithin raw hraw).1, hascending⟩⟩
      rcases List.mem_cons.mp hraw with rfl | hraw
      · exact ⟨Nat.le_refl _, by dsimp only; omega⟩
      · exact ⟨(hrestWithin raw hraw).1.le, (hrestWithin raw hraw).2⟩

/-- The first lines have the first entries. -/
theorem parse_take {i : Nat} {lines : List (List Char)} {raws : List (RawEntry F)}
    (h : parseRawTranscriptEntries limits i lines = .ok raws) (n : Nat) :
    ∃ rest, raws = raws.filter (fun raw => raw.lineIndex < i + n) ++ rest ∧
      parseRawTranscriptEntries limits i (lines.take n) =
        .ok (raws.filter fun raw => raw.lineIndex < i + n) := by
  induction lines generalizing i n raws with
  | nil =>
    cases h
    exact ⟨[], rfl, by rw [List.take_nil]; rfl⟩
  | cons line lines ih =>
    cases n with
    | zero =>
      have hnone : raws.filter (fun raw => raw.lineIndex < i + 0) = [] := by
        refine List.filter_eq_nil_iff.mpr fun raw hraw => ?_
        rw [decide_eq_true_eq, Nat.add_zero, Nat.not_lt]
        exact ((numbered_parse h).within raw hraw).1
      rw [hnone]
      exact ⟨raws, rfl, rfl⟩
    | succ n =>
      obtain ⟨entry, rest, hline, hrest, rfl⟩ := parse_cons h
      obtain ⟨later, hlater, hparse⟩ := ih hrest n
      have hbound : i + (n + 1) = i + 1 + n := by omega
      rw [hbound]
      have hhead : (entry.map fun entry => (⟨entry, i⟩ : RawEntry F)).toList.filter
          (fun raw => raw.lineIndex < i + 1 + n) =
            (entry.map fun entry => (⟨entry, i⟩ : RawEntry F)).toList := by
        refine List.filter_eq_self.mpr fun raw hraw => ?_
        cases entry with
        | none => cases hraw
        | some entry =>
          rw [List.mem_singleton.mp hraw, decide_eq_true_eq]
          dsimp only
          omega
      refine ⟨later, ?_, ?_⟩
      · rw [List.filter_append, hhead, List.append_assoc, ← hlater]
      · rw [List.take_succ_cons, parseRawTranscriptEntries, hline, List.filter_append, hhead]
        show (parseRawTranscriptEntries limits (i + 1) (lines.take n)).map _ = _
        rw [hparse]
        rfl

end Reading

/-! ## 2. The turns that are kept -/

theorem Numbered.nodup_lines {i n : Nat} {raws : List (RawEntry F)} (h : Numbered i n raws) :
    (raws.map RawEntry.lineIndex).Nodup :=
  List.pairwise_map.mpr (h.ascending.imp Nat.ne_of_lt)

/-- An entry is known by its line. -/
theorem Numbered.eq_of_line {i n : Nat} {raws : List (RawEntry F)} (h : Numbered i n raws)
    {a b : RawEntry F} (ha : a ∈ raws) (hb : b ∈ raws) (hab : a.lineIndex = b.lineIndex) :
    a = b := List.inj_on_of_nodup_map h.nodup_lines ha hb hab

theorem upTo_eq {cutoff : Int} {raws : List (RawEntry F)} :
    upTo cutoff raws = raws.filter fun raw => raw.lineIndex < 0 + (cutoff + 1).toNat := by
  unfold upTo
  refine List.filter_congr fun raw _ => ?_
  rw [decide_eq_decide]
  omega

theorem take_cutoff {cutoff : Int} {lines : List (List Char)} :
    (if 0 ≤ cutoff then lines.take (cutoff + 1).toNat else []) = lines.take (cutoff + 1).toNat := by
  split
  · rfl
  · rename_i hneg
    rw [show (cutoff + 1).toNat = 0 by omega, List.take_zero]

/-- The search stops at the first prefix that has no tool call without a
    result, and an empty prefix has none. -/
theorem snap_spec (raws : List (RawEntry F)) (turns : List (List (RawEntry F))) (requested : Nat) :
    snapToCompletePrefix raws turns requested ≤ requested ∧
    hasDanglingToolUse ((upTo (cutoffLine turns (snapToCompletePrefix raws turns requested))
      raws).map RawEntry.entry) = false ∧
    ∀ k, snapToCompletePrefix raws turns requested < k → k ≤ requested →
      hasDanglingToolUse ((upTo (cutoffLine turns k) raws).map RawEntry.entry) = true := by
  induction requested with
  | zero =>
    refine ⟨Nat.le_refl _, ?_, fun k hk hle => absurd hk (Nat.not_lt.mpr hle)⟩
    have hnone : upTo (cutoffLine turns 0) raws = [] := by
      refine List.filter_eq_nil_iff.mpr fun raw _ => ?_
      rw [decide_eq_true_eq]
      show ¬ (raw.lineIndex : Int) ≤ -1
      omega
    rw [snapToCompletePrefix, hnone]
    rfl
  | succ n ih =>
    obtain ⟨hle, hcomplete, hdangling⟩ := ih
    unfold snapToCompletePrefix
    split
    · rename_i hdangles
      refine ⟨Nat.le_succ_of_le hle, hcomplete, fun k hk hkn => ?_⟩
      rcases Nat.le_succ_iff.mp hkn with hkn | rfl
      · exact hdangling k hk hkn
      · exact hdangles
    · rename_i hnot
      exact ⟨Nat.le_refl _, Bool.not_eq_true _ ▸ hnot,
        fun k hk hkn => absurd hk (Nat.not_lt.mpr hkn)⟩

/-- When the turns that are kept are a raw prefix, the prefix has these turns. -/
theorem group_upTo {i n : Nat} {raws : List (RawEntry F)} (hnumbered : Numbered i n raws)
    {kept : Nat} {cutoff : Int} {rest : List (RawEntry F)}
    (hsplit : raws = upTo cutoff raws ++ rest) (hkept : kept ≤ (groupEntriesIntoTurns raws).length)
    (h : keptTurnsFormRawPrefix raws (groupEntriesIntoTurns raws) kept cutoff = true) :
    groupEntriesIntoTurns (upTo cutoff raws) = (groupEntriesIntoTurns raws).take kept := by
  unfold keptTurnsFormRawPrefix at h
  simp only [Bool.and_eq_true, List.all_eq_true, decide_eq_true_eq, List.mem_filter,
    List.mem_map] at h
  obtain ⟨hselected, hexpected⟩ := h
  have hin : ∀ turns : List (List (RawEntry F)), turns ⊆ groupEntriesIntoTurns raws →
      ∀ raw ∈ turns.flatten, raw ∈ raws := by
    intro turns hturns raw hraw
    obtain ⟨turn, hturn, hmem⟩ := List.mem_flatten.mp hraw
    exact Grouping.mem_of_mem_groups (hturns hturn) hmem
  have hfirst : ∀ raw ∈ ((groupEntriesIntoTurns raws).take kept).flatten,
      raw ∈ upTo cutoff raws := by
    intro raw hraw
    obtain ⟨⟨raw', hraw', hline⟩, -⟩ := hexpected raw.lineIndex ⟨raw, hraw, rfl⟩
    have heq := hnumbered.eq_of_line (List.mem_of_mem_filter hraw')
      (hin _ (List.take_subset _ _) raw hraw) hline
    exact heq ▸ hraw'
  have hrest : ∀ raw ∈ upTo cutoff raws, raw ∈ (groupEntriesIntoTurns raws).flatten →
      raw ∈ ((groupEntriesIntoTurns raws).take kept).flatten := by
    intro raw hraw hgrouped
    obtain ⟨raw', hraw', hline⟩ :=
      hselected raw.lineIndex ⟨⟨raw, hraw, rfl⟩, ⟨raw, hgrouped, rfl⟩⟩
    have heq := hnumbered.eq_of_line (hin _ (List.take_subset _ _) raw' hraw')
      (List.mem_of_mem_filter hraw) hline
    exact heq ▸ hraw'
  have hgroups : (Grouping.run place (Grouping.start ⟨[], none⟩) (upTo cutoff raws)).groups =
      (Grouping.run place (Grouping.start ⟨[], none⟩) (upTo cutoff raws ++ rest)).groups.take
        kept := by
    refine Grouping.groups_of_beginning ?_ ?_ ?_ ?_ <;> rw [← hsplit]
    · exact hnumbered.nodup_lines.of_map _
    · exact hkept
    · exact hfirst
    · exact hrest
  rw [← hsplit] at hgroups
  exact hgroups

/-! ## 3. What is written -/

/-- What is read has universal newlines, and stays as it is when it is read
    again. -/
theorem translate_beginning {text file : List Char} (h : text <+: translate file) :
    translate text = text :=
  translate_eq_self_iff.mpr fun hmem => not_mem_translate file (h.subset hmem)

/-- A rewind writes the beginning of the file; it reads back as the turns
    that are kept, without a call that waits for its result, and any more
    turns would have had one. -/
theorem rewind_exact [PyFloatText F] (limits : Limits) (file : List Char) (dropLast : Int)
    (r : RewindPrefix) (hdrop : 0 < dropLast)
    (h : writeRewindTranscriptPrefix F limits file dropLast = .ok r) :
    ∃ raws kept : List (RawEntry F),
      parseRewindTranscriptEntries limits file = .ok raws ∧
      parseRewindTranscriptEntries limits r.text = .ok kept ∧
      r.text <+: translate file ∧
      groupEntriesIntoTurns kept = (groupEntriesIntoTurns raws).take r.keptTurns ∧
      (∀ id ∈ toolUses (kept.map RawEntry.entry), id ∈ toolResults (kept.map RawEntry.entry)) ∧
      r.keptTurns ≤ (groupEntriesIntoTurns raws).length - dropLast.toNat ∧
      ∀ k, r.keptTurns < k → k ≤ (groupEntriesIntoTurns raws).length - dropLast.toNat →
        hasDanglingToolUse ((upTo (cutoffLine (groupEntriesIntoTurns raws) k) raws).map
          RawEntry.entry) = true := by
  unfold writeRewindTranscriptPrefix at h
  rw [if_neg (by omega)] at h
  dsimp only at h
  cases hparse : (parseRawTranscriptEntries limits 0 (splitLines (translate file)) :
      Except LoadError (List (RawEntry F))) with
  | error e =>
    rw [hparse] at h
    cases h
  | ok raws =>
    rw [hparse] at h
    dsimp only at h
    rw [if_neg (by omega), take_cutoff] at h
    split at h
    · rename_i hprefix
      cases h
      obtain ⟨hle, hcomplete, hmore⟩ := snap_spec raws (groupEntriesIntoTurns raws)
        ((groupEntriesIntoTurns raws).length - dropLast.toNat)
      obtain ⟨rest, hsplit, htake⟩ := parse_take hparse (cutoffLine (groupEntriesIntoTurns raws)
        (snapToCompletePrefix raws (groupEntriesIntoTurns raws)
          ((groupEntriesIntoTurns raws).length - dropLast.toNat)) + 1).toNat
      rw [← upTo_eq] at hsplit htake
      have htext := flatten_take_prefix (translate file) (cutoffLine (groupEntriesIntoTurns raws)
        (snapToCompletePrefix raws (groupEntriesIntoTurns raws)
          ((groupEntriesIntoTurns raws).length - dropLast.toNat)) + 1).toNat
      refine ⟨raws, _, hparse, ?_, htext, group_upTo (numbered_parse hparse) hsplit
        (Nat.le_trans hle (Nat.sub_le ..)) hprefix, ?_, hle, hmore⟩
      · show parseRawTranscriptEntries limits 0 (splitLines (translate _)) = _
        rw [translate_beginning htext, splitLines_flatten_take]
        exact htake
      · intro id hid
        unfold hasDanglingToolUse at hcomplete
        rw [List.any_eq_false] at hcomplete
        have hnot := hcomplete id hid
        simpa using hnot
    · cases h

/-- Two turns of one entry each. -/
def twoTurns : List Char := "\x7b\"type\":\"user\"\x7d\n\x7b\"type\":\"human\"\x7d\n".toList

/-- The first of them. -/
def firstTurn : RewindPrefix where
  text := "\x7b\"type\":\"user\"\x7d\n".toList
  totalTurns := 2
  requestedKeepTurns := 1
  keptTurns := 1
  actualDroppedTurns := 1
  linesWritten := 1
  entriesWritten := 1
  snappedToSafeBoundary := false

theorem rewind_twoTurns :
    writeRewindTranscriptPrefix FloatText ⟨10, 10⟩ twoTurns 1 = .ok firstTurn := by
  decide +kernel

theorem rewind_exact_twoTurns : ∃ kept : List (RawEntry FloatText),
    parseRewindTranscriptEntries ⟨10, 10⟩ firstTurn.text = .ok kept ∧
    (groupEntriesIntoTurns kept).length ≤ 1 := by
  obtain ⟨raws, kept, -, hkept, -, hturns, -⟩ :=
    rewind_exact ⟨10, 10⟩ twoTurns 1 firstTurn (by decide) rewind_twoTurns
  refine ⟨kept, hkept, ?_⟩
  rw [hturns]
  exact List.length_take_le _ _

end MultiForge.Session.Rewind
