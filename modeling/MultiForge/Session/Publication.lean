/-
MultiForge.Session.Publication — sessions are published whole.

`Indexed` holds in every state of every run, whatever fails: a manifest
that a creation wrote has its row, and the manifests that had no row to
begin with stay as they are. That a row stands over no manifest but its
own (`RowsOwn`) does not: a creation that finds a manifest in its place
has written its row before it is refused. It holds whenever the lock is
free if no fault strikes in between. Both are shown together: `strict`
says whether faults are kept out of the states between.
-/
import MultiForge.Session.Index

namespace MultiForge.Session

open Locked

variable (host : Host)

/-! ## 1. What holds -/

/-- A manifest without a row, written by no transaction. -/
def Orphan (s : World) (loc : Loc) (m : Manifest) : Prop :=
  s.manifest loc = some m ∧ m.birth = none

/-- A row for a session. -/
def RowAt (s : World) (loc : Loc) (row : Row) : Prop :=
  s.index.get? (host.scopedKey loc) = some row ∧ row.root = loc.root

/-- Every row stands over no manifest, or over its own. -/
def RowsOwn (s : World) : Prop :=
  ∀ loc row m, RowAt host s loc row → s.manifest loc = some m → m.birth = some row.birth

/-- Every row is its manifest's own, if that is asked for. -/
def Sound (strict : Prop) (s : World) : Prop := strict → RowsOwn host s

/-- What holds in every state of a run from `s₀`. -/
structure Indexed (s₀ s : World) : Prop where
  keyed : ∀ key row, s.index.get? key = some row → host.scopedKey (row.loc key) = key
  birth : ∀ key row, s.index.get? key = some row → row.birth ≤ s.releases
  /-- a manifest that a transaction wrote has the row of this transaction -/
  written : ∀ loc m b, s.manifest loc = some m → m.birth = some b →
    ∃ row, RowAt host s loc row ∧ row.birth = b
  /-- a row with an instance id is the manifest's own, and the owner file names no other -/
  owned : ∀ loc row t m, RowAt host s loc row → row.instanceId = some t →
    s.manifest loc = some m → m.birth = some row.birth ∧ ∀ t', s.owner loc = some t' → t' = t
  /-- a row without an instance id is not being deleted -/
  unowned : ∀ loc row, RowAt host s loc row → row.instanceId = none → s.inventory loc = none
  kept : ∀ loc m, Orphan s₀ loc m → s.manifest loc = some m
  housed : ∀ loc, s.manifest loc ≠ none → s.sessionDir loc = true

/-- A row of an earlier transaction is bare, if it is there at all. -/
def Dead (s : World) (loc : Loc) (b : Nat) : Prop :=
  ∀ row, RowAt host s loc row → row.birth = b → row.instanceId = none ∧ s.manifest loc = none

/-- There is no row of a transaction. -/
def Absent (s : World) (loc : Loc) (b : Nat) : Prop :=
  ∀ row, RowAt host s loc row → row.birth ≠ b

/-- Bare rows stay bare until they are gone, and do not come back. -/
structure Onward (s s' : World) : Prop where
  releases : s.releases ≤ s'.releases
  dead : ∀ loc b, b < s.releases → Dead host s loc b → Dead host s' loc b
  absent : ∀ loc b, b < s.releases → Absent host s loc b → Absent host s' loc b

theorem Onward.refl (s : World) : Onward host s s := ⟨Nat.le_refl _, fun _ _ _ h => h, fun _ _ _ h => h⟩

variable {host}

theorem Onward.trans {a b c : World} (h : Onward host a b) (h' : Onward host b c) :
    Onward host a c where
  releases := Nat.le_trans h.releases h'.releases
  dead loc n hn hd := h'.dead loc n (Nat.lt_of_lt_of_le hn h.releases) (h.dead loc n hn hd)
  absent loc n hn hd := h'.absent loc n (Nat.lt_of_lt_of_le hn h.releases) (h.absent loc n hn hd)

/-- What a release of the lock records. -/
def released (s : World) : World := { s with releases := s.releases + 1 }

variable (host)

/-- What the processes of the index keep to, in runs whose faults strike
only where every row stands over its own manifest, or anywhere. -/
def publication (strict : Prop) (s₀ : World) : Discipline World where
  inv := Indexed host s₀
  free s := Sound host strict s ∧ ∀ key row, s.index.get? key = some row → row.birth < s.releases
  step := Onward host
  quiet := Eq
  faulty := Sound host strict
  release := released
  step_refl := Onward.refl host
  step_trans := Onward.trans
  quiet_refl _ := rfl
  quiet_trans h h' := h.trans h'
  quiet_step h := h ▸ Onward.refl host _
  quiet_inv h hq := hq ▸ h
  quiet_free _ h hq := hq ▸ h
  release_step _ := ⟨Nat.le_succ _, fun _ _ _ h => h, fun _ _ _ h => h⟩

variable {host} {strict : Prop} {s₀ s s' : World}

/-- What keeps every row over its own manifest, keeps it if that is asked for. -/
theorem Sound.imp (h : Sound host strict s) (hrows : RowsOwn host s → RowsOwn host s') :
    Sound host strict s' :=
  fun hs => hrows (h hs)

theorem Indexed.released (h : Indexed host s₀ s) : Indexed host s₀ (released s) :=
  ⟨h.keyed, fun k r hr => Nat.le_succ_of_le (h.birth k r hr), h.written, h.owned, h.unowned, h.kept,
    h.housed⟩

theorem Indexed.closed (h : Indexed host s₀ s) (hrows : Sound host strict s) :
    (publication host strict s₀).Closed s :=
  ⟨h, h.released, hrows, fun k r hr => Nat.lt_succ_of_le (h.birth k r hr)⟩

/-- A row's location is found under its key. -/
theorem Indexed.rowAt (h : Indexed host s₀ s) {key : ScopedKey} {row : Row}
    (hrow : s.index.get? key = some row) : RowAt host s (row.loc key) row :=
  ⟨(h.keyed key row hrow).symm ▸ hrow, rfl⟩

theorem RowAt.loc_eq {loc : Loc} {row : Row} (h : RowAt host s loc row) :
    row.loc (host.scopedKey loc) = loc := by
  obtain ⟨root, name⟩ := loc
  have hroot : row.root = root := h.2
  simp [Row.loc, Host.scopedKey, hroot]

theorem RowAt.unique {loc : Loc} {row row' : Row} (h : RowAt host s loc row)
    (h' : RowAt host s loc row') : row = row' :=
  Option.some.inj (h.1.symm.trans h'.1)

/-! ## 2. What the actions keep -/

/-- The rows of `s'` are those of `s`, except under one key. -/
def Rekeyed (s s' : World) (key : ScopedKey) (entry : Option Row) : Prop :=
  ∀ k, s'.index.get? k = if k = key then entry else s.index.get? k

theorem Rekeyed.other {key : ScopedKey} {entry : Option Row} (h : Rekeyed s s' key entry)
    {loc : Loc} (hne : host.scopedKey loc ≠ key) (row : Row) :
    RowAt host s' loc row ↔ RowAt host s loc row := by
  unfold RowAt
  rw [h, if_neg hne]

/-- The files that `Indexed` speaks of, besides the index, are as they were. -/
structure SameFiles (s s' : World) : Prop where
  manifest : s'.manifest = s.manifest
  owner : s'.owner = s.owner
  sessionDir : s'.sessionDir = s.sessionDir
  inventory : s'.inventory = s.inventory
  releases : s'.releases = s.releases

/-- Writing a new row of this transaction. -/
theorem Indexed.setRow (h : Indexed host s₀ s) {loc : Loc} {entry : Row}
    (hindex : Rekeyed s s' (host.scopedKey loc) (some entry)) (hfiles : SameFiles s s')
    (hroot : entry.root = loc.root) (hbirth : entry.birth = s.releases)
    (hinst : entry.instanceId = none) (hinv : s.inventory loc = none)
    (hbare : ∀ row, s.index.get? (host.scopedKey loc) = some row →
      s.manifest (row.loc (host.scopedKey loc)) = none) :
    Indexed host s₀ s' ∧ Onward host s s' := by
  have hown : ∀ {l : Loc} {row : Row}, host.scopedKey l = host.scopedKey loc →
      RowAt host s' l row → row = entry ∧ l = loc := by
    intro l row hkey hrow
    have hentry : row = entry := by
      have := hrow.1
      rw [hkey, hindex, if_pos rfl] at this
      exact (Option.some.inj this).symm
    refine ⟨hentry, ?_⟩
    have hlname : l.name = loc.name := congrArg ScopedKey.name hkey
    obtain ⟨lroot, lname⟩ := l
    obtain ⟨root, name⟩ := loc
    have hlroot : row.root = lroot := hrow.2
    simp only at hlname hroot
    rw [← hlroot, hentry, hroot, hlname]
  refine ⟨⟨fun k r hr => ?_, fun k r hr => ?_, fun l m b hm hb => ?_, fun l r t m hr ht hm => ?_,
    fun l r hr ht => ?_, fun l m ho => ?_, fun l hl => ?_⟩,
    ⟨Nat.le_of_eq hfiles.releases.symm, fun l b hb hd r hr hrb => ?_, fun l b hb ha r hr => ?_⟩⟩
  · rw [hindex] at hr
    split at hr
    · rename_i hk
      cases hr
      subst hk
      simp [Row.loc, Host.scopedKey, hroot]
    · exact h.keyed k r hr
  · rw [hindex] at hr
    rw [hfiles.releases]
    split at hr
    · cases hr
      exact Nat.le_of_eq hbirth
    · exact h.birth k r hr
  · rw [hfiles.manifest] at hm
    obtain ⟨r, hr, hrb⟩ := h.written l m b hm hb
    by_cases hkey : host.scopedKey l = host.scopedKey loc
    · -- the row that is replaced has no manifest
      have hnone := hbare r (hkey ▸ hr.1)
      rw [← hkey, hr.loc_eq, hm] at hnone
      cases hnone
    · exact ⟨r, (hindex.other hkey r).mpr hr, hrb⟩
  · by_cases hkey : host.scopedKey l = host.scopedKey loc
    · rw [(hown hkey hr).1, hinst] at ht
      cases ht
    · rw [hfiles.manifest] at hm
      rw [hfiles.owner]
      exact h.owned l r t m ((hindex.other hkey r).mp hr) ht hm
  · rw [hfiles.inventory]
    by_cases hkey : host.scopedKey l = host.scopedKey loc
    · rw [(hown hkey hr).2]
      exact hinv
    · exact h.unowned l r ((hindex.other hkey r).mp hr) ht
  · rw [hfiles.manifest]
    exact h.kept l m ho
  · rw [hfiles.sessionDir]
    exact h.housed l (hfiles.manifest ▸ hl)
  · by_cases hkey : host.scopedKey l = host.scopedKey loc
    · rw [(hown hkey hr).1, hbirth] at hrb
      exact absurd hrb.symm (Nat.ne_of_lt hb)
    · rw [hfiles.manifest]
      exact hd r ((hindex.other hkey r).mp hr) hrb
  · by_cases hkey : host.scopedKey l = host.scopedKey loc
    · rw [(hown hkey hr).1, hbirth]
      exact (Nat.ne_of_lt hb).symm
    · exact ha r ((hindex.other hkey r).mp hr)

/-- Dropping rows that are not their manifests'. -/
theorem Indexed.dropRows (h : Indexed host s₀ s) (hfiles : SameFiles s s')
    (hsub : ∀ key row, s'.index.get? key = some row → s.index.get? key = some row)
    (hbare : ∀ key row m, s.index.get? key = some row → s'.index.get? key = none →
      s.manifest (row.loc key) = some m → m.birth ≠ some row.birth) :
    Indexed host s₀ s' ∧ Onward host s s' ∧ (RowsOwn host s → RowsOwn host s') := by
  have hat : ∀ {l : Loc} {row : Row}, RowAt host s' l row → RowAt host s l row :=
    fun hrow => ⟨hsub _ _ hrow.1, hrow.2⟩
  refine ⟨⟨fun k r hr => h.keyed k r (hsub k r hr), fun k r hr => ?_, fun l m b hm hb => ?_,
    fun l r t m hr ht hm => ?_, fun l r hr ht => ?_, fun l m ho => ?_, fun l hl => ?_⟩,
    ⟨Nat.le_of_eq hfiles.releases.symm, fun l b hb hd r hr hrb => ?_,
    fun l b hb ha r hr => ha r (hat hr)⟩, fun hown l r m hr hm => ?_⟩
  · rw [hfiles.releases]
    exact h.birth k r (hsub k r hr)
  · rw [hfiles.manifest] at hm
    obtain ⟨r, hr, hrb⟩ := h.written l m b hm hb
    cases hget : s'.index.get? (host.scopedKey l) with
    | some r' =>
      obtain rfl : r' = r := Option.some.inj ((hsub _ _ hget).symm.trans hr.1)
      exact ⟨r', ⟨hget, hr.2⟩, hrb⟩
    | none =>
      refine absurd (hb.trans (congrArg some hrb.symm)) (hbare _ r m hr.1 hget ?_)
      rw [hr.loc_eq]
      exact hm
  · rw [hfiles.manifest] at hm
    rw [hfiles.owner]
    exact h.owned l r t m (hat hr) ht hm
  · rw [hfiles.inventory]
    exact h.unowned l r (hat hr) ht
  · rw [hfiles.manifest]
    exact h.kept l m ho
  · rw [hfiles.sessionDir]
    exact h.housed l (hfiles.manifest ▸ hl)
  · rw [hfiles.manifest]
    exact hd r (hat hr) hrb
  · rw [hfiles.manifest] at hm
    exact hown l r m (hat hr) hm

/-- Dropping a row that is not its manifest's. -/
theorem Indexed.eraseRow (h : Indexed host s₀ s) {key : ScopedKey}
    (hindex : Rekeyed s s' key none) (hfiles : SameFiles s s')
    (hbare : ∀ row m, s.index.get? key = some row → s.manifest (row.loc key) = some m →
      m.birth ≠ some row.birth) :
    Indexed host s₀ s' ∧ Onward host s s' ∧ (RowsOwn host s → RowsOwn host s') := by
  refine h.dropRows hfiles (fun k row hrow => ?_) (fun k row m hrow hnone hm => ?_)
  · rw [hindex] at hrow
    split at hrow
    · cases hrow
    · exact hrow
  · by_cases hk : k = key
    · subst hk
      exact hbare row m hrow hm
    · rw [hindex, if_neg hk, hrow] at hnone
      cases hnone

/-- Writing a row again, for the same session and transaction. -/
theorem Indexed.replaceRow (h : Indexed host s₀ s) {key : ScopedKey} {row entry : Row}
    (hrow : s.index.get? key = some row)
    (hindex : Rekeyed s s' key (some entry)) (hfiles : SameFiles s s')
    (hroot : entry.root = row.root) (hbirth : entry.birth = row.birth)
    (howned : ∀ t m, entry.instanceId = some t → s.manifest (row.loc key) = some m →
      m.birth = some row.birth ∧ ∀ t', s.owner (row.loc key) = some t' → t' = t)
    (hnone : entry.instanceId = none → row.instanceId = none)
    (hdead : ∀ b, b < s.releases → entry.birth = b → entry.instanceId = row.instanceId) :
    Indexed host s₀ s' ∧ Onward host s s' ∧ (RowsOwn host s → RowsOwn host s') := by
  -- a row of `s'` is the new one, or a row of `s`
  have hcases : ∀ {l : Loc} {r : Row}, RowAt host s' l r →
      (r = entry ∧ host.scopedKey l = key ∧ RowAt host s l row) ∨ RowAt host s l r := by
    intro l r hr
    by_cases hkey : host.scopedKey l = key
    · have hr' := hr.1
      rw [hindex, if_pos hkey] at hr'
      cases hr'
      exact .inl ⟨rfl, hkey, hkey ▸ hrow, hroot.symm.trans hr.2⟩
    · exact .inr ((hindex.other hkey r).mp hr)
  refine ⟨⟨fun k r hr => ?_, fun k r hr => ?_, fun l m b hm hb => ?_, fun l r t m hr ht hm => ?_,
    fun l r hr ht => ?_, fun l m ho => ?_, fun l hl => ?_⟩, ⟨Nat.le_of_eq hfiles.releases.symm,
    fun l b hb hd r hr hrb => ?_, fun l b hb ha r hr => ?_⟩, fun hown l r m hr hm => ?_⟩
  · rw [hindex] at hr
    split at hr
    · rename_i hk
      cases hr
      subst hk
      have hold := h.keyed k row hrow
      simpa [Row.loc, Host.scopedKey, hroot] using hold
    · exact h.keyed k r hr
  · rw [hindex] at hr
    rw [hfiles.releases]
    split at hr
    · cases hr
      exact hbirth ▸ h.birth key row hrow
    · exact h.birth k r hr
  · rw [hfiles.manifest] at hm
    obtain ⟨r, hr, hrb⟩ := h.written l m b hm hb
    by_cases hkey : host.scopedKey l = key
    · have heq : r = row := Option.some.inj (hr.1.symm.trans (hkey.symm ▸ hrow))
      refine ⟨entry, ⟨by rw [hindex, if_pos hkey], ?_⟩, ?_⟩
      · rw [hroot, ← heq]; exact hr.2
      · rw [hbirth, ← heq]; exact hrb
    · exact ⟨r, (hindex.other hkey r).mpr hr, hrb⟩
  · rw [hfiles.manifest] at hm
    rw [hfiles.owner]
    rcases hcases hr with ⟨rfl, hkey, hold⟩ | hold
    · have hloc := hold.loc_eq
      rw [hkey] at hloc
      rw [hbirth]
      rw [← hloc] at hm ⊢
      exact howned t m ht hm
    · exact h.owned l r t m hold ht hm
  · rw [hfiles.inventory]
    rcases hcases hr with ⟨rfl, -, hold⟩ | hold
    · exact h.unowned l row hold (hnone ht)
    · exact h.unowned l r hold ht
  · rw [hfiles.manifest]
    exact h.kept l m ho
  · rw [hfiles.sessionDir]
    exact h.housed l (hfiles.manifest ▸ hl)
  · rw [hfiles.manifest]
    rcases hcases hr with ⟨rfl, -, hold⟩ | hold
    · rw [hdead b hb hrb]
      exact hd row hold (hbirth.symm.trans hrb)
    · exact hd r hold hrb
  · rcases hcases hr with ⟨rfl, -, hold⟩ | hold
    · exact hbirth ▸ ha row hold
    · exact ha r hold
  · rw [hfiles.manifest] at hm
    rcases hcases hr with ⟨rfl, -, hold⟩ | hold
    · exact hbirth ▸ hown l row m hold hm
    · exact hown l r m hold hm

/-- The index is as it was. -/
theorem RowAt.of_index (hindex : s'.index = s.index) {loc : Loc} {row : Row} :
    RowAt host s' loc row ↔ RowAt host s loc row := by
  unfold RowAt
  rw [hindex]

/-- Writing the manifest of this transaction under its row. -/
theorem Indexed.writeManifest (h : Indexed host s₀ s) (s' : World) {loc : Loc} {row : Row} {text : String}
    (hrow : RowAt host s loc row) (hbirth : row.birth = s.releases)
    (hinst : row.instanceId = none) (hnone : s.manifest loc = none)
    (hman : s'.manifest = Function.update s.manifest loc (some ⟨text, some row.birth⟩))
    (hindex : s'.index = s.index) (hown : s'.owner = s.owner)
    (hinv : s'.inventory = s.inventory) (hrel : s'.releases = s.releases)
    (hdir : s'.sessionDir = s.sessionDir) (hloc : s.sessionDir loc = true) :
    Indexed host s₀ s' ∧ Onward host s s' ∧ (RowsOwn host s → RowsOwn host s') := by
  have hat : ∀ {l : Loc} {r : Row}, RowAt host s' l r ↔ RowAt host s l r := RowAt.of_index hindex
  have hupdate : ∀ l m, s'.manifest l = some m →
      (l = loc ∧ m.birth = some row.birth) ∨ s.manifest l = some m := by
    intro l m hm
    rw [hman] at hm
    by_cases hl : l = loc
    · subst hl
      rw [Function.update_self] at hm
      cases hm
      exact .inl ⟨rfl, rfl⟩
    · rw [Function.update_of_ne hl] at hm
      exact .inr hm
  refine ⟨⟨fun k r hr => h.keyed k r (hindex ▸ hr), fun k r hr => hrel ▸ h.birth k r (hindex ▸ hr),
    fun l m b hm hb => ?_, fun l r t m hr ht hm => ?_, fun l r hr ht => ?_, fun l m ho => ?_,
    fun l hl => ?_⟩,
    ⟨Nat.le_of_eq hrel.symm, fun l b hb hd r hr hrb => ?_,
      fun l b _ ha r hr => ha r (hat.mp hr)⟩, fun hrows l r m hr hm => ?_⟩
  · rcases hupdate l m hm with ⟨rfl, hmb⟩ | hold
    · exact ⟨row, hat.mpr hrow, Option.some.inj (hmb.symm.trans hb)⟩
    · obtain ⟨r, hr, hrb⟩ := h.written l m b hold hb
      exact ⟨r, hat.mpr hr, hrb⟩
  · rcases hupdate l m hm with ⟨rfl, -⟩ | hold
    · rw [hrow.unique (hat.mp hr)] at hinst
      rw [hinst] at ht
      cases ht
    · rw [hown]
      exact h.owned l r t m (hat.mp hr) ht hold
  · rw [hinv]
    exact h.unowned l r (hat.mp hr) ht
  · have hold := h.kept l m ho
    have hl : l ≠ loc := fun e => by
      rw [e, hnone] at hold
      cases hold
    rw [hman, Function.update_of_ne hl]
    exact hold
  · rw [hdir]
    cases hm : s'.manifest l with
    | none => exact absurd hm hl
    | some m =>
      rcases hupdate l m hm with ⟨rfl, -⟩ | hold
      · exact hloc
      · exact h.housed l (by rw [hold]; exact Option.some_ne_none m)
  · have hr := hat.mp hr
    have hl : l ≠ loc := fun e => by
      subst e
      rw [hrow.unique hr] at hbirth
      exact absurd (hrb.symm.trans hbirth) (Nat.ne_of_lt hb)
    rw [hman, Function.update_of_ne hl]
    exact hd r hr hrb
  · rcases hupdate l m hm with ⟨rfl, hmb⟩ | hold
    · rw [← hrow.unique (hat.mp hr)]
      exact hmb
    · exact hrows l r m (hat.mp hr) hold

/-- The index is as it was, and no file that `Indexed` speaks of says more
than before. -/
structure Less (host : Host) (s s' : World) : Prop where
  index : s'.index = s.index
  releases : s'.releases = s.releases
  manifest : ∀ l m', s'.manifest l = some m' → ∃ m, s.manifest l = some m ∧ m'.birth = m.birth
  orphan : ∀ l m, Orphan s l m → s'.manifest l = some m
  owner : ∀ l t, s'.manifest l ≠ none → s'.owner l = some t → s.owner l = some t
  inventory : ∀ l row, RowAt host s l row → row.instanceId = none → s.inventory l = none →
    s'.inventory l = none
  housed : ∀ l, s'.manifest l ≠ none → s'.sessionDir l = true

/-- Removing and creating files beside the index, and editing manifests. -/
theorem Indexed.less (h : Indexed host s₀ s) (hless : Less host s s') :
    Indexed host s₀ s' ∧ Onward host s s' ∧ (RowsOwn host s → RowsOwn host s') := by
  have hat : ∀ {l : Loc} {r : Row}, RowAt host s' l r ↔ RowAt host s l r :=
    RowAt.of_index hless.index
  refine ⟨⟨fun k r hr => h.keyed k r (hless.index ▸ hr),
    fun k r hr => hless.releases ▸ h.birth k r (hless.index ▸ hr), fun l m b hm hb => ?_,
    fun l r t m hr ht hm => ?_, fun l r hr ht => ?_, fun l m ho => ?_, hless.housed⟩,
    ⟨Nat.le_of_eq hless.releases.symm, fun l b hb hd r hr hrb => ?_,
      fun l b _ ha r hr => ha r (hat.mp hr)⟩, fun hrows l r m hr hm => ?_⟩
  · obtain ⟨m', hm', hmb⟩ := hless.manifest l m hm
    obtain ⟨r, hr, hrb⟩ := h.written l m' b hm' (hmb.symm.trans hb)
    exact ⟨r, hat.mpr hr, hrb⟩
  · obtain ⟨m', hm', hmb⟩ := hless.manifest l m hm
    obtain ⟨hbirth, hown⟩ := h.owned l r t m' (hat.mp hr) ht hm'
    exact ⟨hmb.trans hbirth, fun t' ht' =>
      hown t' (hless.owner l t' (by rw [hm]; exact Option.some_ne_none m) ht')⟩
  · exact hless.inventory l r (hat.mp hr) ht (h.unowned l r (hat.mp hr) ht)
  · exact hless.orphan l m ⟨h.kept l m ho, ho.2⟩
  · obtain ⟨hi, hm⟩ := hd r (hat.mp hr) hrb
    refine ⟨hi, ?_⟩
    cases hm' : s'.manifest l with
    | none => rfl
    | some m' =>
      obtain ⟨m, hm₁, -⟩ := hless.manifest l m' hm'
      rw [hm] at hm₁
      cases hm₁
  · obtain ⟨m', hm', hmb⟩ := hless.manifest l m hm
    exact hmb.trans (hrows l r m' (hat.mp hr) hm')

/-- The manifest of a row with an instance id is a transaction's. -/
theorem Indexed.not_orphan (h : Indexed host s₀ s) {loc : Loc} {row : Row} {t : InstanceId}
    {m : Manifest} (hrow : RowAt host s loc row) (hinst : row.instanceId = some t)
    (hm : s.manifest loc = some m) : m.birth ≠ none := by
  rw [(h.owned loc row t m hrow hinst hm).1]
  exact Option.some_ne_none _

/-- What a deletion does besides. -/
theorem Indexed.besides (h : Indexed host s₀ s) {loc : Loc} {row : Row} {t : InstanceId}
    (hrow : RowAt host s loc row) (hinst : row.instanceId = some t) (ha : Aside loc s s') :
    Indexed host s₀ s' ∧ Onward host s s' ∧ (RowsOwn host s → RowsOwn host s') := by
  refine h.less ⟨ha.index, ha.releases, fun l m hm => ?_, fun l m ho => ?_, fun l u hl hu => ?_,
    fun l r hr hnone hi => ?_, fun l hl => ?_⟩
  · rcases ha.manifest l with hsame | ⟨-, hnone⟩
    · exact ⟨m, hsame.symm.trans hm, rfl⟩
    · rw [hnone] at hm
      cases hm
  · rcases ha.manifest l with hsame | ⟨rfl, -⟩
    · exact hsame.trans ho.1
    · exact absurd ho.2 (h.not_orphan hrow hinst ho.1)
  · rcases ha.owner l with hsame | ⟨-, hnone⟩
    · exact hsame.symm.trans hu
    · rw [hnone] at hu
      cases hu
  · have hne : l ≠ loc := fun e => by
      subst e
      rw [hr.unique hrow, hinst] at hnone
      cases hnone
    exact (ha.inventory l hne).trans hi
  · rcases ha.sessionDir l with hsame | ⟨-, hnone⟩
    · rw [hsame]
      refine h.housed l fun hm => hl ?_
      rcases ha.manifest l with heq | ⟨-, hnone⟩
      · exact heq.trans hm
      · exact hnone
    · exact absurd hnone hl

/-! ## 3. The transactions -/

/-- A transaction keeps to `publication` and ends with `post`. -/
abbrev Keeps {α : Type} (host : Host) (strict : Prop) (s₀ : World)
    (post : Except SessionError α → World → Prop) (x : Txn α) (s : World) : Prop :=
  Section.Meets (publication host strict s₀) post x s

section Rules

variable {α β : Type} {post : Except SessionError β → World → Prop}

theorem keeps_read {g : World → α} {f : α → Txn β} (h : Indexed host s₀ s)
    (hraise : Sound host strict s → post (.error .fault) s)
    (hnext : Keeps host strict s₀ post (f (g s)) s) :
    Keeps host strict s₀ post (Locked.Txn.read (Sound host strict) .fault g >>= f) s :=
  Locked.Txn.Meets.read fun s₁ hs => by
    cases hs
    exact ⟨h, h.closed, fun hr s₁ hs => hs ▸ hraise hr, hnext⟩

theorem keeps_attempt {rel : World → α → World → Prop} {f : α → Txn β}
    (h : Indexed host s₀ s) (hraise : Sound host strict s → post (.error .fault) s)
    (hnext : ∀ a s', rel s a s' → Onward host s s' ∧
      (Sound host strict s' → post (.error .fault) s') ∧ Keeps host strict s₀ post (f a) s') :
    Keeps host strict s₀ post (Locked.Txn.attempt (Sound host strict) .fault rel >>= f) s :=
  Locked.Txn.Meets.attempt fun s₁ hs => by
    cases hs
    refine ⟨h, h.closed, fun hr s₁ hs => hs ▸ hraise hr, fun a s' ha => ?_⟩
    obtain ⟨hstep, hraise', hmeets⟩ := hnext a s' ha
    exact ⟨hstep, fun hr s₁ hs => hs ▸ hraise' hr, hmeets⟩

theorem keeps_write {g : World → World} {f : Unit → Txn β} (h : Indexed host s₀ s)
    (hstep : Onward host s (g s))
    (hraise : Sound host strict s → post (.error .fault) s)
    (hraise' : Sound host strict (g s) → post (.error .fault) (g s))
    (hnext : Keeps host strict s₀ post (f ()) (g s)) :
    Keeps host strict s₀ post (Locked.Txn.write (Sound host strict) .fault g >>= f) s :=
  keeps_attempt h hraise fun a s' ha => by
    cases ha
    exact ⟨hstep, hraise', hnext⟩

/-- A transaction that ends with an action. -/
theorem keeps_last {x : Txn β} (h : Keeps host strict s₀ post (x >>= pure) s) : Keeps host strict s₀ post x s := by
  rwa [bind_pure] at h

theorem keeps_pure {a : β} (h : post (.ok a) s) : Keeps host strict s₀ post (pure a) s :=
  fun _ hs => hs ▸ h

theorem keeps_throw {e : SessionError} (h : post (.error e) s) : Keeps host strict s₀ post (throw e) s :=
  fun _ hs => hs ▸ h

/-- One transaction after another. -/
theorem keeps_bind {x : Txn α} {f : α → Txn β}
    (h : Keeps host strict s₀ (fun r s' => match r with
      | .ok a => Keeps host strict s₀ post (f a) s'
      | .error e => post (.error e) s') x s) :
    Keeps host strict s₀ post (x >>= f) s := by
  refine Locked.Txn.Meets.bind (h.mono fun r s' hr => ?_)
  cases r with
  | ok a => exact hr
  | error e => exact fun s₁ hs => hs ▸ hr

theorem keeps_tryCatch {x : Txn β} {handler : SessionError → Txn β}
    (h : Keeps host strict s₀ (fun r s' => match r with
      | .ok a => post (.ok a) s'
      | .error e => Keeps host strict s₀ post (handler e) s') x s) :
    Keeps host strict s₀ post (tryCatch x handler) s := by
  refine Locked.Txn.Meets.tryCatch (h.mono fun r s' hr => ?_)
  cases r with
  | ok a => exact fun s₁ hs => hs ▸ hr
  | error e => exact hr

end Rules

/-- The states between transactions. -/
structure Settled (host : Host) (strict : Prop) (s₀ s : World) : Prop where
  indexed : Indexed host s₀ s
  sound : Sound host strict s

/-- What a creation ends with: if there was a bare row, it is gone, unless
the creation failed or was refused for its conversation. -/
def CreateDone (host : Host) (strict : Prop) (s₀ s : World) (loc : Loc) {α : Type} (r : Except SessionError α)
    (s' : World) : Prop :=
  Settled host strict s₀ s' ∧ ∀ b, b < s.releases → Dead host s loc b →
    r ≠ .error .fault → r ≠ .error .uuidAlreadyBound → Absent host s' loc b

/-- A row that is not there cannot be dead. -/
theorem Dead.absent {loc : Loc} {b : Nat} (h : Dead host s loc b)
    (hrow : ∀ row, RowAt host s loc row → row.instanceId ≠ none ∨ s.manifest loc ≠ none) :
    Absent host s loc b := by
  intro row hr hb
  obtain ⟨hi, hm⟩ := h row hr hb
  exact (hrow row hr).elim (absurd hi) (absurd hm)

/-- `reclaim` leaves an index without a live row under the key. -/
theorem reclaim_keeps {post : Except SessionError IndexData → World → Prop}
    (h : Indexed host s₀ s) {loc : Loc}
    (hraise : Sound host strict s → post (.error .fault) s)
    (hexists : ∀ row m, s.index.get? (host.scopedKey loc) = some row →
      s.manifest (row.loc (host.scopedKey loc)) = some m → post (.error .sessionExists) s)
    (hok : ∀ index : IndexData, (∀ k, index.get? k = if k = host.scopedKey loc then none
        else s.index.get? k) →
      (∀ row, s.index.get? (host.scopedKey loc) = some row →
        s.manifest (row.loc (host.scopedKey loc)) = none) → post (.ok index) s) :
    Keeps host strict s₀ post (reclaim (Sound host strict) s.index (host.scopedKey loc)) s := by
  unfold reclaim
  split
  · rename_i hnone
    refine keeps_pure (hok s.index (fun k => ?_) (fun row hr => ?_))
    · split
      · rename_i hk
        rw [hk, hnone]
      · rfl
    · rw [hnone] at hr
      cases hr
  · rename_i existing hsome
    refine keeps_read h hraise ?_
    cases hm : s.manifest (existing.loc (host.scopedKey loc)) with
    | some m =>
      rw [Option.isSome_some, if_pos rfl]
      exact keeps_throw (hexists existing m hsome hm)
    | none =>
      rw [Option.isSome_none, if_neg Bool.false_ne_true]
      refine keeps_pure (hok _ (fun k => Dict.get?_erase _ _ _) (fun row hr => ?_))
      rw [hsome] at hr
      cases hr
      exact hm

/-- A creation in a transaction that started in `s` has written its row. -/
structure Publishing (host : Host) (s₀ s : World) (loc : Loc) (s' : World) : Prop where
  indexed : Indexed host s₀ s'
  releases : s'.releases = s.releases
  row : ∃ row, RowAt host s' loc row ∧ row.birth = s.releases
  others : ∀ key, key ≠ host.scopedKey loc → s'.index.get? key = s.index.get? key
  manifests : ∀ l, l ≠ loc → s'.manifest l = s.manifest l
  /-- the manifest of the session is as it was, or of this transaction -/
  manifest : s'.manifest loc = s.manifest loc ∨
    (s.manifest loc = none ∧ ∃ m, s'.manifest loc = some m ∧ m.birth = some s.releases)

theorem Publishing.rowAt {loc : Loc} (h : Publishing host s₀ s loc s') {l : Loc} {row : Row}
    (hrow : RowAt host s' l row) :
    (l = loc ∧ row.birth = s.releases) ∨ (l ≠ loc ∧ RowAt host s l row) := by
  obtain ⟨own, hown, hbirth⟩ := h.row
  by_cases hkey : host.scopedKey l = host.scopedKey loc
  · have heq : row = own := Option.some.inj (hrow.1.symm.trans (hkey ▸ hown.1))
    subst heq
    have hl : l = loc := by rw [← hrow.loc_eq, ← hown.loc_eq, hkey]
    exact .inl ⟨hl, hbirth⟩
  · refine .inr ⟨fun e => hkey (congrArg host.scopedKey e), ?_, hrow.2⟩
    rw [← h.others _ hkey]
    exact hrow.1

/-- Every other row is still its own manifest's, and so is the new one
unless a manifest was in its place. -/
theorem Publishing.rowsOwn {loc : Loc} (h : Publishing host s₀ s loc s')
    (hrows : RowsOwn host s) (hnone : s.manifest loc = none) : RowsOwn host s' := by
  intro l row m hrow hm
  rcases h.rowAt hrow with ⟨rfl, hbirth⟩ | ⟨hl, hold⟩
  · rcases h.manifest with hman | ⟨-, m', hman, hmb⟩
    · rw [hman, hnone] at hm
      cases hm
    · rw [hman] at hm
      cases hm
      rw [hmb, hbirth]
  · rw [h.manifests l hl] at hm
    exact hrows l row m hold hm

theorem Publishing.absent {loc : Loc} (h : Publishing host s₀ s loc s') {b : Nat}
    (hb : b < s.releases) : Absent host s' loc b := by
  intro row hrow
  rcases h.rowAt hrow with ⟨-, hbirth⟩ | ⟨hl, -⟩
  · exact hbirth ▸ (Nat.ne_of_lt hb).symm
  · exact absurd rfl hl

/-- Such a creation is done when every row is its manifest's own. -/
theorem Publishing.done {α : Type} {loc : Loc} (h : Publishing host s₀ s loc s')
    (hrows : Sound host strict s') (r : Except SessionError α) : CreateDone host strict s₀ s loc r s' :=
  ⟨⟨h.indexed, hrows⟩, fun _ hb _ _ _ => h.absent hb⟩

/-- Dropping the row, which may fail where it may be left behind. -/
theorem compensateLocked_keeps {loc : Loc} {post : Except SessionError Unit → World → Prop}
    (h : Publishing host s₀ s loc s') (hrows : Sound host strict s) {index : IndexData}
    (hindex : ∀ k, k ≠ host.scopedKey loc → index.get? k = s.index.get? k)
    (hold : ∀ m, s'.manifest loc = some m → m.birth = none)
    (hpost : ∀ s'', CreateDone (α := Unit) host strict s₀ s loc (.error .sessionExists) s'' →
      post (.ok ()) s'') :
    Keeps host strict s₀ post (compensateLocked (Sound host strict) index (host.scopedKey loc)) s' := by
  have hrekeyed : Rekeyed s' { s' with index := index.erase (host.scopedKey loc) }
      (host.scopedKey loc) none := by
    intro k
    show (index.erase _).get? k = _
    rw [Dict.get?_erase]
    split
    · rfl
    · rename_i hk
      rw [hindex k hk, h.others k hk]
  obtain ⟨hind, hstep, -⟩ := h.indexed.eraseRow hrekeyed ⟨rfl, rfl, rfl, rfl, rfl⟩ (fun row m hrow hm => by
    have hat := h.indexed.rowAt hrow
    obtain ⟨own, hown, -⟩ := h.row
    have heq : row = own := Option.some.inj (hrow.symm.trans hown.1)
    rw [heq, hown.loc_eq] at hm
    rw [hold m hm]
    rintro ⟨⟩)
  have hafter : CreateDone (α := Unit) host strict s₀ s loc (.error .sessionExists)
      { s' with index := index.erase (host.scopedKey loc) } := by
    have hat : ∀ {l row}, RowAt host { s' with index := index.erase (host.scopedKey loc) } l row →
        l ≠ loc ∧ RowAt host s l row := by
      intro l row hrow
      by_cases hkey : host.scopedKey l = host.scopedKey loc
      · have := hrow.1
        rw [hrekeyed, if_pos hkey] at this
        cases this
      · rcases h.rowAt ((hrekeyed.other hkey row).mp hrow) with ⟨rfl, -⟩ | hother
        · exact absurd rfl hkey
        · exact hother
    refine ⟨⟨hind, fun hs l row m hrow hm => ?_⟩,
      fun b _ _ _ _ row hrow => absurd rfl (hat hrow).1⟩
    obtain ⟨hl, hold'⟩ := hat hrow
    exact hrows hs l row m hold' ((h.manifests l hl).symm.trans hm)
  refine keeps_tryCatch (keeps_last (keeps_write h.indexed hstep (fun hr => ?_) (fun _ => ?_) ?_))
  · exact keeps_pure (hpost s' (h.done hr _))
  · exact keeps_pure (hpost _ hafter)
  · exact keeps_pure (hpost _ hafter)

theorem CreateDone.any {α β : Type} {loc : Loc} {s' : World}
    (h : CreateDone (α := α) host strict s₀ s loc (.error .sessionExists) s')
    (r : Except SessionError β) : CreateDone host strict s₀ s loc r s' :=
  ⟨h.1, fun b hb hd _ _ => h.2 b hb hd nofun nofun⟩

/-- A manifest that was there before the row was is no transaction's. -/
theorem Indexed.orphan_birth (h : Indexed host s₀ s) {loc : Loc} {m : Manifest}
    (hbare : ∀ row, s.index.get? (host.scopedKey loc) = some row →
      s.manifest (row.loc (host.scopedKey loc)) = none)
    (hm : s.manifest loc = some m) : m.birth = none := by
  cases hb : m.birth with
  | none => rfl
  | some b =>
    obtain ⟨row, hrow, -⟩ := h.written loc m b hm hb
    have hnone := hbare row hrow.1
    rw [hrow.loc_eq, hm] at hnone
    cases hnone

/-- What the handler does to the row of a creation that raised. -/
theorem unwind_keeps {loc : Loc} (h : Publishing host s₀ s loc s') (hrows : Sound host strict s)
    {index : IndexData} (hindex : ∀ k, k ≠ host.scopedKey loc → index.get? k = s.index.get? k)
    (horphan : ∀ m, s.manifest loc = some m → m.birth = none) (e : SessionError) :
    Keeps host strict s₀ (CreateDone host strict s₀ s loc)
      (unwind (Sound host strict) index (host.scopedKey loc) loc (s.manifest loc).isSome e) s' := by
  unfold unwind
  cases hm : s.manifest loc with
  | some m =>
    rw [Option.isSome_some, if_pos rfl]
    refine keeps_bind (compensateLocked_keeps h hrows hindex (fun m' hm' => ?_)
      fun s'' hdone => keeps_throw (hdone.any _))
    rcases h.manifest with hman | ⟨hnone, -⟩
    · rw [hman] at hm'
      exact horphan m' hm'
    · rw [hm] at hnone
      cases hnone
  | none =>
    rw [Option.isSome_none, if_neg Bool.false_ne_true]
    have hown : Sound host strict s' := fun hs => h.rowsOwn (hrows hs) hm
    refine keeps_read h.indexed (fun hr => h.done hr _) ?_
    split
    · exact keeps_throw (h.done hown _)
    · rename_i hnone
      refine keeps_bind (compensateLocked_keeps h hrows hindex (fun m' hm' => ?_)
        fun s'' hdone => keeps_throw (hdone.any _))
      rw [hm'] at hnone
      exact absurd rfl hnone

/-- A creation goes on without touching the index. -/
theorem Publishing.next {loc : Loc} {s'' : World} (h : Publishing host s₀ s loc s')
    (hind : Indexed host s₀ s'') (hindex : s''.index = s'.index)
    (hrel : s''.releases = s'.releases) (hother : ∀ l, l ≠ loc → s''.manifest l = s'.manifest l)
    (hman : s''.manifest loc = s'.manifest loc ∨ (s.manifest loc = none ∧
      ∃ m, s''.manifest loc = some m ∧ m.birth = some s.releases)) :
    Publishing host s₀ s loc s'' where
  indexed := hind
  releases := hrel.trans h.releases
  row := h.row.imp fun _ hr => ⟨(RowAt.of_index hindex).mpr hr.1, hr.2⟩
  others key hk := hindex ▸ h.others key hk
  manifests l hl := (hother l hl).trans (h.manifests l hl)
  manifest := hman.elim (fun heq => heq ▸ h.manifest) .inr

end MultiForge.Session
