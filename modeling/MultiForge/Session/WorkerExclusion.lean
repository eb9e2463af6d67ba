/-
MultiForge.Session.WorkerExclusion — a session is not taken away from under
its workers.

`Exclusive` holds in every state of every run, whatever fails: whoever
holds a lease has a session with its row, manifest and owner file, and no
deletion of it is under way. An instance is named at one place only, by a
row, an owner file or an inventory, and what names it only gets less
(`Dwindles`). So an instance that a deletion has removed has no worker any
more, and will have none.
-/
import MultiForge.Lib.Interruptible
import MultiForge.Session.PublicationRuns
import MultiForge.Session.Workers

namespace MultiForge.Session

open Locked

variable (host : Host) (roots : String → Prop)

/-! ## 1. What holds -/

/-- Something at a place names an instance. -/
inductive Names (s : World) (t : InstanceId) : Loc → Prop
  | row {key : ScopedKey} {row : Row} : s.index.get? key = some row → row.instanceId = some t →
      Names s t (row.loc key)
  | owner {loc : Loc} : s.owner loc = some t → Names s t loc
  | inventory {loc : Loc} {plan : DeletionPlan} : s.inventory loc = some plan →
      plan.instanceId = some t → Names s t loc

/-- The session of an instance is there under a key, and no deletion of it
is under way. -/
structure Backs (s : World) (t : InstanceId) (key : ScopedKey) (row : Row) : Prop where
  indexed : s.index.get? key = some row
  named : row.instanceId = some t
  manifest : s.manifest (row.loc key) ≠ none
  owner : s.owner (row.loc key) = some t
  inventory : s.inventory (row.loc key) = none

/-- What holds in every state. -/
structure Exclusive (s : World) : Prop where
  rooted : ∀ key row, s.index.get? key = some row →
    roots row.root ∧ host.scopedKey (row.loc key) = key
  issued : ∀ t loc, Names s t loc → t ∈ s.issued
  placed : ∀ t loc loc', Names s t loc → Names s t loc' → loc = loc'
  housed : ∀ loc, s.manifest loc ≠ none ∨ s.owner loc ≠ none → s.sessionDir loc = true
  leased : ∀ lease ∈ s.leases, ∃ key row, Backs s lease.instanceId key row

/-- What names an instance that was given out only gets less. -/
structure Dwindles (s s' : World) : Prop where
  issued : ∀ t ∈ s.issued, t ∈ s'.issued
  names : ∀ t ∈ s.issued, ∀ loc, Names s' t loc → Names s t loc
  owner : ∀ t ∈ s.issued, ∀ loc, s'.owner loc = some t → s.owner loc = some t

/-- What can change outside of the lock: leases and inventories go, and
content that does not matter here. -/
structure Shrunk (s s' : World) : Prop where
  index : s'.index = s.index
  sessionDir : s'.sessionDir = s.sessionDir
  manifest : s'.manifest = s.manifest
  owner : s'.owner = s.owner
  issued : s'.issued = s.issued
  inventory : ∀ loc, s'.inventory loc = s.inventory loc ∨ s'.inventory loc = none
  leases : ∀ lease ∈ s'.leases, lease ∈ s.leases

variable {host roots} {s s' s'' : World}

theorem Dwindles.refl (s : World) : Dwindles s s := ⟨fun _ h => h, fun _ _ _ h => h, fun _ _ _ h => h⟩

theorem Dwindles.trans (h : Dwindles s s') (h' : Dwindles s' s'') : Dwindles s s'' where
  issued t ht := h'.issued t (h.issued t ht)
  names t ht loc hn := h.names t ht loc (h'.names t (h.issued t ht) loc hn)
  owner t ht loc ho := h.owner t ht loc (h'.owner t (h.issued t ht) loc ho)

theorem Shrunk.refl (s : World) : Shrunk s s :=
  ⟨rfl, rfl, rfl, rfl, rfl, fun _ => .inl rfl, fun _ h => h⟩

theorem Shrunk.trans (h : Shrunk s s') (h' : Shrunk s' s'') : Shrunk s s'' where
  index := h'.index.trans h.index
  sessionDir := h'.sessionDir.trans h.sessionDir
  manifest := h'.manifest.trans h.manifest
  owner := h'.owner.trans h.owner
  issued := h'.issued.trans h.issued
  inventory loc := by
    rcases h'.inventory loc with he | he
    · rw [he]
      exact h.inventory loc
    · exact .inr he
  leases lease hl := h.leases lease (h'.leases lease hl)

theorem Shrunk.names (h : Shrunk s s') {t : InstanceId} {loc : Loc} (hn : Names s' t loc) :
    Names s t loc := by
  cases hn with
  | row hrow ht => exact .row (h.index ▸ hrow) ht
  | owner ho => exact .owner (h.owner ▸ ho)
  | inventory hi ht =>
    rcases h.inventory loc with he | he
    · exact .inventory (he ▸ hi) ht
    · rw [he] at hi
      cases hi

theorem Shrunk.dwindles (h : Shrunk s s') : Dwindles s s' where
  issued _ ht := h.issued.symm ▸ ht
  names _ _ _ := h.names
  owner _ _ _ ho := h.owner ▸ ho

theorem Shrunk.backs (h : Shrunk s s') {t : InstanceId} {key : ScopedKey} {row : Row}
    (hb : Backs s t key row) : Backs s' t key row where
  indexed := h.index ▸ hb.indexed
  named := hb.named
  manifest := h.manifest ▸ hb.manifest
  owner := h.owner ▸ hb.owner
  inventory := by
    rcases h.inventory (row.loc key) with he | he
    · exact he.trans hb.inventory
    · exact he

theorem Exclusive.shrunk (h : Exclusive host roots s) (hs : Shrunk s s') : Exclusive host roots s' where
  rooted key row hrow := h.rooted key row (hs.index ▸ hrow)
  issued t loc hn := hs.issued.symm ▸ h.issued t loc (hs.names hn)
  placed t loc loc' hn hn' := h.placed t loc loc' (hs.names hn) (hs.names hn')
  housed loc ho := by
    rw [hs.manifest, hs.owner] at ho
    rw [hs.sessionDir]
    exact h.housed loc ho
  leased lease hl := by
    obtain ⟨key, row, hb⟩ := h.leased lease (hs.leases lease hl)
    exact ⟨key, row, hs.backs hb⟩

theorem shrunk_released (s : World) : Shrunk s (released s) :=
  ⟨rfl, rfl, rfl, rfl, rfl, fun _ => .inl rfl, fun _ h => h⟩

variable (host roots) in
/-- What the processes keep to: wherever they are cut short, the lock can be
released. -/
def exclusion : Discipline World where
  inv := Exclusive host roots
  free _ := True
  step := Dwindles
  quiet := Shrunk
  faulty _ := True
  release := released
  step_refl := Dwindles.refl
  step_trans := Dwindles.trans
  quiet_refl := Shrunk.refl
  quiet_trans := Shrunk.trans
  quiet_step := Shrunk.dwindles
  quiet_inv h hs := h.shrunk hs
  quiet_free _ _ _ := trivial
  release_step s := (shrunk_released s).dwindles

theorem exclusion_open : (exclusion host roots).Open :=
  fun s h => ⟨h, h.shrunk (shrunk_released s), trivial⟩

/-- A property that leases and inventories may shrink under. -/
theorem exclusive_keeping {P : World → Prop} (hP : ∀ s s', P s → Shrunk s s' → P s') :
    (exclusion host roots).Keeping fun s => Exclusive host roots s ∧ P s :=
  ⟨fun _ h => h.1, fun _ _ h hs => ⟨h.1.shrunk hs, hP _ _ h.2 hs⟩⟩

/-! ## 2. What the actions keep -/

/-- An action that names no instance that was given out. -/
theorem Exclusive.next (h : Exclusive host roots s) (s' : World) (loc : Loc)
    (hrooted : ∀ key row, s'.index.get? key = some row →
      roots row.root ∧ host.scopedKey (row.loc key) = key)
    (hissued : ∀ t ∈ s.issued, t ∈ s'.issued)
    (hnames : ∀ t l, Names s' t l → Names s t l ∨ (t ∉ s.issued ∧ t ∈ s'.issued ∧ l = loc))
    (howner : ∀ t ∈ s.issued, ∀ l, s'.owner l = some t → s.owner l = some t)
    (hhoused : ∀ l, s'.manifest l ≠ none ∨ s'.owner l ≠ none → s'.sessionDir l = true)
    (hleased : ∀ lease ∈ s'.leases, ∃ key row, Backs s' lease.instanceId key row) :
    Exclusive host roots s' ∧ Dwindles s s' := by
  have hold : ∀ {t : InstanceId}, t ∈ s.issued → ∀ l, Names s' t l → Names s t l := by
    intro t ht l hn
    rcases hnames t l hn with hn | ⟨hnew, -, -⟩
    · exact hn
    · exact absurd ht hnew
  refine ⟨⟨hrooted, fun t l hn => ?_, fun t l l' hn hn' => ?_, hhoused, hleased⟩,
    ⟨hissued, fun t ht => hold ht, howner⟩⟩
  · rcases hnames t l hn with hn | ⟨-, hin, -⟩
    · exact hissued t (h.issued t l hn)
    · exact hin
  · rcases hnames t l hn with hs | ⟨hnew, -, rfl⟩
    · exact h.placed t l l' hs (hold (h.issued t l hs) l' hn')
    · rcases hnames t l' hn' with hs' | ⟨-, -, rfl⟩
      · exact absurd (h.issued t l' hs') hnew
      · rfl

/-- Two rows of one place have one key. -/
theorem Exclusive.key_unique (h : Exclusive host roots s) {key key' : ScopedKey} {row row' : Row}
    (hrow : s.index.get? key = some row) (hrow' : s.index.get? key' = some row')
    (hloc : row.loc key = row'.loc key') : key = key' := by
  rw [← (h.rooted key row hrow).2, ← (h.rooted key' row' hrow').2, hloc]

/-- The place of a lease is the one that its session is at. -/
theorem Exclusive.backed (h : Exclusive host roots s) {lease : Lease} (hl : lease ∈ s.leases)
    {loc : Loc} (hn : Names s lease.instanceId loc) :
    s.manifest loc ≠ none ∧ s.owner loc = some lease.instanceId := by
  obtain ⟨key, row, hb⟩ := h.leased lease hl
  obtain rfl := h.placed _ _ _ hn (.row hb.indexed hb.named)
  exact ⟨hb.manifest, hb.owner⟩

/-- The row under a key is not of a session with workers. -/
def Spare (s : World) (key : ScopedKey) : Prop :=
  ∀ lease ∈ s.leases, ∀ row, s.index.get? key = some row → row.instanceId ≠ some lease.instanceId

/-- The session at a place has no workers. -/
def Vacant (s : World) (loc : Loc) : Prop := ∀ lease ∈ s.leases, ¬ Names s lease.instanceId loc

theorem Spare.shrunk {key : ScopedKey} (h : Spare s key) (hs : Shrunk s s') : Spare s' key :=
  fun lease hl row hrow => h lease (hs.leases lease hl) row (hs.index ▸ hrow)

theorem Vacant.shrunk {loc : Loc} (h : Vacant s loc) (hs : Shrunk s s') : Vacant s' loc :=
  fun lease hl hn => h lease (hs.leases lease hl) (hs.names hn)

/-- A session without a manifest has no workers. -/
theorem Exclusive.vacant (h : Exclusive host roots s) {loc : Loc} (hm : s.manifest loc = none) :
    Vacant s loc := fun _ hl hn => (h.backed hl hn).1 hm

theorem Exclusive.spare (h : Exclusive host roots s) {key : ScopedKey}
    (hm : ∀ row, s.index.get? key = some row → s.manifest (row.loc key) = none) : Spare s key :=
  fun _ hl row hrow ht => h.vacant (hm row hrow) _ hl (.row hrow ht)

/-- Writing the index: the rows that hold leases stay, and the new rows name
what was named. -/
theorem Exclusive.writeIndex (h : Exclusive host roots s) {index : IndexData}
    (hrooted : ∀ key row, index.get? key = some row →
      roots row.root ∧ host.scopedKey (row.loc key) = key)
    (hnames : ∀ key row t, index.get? key = some row → row.instanceId = some t →
      Names s t (row.loc key))
    (hkept : ∀ lease ∈ s.leases, ∀ key row, Backs s lease.instanceId key row →
      ∃ row', index.get? key = some row' ∧ row'.root = row.root ∧ row'.instanceId = row.instanceId) :
    Exclusive host roots { s with index := index } ∧ Dwindles s { s with index := index } := by
  refine h.next _ ⟨"", ""⟩ hrooted (fun _ ht => ht) (fun t l hn => .inl ?_)
    (fun _ _ _ ho => ho) h.housed (fun lease hl => ?_)
  · cases hn with
    | row hrow ht => exact hnames _ _ t hrow ht
    | owner ho => exact .owner ho
    | inventory hi ht => exact .inventory hi ht
  · obtain ⟨key, row, hb⟩ := h.leased lease hl
    obtain ⟨row', hrow', hroot, hinst⟩ := hkept lease hl key row hb
    have hloc : row'.loc key = row.loc key := by rw [Row.loc, Row.loc, hroot]
    refine ⟨key, row', hrow', hinst.trans hb.named, ?_, ?_, ?_⟩
    · rw [hloc]
      exact hb.manifest
    · rw [hloc]
      exact hb.owner
    · rw [hloc]
      exact hb.inventory

/-- Writing the index with another row under a key that holds no lease. -/
theorem Exclusive.setRow (h : Exclusive host roots s) (index : IndexData) {key : ScopedKey}
    (hspare : Spare s key) (hsame : ∀ k, k ≠ key → index.get? k = s.index.get? k)
    (hrooted : ∀ row, index.get? key = some row →
      roots row.root ∧ host.scopedKey (row.loc key) = key)
    (hnames : ∀ row t, index.get? key = some row → row.instanceId = some t →
      Names s t (row.loc key)) :
    Exclusive host roots { s with index := index } ∧ Dwindles s { s with index := index } := by
  refine h.writeIndex (fun k row hrow => ?_) (fun k row t hrow ht => ?_)
    (fun lease hl k row hb => ?_)
  · by_cases hk : k = key
    · subst hk
      exact hrooted row hrow
    · exact h.rooted k row (hsame k hk ▸ hrow)
  · by_cases hk : k = key
    · subst hk
      exact hnames row t hrow ht
    · exact .row (hsame k hk ▸ hrow) ht
  · by_cases hk : k = key
    · subst hk
      exact absurd hb.named (hspare lease hl row hb.indexed)
    · exact ⟨row, (hsame k hk).trans hb.indexed, rfl, rfl⟩

/-- Writing a row again, with the same place and instance. -/
theorem Exclusive.touchRow (h : Exclusive host roots s) {key : ScopedKey} {row entry : Row}
    (hrow : s.index.get? key = some row) (hroot : entry.root = row.root)
    (hinst : entry.instanceId = row.instanceId) :
    Exclusive host roots { s with index := s.index.set key entry } ∧
      Dwindles s { s with index := s.index.set key entry } := by
  have hloc : entry.loc key = row.loc key := by rw [Row.loc, Row.loc, hroot]
  have hget : ∀ k r, (s.index.set key entry).get? k = some r →
      (k = key ∧ r = entry) ∨ s.index.get? k = some r := by
    intro k r hr
    rw [Dict.get?_set] at hr
    split at hr
    · cases hr
      exact .inl ⟨by assumption, rfl⟩
    · exact .inr hr
  refine h.writeIndex (fun k r hr => ?_) (fun k r t hr ht => ?_) (fun lease hl k r hb => ?_)
  · rcases hget k r hr with ⟨rfl, rfl⟩ | hr
    · rw [hroot, hloc]
      exact h.rooted k row hrow
    · exact h.rooted k r hr
  · rcases hget k r hr with ⟨rfl, rfl⟩ | hr
    · rw [hloc]
      exact .row hrow (hinst ▸ ht)
    · exact .row hr ht
  · rw [Dict.get?_set]
    split
    · rename_i hk
      subst hk
      obtain rfl : r = row := Option.some.inj (hb.indexed.symm.trans hrow)
      exact ⟨entry, rfl, hroot, hinst⟩
    · exact ⟨r, hb.indexed, rfl, rfl⟩

/-- The files of a session without workers go. -/
theorem Exclusive.remove (h : Exclusive host roots s) {loc : Loc} (hr : Removes loc s s')
    (hvacant : Vacant s loc) : Exclusive host roots s' ∧ Dwindles s s' ∧ Vacant s' loc := by
  have howner : ∀ l t, s'.owner l = some t → s.owner l = some t := by
    intro l t ho
    rcases hr.owner l with he | ⟨-, he⟩
    · exact he ▸ ho
    · rw [he] at ho
      cases ho
  have hnames : ∀ t l, Names s' t l → Names s t l := by
    intro t l hn
    cases hn with
    | row hrow ht => exact .row (hr.index ▸ hrow) ht
    | owner ho => exact .owner (howner l t ho)
    | inventory hi ht => exact .inventory (hr.inventory ▸ hi) ht
  have hbacks : ∀ {t key row}, Backs s t key row → row.loc key ≠ loc → Backs s' t key row := by
    intro t key row hb hne
    refine ⟨hr.index ▸ hb.indexed, hb.named, ?_, ?_, hr.inventory ▸ hb.inventory⟩
    · rcases hr.manifest (row.loc key) with he | ⟨he, -⟩
      · exact he ▸ hb.manifest
      · exact absurd he hne
    · rcases hr.owner (row.loc key) with he | ⟨he, -⟩
      · exact he.trans hb.owner
      · exact absurd he hne
  obtain ⟨hx, hlater⟩ := h.next s' loc
    (fun key row hrow => h.rooted key row (hr.index ▸ hrow))
    (fun t ht => hr.issued.symm ▸ ht) (fun t l hn => .inl (hnames t l hn))
    (fun t _ l ho => howner l t ho)
    (fun l ho => by
      rcases hr.sessionDir l with he | ⟨-, hm, hnone⟩
      · rw [he]
        refine h.housed l (ho.imp (fun hm => ?_) fun ho => ?_)
        · rcases hr.manifest l with he' | ⟨-, he'⟩
          · exact he' ▸ hm
          · exact absurd he' hm
        · rcases hr.owner l with he' | ⟨-, he'⟩
          · exact he' ▸ ho
          · exact absurd he' ho
      · rcases ho with ho | ho
        · exact absurd hm ho
        · exact absurd hnone ho)
    (fun lease hl => by
      rw [hr.leases] at hl
      obtain ⟨key, row, hb⟩ := h.leased lease hl
      refine ⟨key, row, hbacks hb fun hloc => hvacant lease hl ?_⟩
      rw [← hloc]
      exact .row hb.indexed hb.named)
  exact ⟨hx, hlater, fun lease hl hn => hvacant lease (hr.leases ▸ hl) (hnames _ _ hn)⟩

/-- Directories and manifests come, and texts of manifests change. -/
theorem Exclusive.grow (h : Exclusive host roots s) (s' : World) (hindex : s'.index = s.index)
    (howner : s'.owner = s.owner) (hinventory : s'.inventory = s.inventory)
    (hleases : s'.leases = s.leases) (hissued : s'.issued = s.issued)
    (hmanifest : ∀ l, s.manifest l ≠ none → s'.manifest l ≠ none)
    (hhoused : ∀ l, s'.manifest l ≠ none ∨ s'.owner l ≠ none → s'.sessionDir l = true) :
    Exclusive host roots s' ∧ Dwindles s s' := by
  refine h.next s' ⟨"", ""⟩ (hindex ▸ h.rooted) (fun t ht => hissued.symm ▸ ht)
    (fun t l hn => .inl ?_) (fun t _ l ho => howner ▸ ho) hhoused (fun lease hl => ?_)
  · cases hn with
    | row hrow ht => exact .row (hindex ▸ hrow) ht
    | owner ho => exact .owner (howner ▸ ho)
    | inventory hi ht => exact .inventory (hinventory ▸ hi) ht
  · rw [hleases] at hl
    obtain ⟨key, row, hb⟩ := h.leased lease hl
    exact ⟨key, row, hindex ▸ hb.indexed, hb.named, hmanifest _ hb.manifest, howner ▸ hb.owner,
      hinventory ▸ hb.inventory⟩

/-- A new owner file gives out its instance. -/
theorem Exclusive.setOwner (h : Exclusive host roots s) {loc : Loc} {token : InstanceId}
    (hfresh : token ∉ s.issued) (hdir : s.sessionDir loc = true) (hvacant : Vacant s loc) :
    Exclusive host roots { s with
        owner := Function.update s.owner loc (some token)
        issued := token :: s.issued } ∧
      Dwindles s { s with
        owner := Function.update s.owner loc (some token)
        issued := token :: s.issued } := by
  refine h.next _ loc h.rooted (fun _ ht => List.mem_cons_of_mem _ ht) (fun t l hn => ?_)
    (fun t ht l ho => ?_) (fun l ho => ?_) (fun lease hl => ?_)
  · cases hn with
    | row hrow ht => exact .inl (.row hrow ht)
    | inventory hi ht => exact .inl (.inventory hi ht)
    | owner ho =>
      by_cases hll : l = loc
      · subst hll
        dsimp only at ho
        rw [Function.update_self] at ho
        cases ho
        exact .inr ⟨hfresh, List.mem_cons_self .., rfl⟩
      · dsimp only at ho
        rw [Function.update_of_ne hll] at ho
        exact .inl (.owner ho)
  · dsimp only at ho
    by_cases hll : l = loc
    · subst hll
      rw [Function.update_self] at ho
      cases ho
      exact absurd ht hfresh
    · rwa [Function.update_of_ne hll] at ho
  · dsimp only at ho ⊢
    by_cases hll : l = loc
    · subst hll
      exact hdir
    · rw [Function.update_of_ne hll] at ho
      exact h.housed l ho
  · obtain ⟨key, row, hb⟩ := h.leased lease hl
    refine ⟨key, row, hb.indexed, hb.named, hb.manifest, ?_, hb.inventory⟩
    have hne : row.loc key ≠ loc := by
      intro hloc
      refine hvacant lease hl ?_
      rw [← hloc]
      exact .row hb.indexed hb.named
    exact (Function.update_of_ne hne ..).trans hb.owner

/-- The inventory of a deletion names its instance where it is. -/
theorem Exclusive.setInventory (h : Exclusive host roots s) {loc : Loc} {plan : DeletionPlan}
    {token : InstanceId} (hplan : plan.instanceId = some token) (hn : Names s token loc)
    (hvacant : Vacant s loc) :
    Exclusive host roots { s with inventory := Function.update s.inventory loc (some plan) } ∧
      Dwindles s { s with inventory := Function.update s.inventory loc (some plan) } ∧
      Vacant { s with inventory := Function.update s.inventory loc (some plan) } loc := by
  have hnames : ∀ t l, Names { s with inventory := Function.update s.inventory loc (some plan) } t l →
      Names s t l := by
    intro t l hn'
    cases hn' with
    | row hrow ht => exact .row hrow ht
    | owner ho => exact .owner ho
    | inventory hi ht =>
      dsimp only at hi
      by_cases hll : l = loc
      · subst hll
        rw [Function.update_self] at hi
        cases hi
        cases hplan.symm.trans ht
        exact hn
      · rw [Function.update_of_ne hll] at hi
        exact .inventory hi ht
  obtain ⟨hx, hlater⟩ := h.next
    { s with inventory := Function.update s.inventory loc (some plan) } loc h.rooted (fun _ ht => ht)
    (fun t l hn' => .inl (hnames t l hn')) (fun _ _ _ ho => ho) h.housed (fun lease hl => by
      obtain ⟨key, row, hb⟩ := h.leased lease hl
      have hne : row.loc key ≠ loc := by
        intro hloc
        refine hvacant lease hl ?_
        rw [← hloc]
        exact .row hb.indexed hb.named
      exact ⟨key, row, hb.indexed, hb.named, hb.manifest, hb.owner,
        (Function.update_of_ne hne ..).trans hb.inventory⟩)
  exact ⟨hx, hlater, fun lease hl hn' => hvacant lease hl (hnames _ _ hn')⟩

/-- A lease of a session that is there. -/
theorem Exclusive.addLease (h : Exclusive host roots s) (lease : Lease) {key : ScopedKey} {row : Row}
    (hb : Backs s lease.instanceId key row) :
    Exclusive host roots { s with leases := lease :: s.leases } ∧
      Dwindles s { s with leases := lease :: s.leases } := by
  have hnames : ∀ t l, Names { s with leases := lease :: s.leases } t l → Names s t l := by
    intro t l hn
    cases hn with
    | row hrow ht => exact .row hrow ht
    | owner ho => exact .owner ho
    | inventory hi ht => exact .inventory hi ht
  refine h.next _ ⟨"", ""⟩ h.rooted (fun _ ht => ht) (fun t l hn => .inl (hnames t l hn))
    (fun _ _ _ ho => ho) h.housed (fun lease' hl => ?_)
  rcases List.mem_cons.mp hl with rfl | hl
  · exact ⟨key, row, hb.indexed, hb.named, hb.manifest, hb.owner, hb.inventory⟩
  · obtain ⟨key', row', hb'⟩ := h.leased lease' hl
    exact ⟨key', row', hb'.indexed, hb'.named, hb'.manifest, hb'.owner, hb'.inventory⟩

/-! ## 3. Reading and updating rows -/

variable (host roots) in
/-- A transaction keeps workers and deletions apart. -/
abbrev Safe {α : Type} (post : α → World → Prop) (x : Txn α) (s : World) : Prop :=
  Locked.Txn.Keeps (exclusion host roots) (Exclusive host roots) post x s

section Rules

variable {α β : Type} {post : β → World → Prop} {faulty : World → Prop}

theorem safe_pure (h : Exclusive host roots s) {b : β}
    (hpost : ∀ s₁, Shrunk s s₁ → Exclusive host roots s₁ → post b s₁) :
    Safe host roots post (pure b : Txn β) s :=
  .pure (exclusion host roots).keeping_inv h hpost

theorem safe_throw (h : Exclusive host roots s) {e : SessionError} :
    Safe host roots post (throw e : Txn β) s :=
  .throw (exclusion host roots).keeping_inv h

theorem safe_bind {x : Txn α} {f : α → Txn β}
    (h : Safe host roots (fun a s' => Safe host roots post (f a) s') x s) :
    Safe host roots post (x >>= f) s :=
  .bind (exclusion host roots).keeping_inv h

theorem safe_ofExcept (h : Exclusive host roots s) {r : Except SessionError α} {f : α → Txn β}
    (hnext : ∀ a, r = .ok a → Safe host roots post (f a) s) :
    Safe host roots post (MonadExcept.ofExcept r >>= f) s :=
  .ofExcept (exclusion host roots).keeping_inv h hnext

theorem safe_attempt (h : Exclusive host roots s) {rel : World → α → World → Prop}
    {f : α → Txn β} (hnext : ∀ s₁, Shrunk s s₁ → Exclusive host roots s₁ → ∀ a s', rel s₁ a s' →
      Exclusive host roots s' ∧ Dwindles s₁ s' ∧ Safe host roots post (f a) s') :
    Safe host roots post (Locked.Txn.attempt faulty .fault rel >>= f) s :=
  .attempt exclusion_open (exclusion host roots).keeping_inv h hnext

theorem safe_read (h : Exclusive host roots s) {g : World → α} {f : α → Txn β}
    (hnext : ∀ s₁, Shrunk s s₁ → Exclusive host roots s₁ → Safe host roots post (f (g s₁)) s₁) :
    Safe host roots post (Locked.Txn.read faulty .fault g >>= f) s :=
  .read exclusion_open (exclusion host roots).keeping_inv h hnext

theorem safe_write (h : Exclusive host roots s) {g : World → World} {f : Unit → Txn β}
    (hnext : ∀ s₁, Shrunk s s₁ → Exclusive host roots s₁ →
      Exclusive host roots (g s₁) ∧ Dwindles s₁ (g s₁) ∧ Safe host roots post (f ()) (g s₁)) :
    Safe host roots post (Locked.Txn.write faulty .fault g >>= f) s :=
  .write exclusion_open (exclusion host roots).keeping_inv h hnext

/-- What raises is taken for an answer. -/
theorem safe_tryCatch_pure {x : Txn β} {b : β} (h : Safe host roots (fun _ _ => True) x s) :
    Safe host roots (fun _ _ => True) (tryCatch x fun _ => pure b) s :=
  .tryCatch (h.mono (fun _ hk => hk) fun _ _ hk _ _ hs => ⟨hk.shrunk hs, trivial⟩)
    fun _ _ hk => safe_pure hk fun _ _ _ => trivial

/-- A row is written again, with the same place and instance. -/
theorem safe_touch (h : Exclusive host roots s) {index : IndexData} (hindex : s.index = index)
    {key : ScopedKey} {row : Row} (entry : Row) (hrow : index.get? key = some row)
    (hroot : entry.root = row.root) (hinst : entry.instanceId = row.instanceId)
    {f : Unit → Txn β} (hnext : ∀ s, Exclusive host roots s → Safe host roots post (f ()) s) :
    Safe host roots post (writeIndex faulty (index.set key entry) >>= f) s := by
  refine safe_write h fun s₁ hs₁ h₁ => ?_
  have hindex₁ : index = s₁.index := by rw [hs₁.index, hindex]
  rw [hindex₁] at hrow ⊢
  obtain ⟨h', hlater⟩ := h₁.touchRow hrow hroot hinst
  exact ⟨h', hlater, hnext _ h'⟩

theorem updateSession_safe {name now : String} {root : Option String}
    (h : Exclusive host roots s) :
    Safe host roots (fun _ _ => True) (updateSession host faulty name now root) s := by
  refine safe_read h fun s₁ _ h₁ => safe_ofExcept h₁ fun found hfound => ?_
  exact safe_touch h₁ rfl { found.2 with lastAccessedAt := now } (findRow_ok hfound) rfl rfl fun _ h' =>
    safe_pure h' fun _ _ _ => trivial

theorem updateUuid_safe {name claudeSessionId : String} {root : Option String}
    (h : Exclusive host roots s) :
    Safe host roots (fun _ _ => True) (updateUuid host faulty name claudeSessionId root) s := by
  refine safe_tryCatch_pure (safe_read h fun s₁ _ h₁ => ?_)
  cases hfound : findRowBestEffort host s₁.index name root with
  | none => exact safe_pure h₁ fun _ _ _ => trivial
  | some found =>
    exact .last (safe_touch h₁ rfl { found.2 with claudeSessionId := some claudeSessionId }
      (findRowBestEffort_some hfound) rfl rfl fun _ h' => safe_pure h' fun _ _ _ => trivial)

/-- Whether an instance is live, and what follows from the answer. -/
theorem instanceLive_safe {loc : Loc} {expected : InstanceId} {f : Bool → Txn β}
    (h : Exclusive host roots s)
    (hlive : ∀ s₁, Shrunk s s₁ → Exclusive host roots s₁ → s₁.inventory loc = none →
      s₁.manifest loc ≠ none → s₁.owner loc = some expected → Safe host roots post (f true) s₁)
    (hnot : ∀ s₁, Shrunk s s₁ → Exclusive host roots s₁ → Safe host roots post (f false) s₁) :
    Safe host roots post (instanceLive faulty loc expected >>= f) s := by
  unfold instanceLive
  refine safe_bind (safe_read h fun s₁ hs₁ h₁ => ?_)
  cases hp : s₁.inventory loc with
  | some plan => exact safe_pure h₁ fun s₂ hs₂ h₂ => hnot s₂ (hs₁.trans hs₂) h₂
  | none =>
    refine safe_read h₁ fun s₂ hs₂ h₂ => ?_
    cases hm : s₂.manifest loc with
    | none => exact safe_pure h₂ fun s₃ hs₃ h₃ => hnot s₃ ((hs₁.trans hs₂).trans hs₃) h₃
    | some m =>
      refine safe_read h₂ fun s₃ hs₃ h₃ => safe_pure h₃ fun s₄ hs₄ h₄ => ?_
      have hs := ((hs₁.trans hs₂).trans hs₃).trans hs₄
      by_cases ho : s₃.owner loc = some expected
      · rw [decide_eq_true ho]
        refine hlive s₄ hs h₄ ?_ ?_ (hs₄.owner ▸ ho)
        · rcases ((hs₂.trans hs₃).trans hs₄).inventory loc with he | he
          · exact he.trans hp
          · exact he
        · rw [(hs₃.trans hs₄).manifest, hm]
          exact Option.some_ne_none m
      · rw [decide_eq_false ho]
        exact hnot s₄ hs h₄

theorem updateCodexThread_safe {name threadId : String} {root : Option String}
    {expected : InstanceId} (h : Exclusive host roots s) :
    Safe host roots (fun _ _ => True)
      (updateCodexThread host faulty name threadId root expected) s := by
  refine safe_tryCatch_pure (safe_read h fun s₁ _ h₁ => ?_)
  cases hfound : findRowBestEffort host s₁.index name root with
  | none => exact safe_pure h₁ fun _ _ _ => trivial
  | some found =>
    show Safe host roots _ (ite _ _ _) s₁
    split
    · exact safe_pure h₁ fun _ _ _ => trivial
    · refine instanceLive_safe h₁ (fun s₂ hs₂ h₂ _ _ _ => ?_)
        fun _ _ h₂ => safe_pure h₂ fun _ _ _ => trivial
      exact safe_touch h₂ hs₂.index { found.2 with codexThreadId := some threadId }
        (findRowBestEffort_some hfound) rfl rfl fun _ h' =>
        safe_pure h' fun _ _ _ => trivial

theorem requiredLive_safe {f : Bool → Txn β} {index : IndexData} (h : Exclusive host roots s)
    (hnext : ∀ live s₁, Shrunk s s₁ → Exclusive host roots s₁ → Safe host roots post (f live) s₁) :
    ∀ required, Safe host roots post (requiredLive host faulty index required >>= f) s := by
  intro required
  induction required generalizing s with
  | nil => exact hnext true s (.refl s) h
  | cons entry rest ih =>
    obtain ⟨root, name, token⟩ := entry
    unfold requiredLive
    cases (resolveKeyStrict host index name (some root)).toOption.join with
    | none => exact hnext false s (.refl s) h
    | some key =>
      dsimp only
      cases index.get? key with
      | none => exact hnext false s (.refl s) h
      | some row =>
        dsimp only
        split
        · exact hnext false s (.refl s) h
        · rw [bind_assoc]
          refine instanceLive_safe h (fun s₁ hs₁ h₁ _ _ _ => ?_) fun s₁ hs₁ h₁ => hnext false s₁ hs₁ h₁
          exact ih h₁ fun live s₂ hs₂ h₂ => hnext live s₂ (hs₁.trans hs₂) h₂

/-- The callback of an instance transaction runs while the session is live. -/
theorem runSessionInstanceTxn_safe {name root : String} {expected : InstanceId}
    {required : List (String × String × InstanceId)} {callback : Loc → Txn Unit}
    (h : Exclusive host roots s) (hcallback : ∀ key row s₁, Exclusive host roots s₁ →
      Backs s₁ expected key row → Safe host roots (fun _ _ => True) (callback (row.loc key)) s₁) :
    Safe host roots (fun _ _ => True)
      (runSessionInstanceTxn host faulty name root expected required callback) s := by
  refine safe_read h fun s₁ _ h₁ => ?_
  cases hfound : findRow host s₁.index name (some root) with
  | error e => exact safe_pure h₁ fun _ _ _ => trivial
  | ok found =>
    show Safe host roots _ (ite _ _ _) s₁
    split
    · exact safe_pure h₁ fun _ _ _ => trivial
    · rename_i hinst
      refine instanceLive_safe h₁ (fun s₂ hs₂ h₂ hp hm ho => ?_)
        fun _ _ h₂ => safe_pure h₂ fun _ _ _ => trivial
      refine requiredLive_safe h₂ (fun live s₃ hs₃ h₃ => ?_) required
      cases live with
      | false => exact safe_pure h₃ fun _ _ _ => trivial
      | true =>
        have hb : Backs s₂ expected found.1 found.2 :=
          ⟨hs₂.index ▸ findRow_ok hfound, Decidable.not_not.mp hinst, hm, ho, hp⟩
        refine safe_bind ((hcallback _ _ s₃ h₃ (hs₃.backs hb)).mono (fun _ hk => hk)
          fun _ s₄ h₄ _ => ?_)
        exact safe_pure h₄ fun _ _ _ => trivial

/-- The prune drops rows of sessions without a manifest. -/
theorem pruneEach_safe {latest : IndexData} {f : IndexData × Bool → Txn β}
    (h : Exclusive host roots s) {stale : List ScopedKey}
    (hnext : ∀ r s₁, Shrunk s s₁ → Exclusive host roots s₁ →
      (∀ k row, latest.get? k = some row → r.1.get? k = some row ∨
        (r.1.get? k = none ∧ s.manifest (row.loc k) = none)) →
      (∀ k row, r.1.get? k = some row → latest.get? k = some row) →
      Safe host roots post (f r) s₁) :
    Safe host roots post (pruneEach faulty stale latest >>= f) s := by
  induction stale generalizing s latest f with
  | nil => exact hnext (latest, false) s (.refl s) h (fun _ _ hr => .inl hr) fun _ _ hr => hr
  | cons key rest ih =>
    unfold pruneEach
    cases hget : latest.get? key with
    | none => exact ih h hnext
    | some row =>
      dsimp only
      rw [bind_assoc]
      refine safe_read h fun s₁ hs₁ h₁ => ?_
      rw [bind_assoc]
      refine safe_read h₁ fun s₂ hs₂ h₂ => ?_
      have hs := hs₁.trans hs₂
      split
      · refine ih h₂ fun r s₃ hs₃ h₃ hkept hsub => hnext r s₃ (hs.trans hs₃) h₃ (fun k row' hr => ?_) hsub
        rw [← hs.manifest]
        exact hkept k row' hr
      · rename_i hstale
        have hnone : s.manifest (row.loc key) = none := by
          rw [← hs₁.manifest]
          cases hm : s₁.manifest (row.loc key) with
          | none => rfl
          | some m => exact absurd (by rw [hm]; rfl) hstale
        rw [bind_assoc]
        refine ih h₂ fun r s₃ hs₃ h₃ hkept hsub => hnext _ s₃ (hs.trans hs₃) h₃ (fun k row' hr => ?_)
          (fun k row' hr => ?_)
        · by_cases hk : k = key
          · subst hk
            obtain rfl : row' = row := Option.some.inj (hr.symm.trans hget)
            refine .inr ⟨?_, hnone⟩
            cases hr' : r.1.get? k with
            | none => rfl
            | some row'' =>
              have hcon := hsub k row'' hr'
              rw [Dict.get?_erase, if_pos rfl] at hcon
              cases hcon
          · rw [← hs.manifest]
            exact hkept k row' (by rw [Dict.get?_erase, if_neg hk]; exact hr)
        · have hold := hsub k row' hr
          rw [Dict.get?_erase] at hold
          split at hold
          · cases hold
          · exact hold

/-- Rows of sessions without a manifest go. -/
theorem Exclusive.dropRows (h : Exclusive host roots s) (index : IndexData)
    (hkept : ∀ k row, s.index.get? k = some row → index.get? k = some row ∨
      (index.get? k = none ∧ s.manifest (row.loc k) = none))
    (hsub : ∀ k row, index.get? k = some row → s.index.get? k = some row) :
    Exclusive host roots { s with index := index } ∧ Dwindles s { s with index := index } := by
  refine h.writeIndex (fun k row hr => h.rooted k row (hsub k row hr))
    (fun k row t hr ht => .row (hsub k row hr) ht) fun lease _ k row hb => ?_
  rcases hkept k row hb.indexed with hr | ⟨-, hm⟩
  · exact ⟨row, hr, rfl, rfl⟩
  · exact absurd hm hb.manifest

theorem pruneStale_safe {stale : List ScopedKey} (h : Exclusive host roots s) :
    Safe host roots (fun _ _ => True) (pruneStale faulty stale) s := by
  refine safe_read h fun s₁ _ h₁ => pruneEach_safe h₁ fun r s₂ hs₂ h₂ hkept hsub => ?_
  split
  · refine safe_write h₂ fun s₃ hs₃ h₃ => ?_
    have hs := hs₂.trans hs₃
    obtain ⟨h', hlater⟩ := h₃.dropRows r.1
      (fun k row hr => by
        rw [hs.manifest]
        exact hkept k row (hs.index ▸ hr))
      (fun k row hr => hs.index.symm ▸ hsub k row hr)
    exact ⟨h', hlater, safe_pure h' fun _ _ _ => trivial⟩
  · exact safe_pure h₂ fun _ _ _ => trivial

theorem getLatest_safe {name : String} {root : Option String} (h : Exclusive host roots s) :
    Safe host roots (fun _ _ => True) (getLatest host faulty name root) s := by
  refine safe_read h fun s₁ _ h₁ => safe_ofExcept h₁ fun found hfound => ?_
  have hrow := findRow_ok hfound
  refine safe_read h₁ fun s₂ hs₂ h₂ => ?_
  split
  · exact safe_pure h₂ fun _ _ _ => trivial
  · refine safe_read h₂ fun s₃ hs₃ h₃ => ?_
    split
    · exact safe_pure h₃ fun _ _ _ => trivial
    · rename_i hm
      refine safe_write h₃ fun s₄ hs₄ h₄ => ?_
      have hs := (hs₂.trans hs₃).trans hs₄
      have hnone : s₄.manifest (found.2.loc found.1) = none := by
        rw [hs₄.manifest]
        exact Option.not_isSome_iff_eq_none.mp hm
      obtain ⟨h', hlater⟩ := h₄.dropRows (s₁.index.erase found.1)
        (fun k row hr => by
          rw [hs.index] at hr
          rw [Dict.get?_erase]
          split
          · rename_i hk
            subst hk
            obtain rfl : row = found.2 := Option.some.inj (hr.symm.trans hrow)
            exact .inr ⟨rfl, hnone⟩
          · exact .inl hr)
        (fun k row hr => by
          rw [Dict.get?_erase] at hr
          rw [hs.index]
          split at hr
          · cases hr
          · exact hr)
      exact ⟨h', hlater, safe_throw h'⟩

end Rules

end MultiForge.Session
