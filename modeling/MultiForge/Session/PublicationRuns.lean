/-
MultiForge.Session.PublicationRuns — creations, deletions and readers of the
index together.

Each operation is shown to keep to `publication` and to end with what it
promises (`Promise`); `Reachable.ok` puts them together. Faults strike only
where every row stands over its own manifest. Where a fault may strike
between the row of a creation and the refusal of that creation, the row
stays over a manifest that is not its own (`strandedRow`).
-/
import MultiForge.Session.Publication

namespace MultiForge.Session

open Locked

variable {host : Host} {strict : Prop} {s₀ s s' : World}

/-! ## 1. Publishing -/

/-- `create_exclusive` has written the manifest and the owner file. -/
structure ManifestWritten (host : Host) (s₀ s : World) (loc : Loc) (entry : Row) (index : IndexData)
    (s' : World) : Prop where
  publishing : Publishing host s₀ s loc s'
  none : s.manifest loc = none
  index : s'.index = index
  manifest : ∃ m, s'.manifest loc = some m ∧ m.birth = some entry.birth
  owner : ∃ token, s'.owner loc = some token

/-- A creation that can go on has its row and no other manifest. -/
theorem createExclusive_keeps {loc : Loc} {entry : Row} {text : String}
    (h : Publishing host s₀ s loc s') (hrow : RowAt host s' loc entry)
    (hbirth : entry.birth = s.releases) (hinst : entry.instanceId = none)
    (hman : s'.manifest loc = s.manifest loc) :
    Keeps host strict s₀ (fun r s'' => match r with
        | .ok _ => ManifestWritten host s₀ s loc entry s'.index s''
        | .error _ => Publishing host s₀ s loc s'')
      (createExclusive (Sound host strict) loc text entry.birth) s' := by
  unfold createExclusive
  -- the session directory
  have hless : Less host s' { s' with sessionDir := Function.update s'.sessionDir loc true } :=
    ⟨rfl, rfl, fun _ m hm => ⟨m, hm, rfl⟩, fun _ _ ho => ho.1, fun _ _ _ ht => ht, fun _ _ _ _ hi => hi, fun l hl => by
      show Function.update s'.sessionDir loc true l = true
      by_cases hll : l = loc
      · rw [hll, Function.update_self]
      · rw [Function.update_of_ne hll]
        exact h.indexed.housed l hl⟩
  obtain ⟨hdirIndexed, hdirStep, -⟩ := h.indexed.less hless
  have hdir : Publishing host s₀ s loc { s' with
      sessionDir := Function.update s'.sessionDir loc true } :=
    h.next hdirIndexed rfl rfl (fun _ _ => rfl) (.inl rfl)
  refine keeps_write h.indexed hdirStep (fun _ => h) (fun _ => hdir) ?_
  generalize hd : ({ s' with sessionDir := Function.update s'.sessionDir loc true } : World) = d
    at hdir hdirIndexed
  have hdIndex : d.index = s'.index := by rw [← hd]
  have hdMan : d.manifest = s'.manifest := by rw [← hd]
  have hdDir : d.sessionDir loc = true := by rw [← hd]; exact Function.update_self ..
  have hdRow : RowAt host d loc entry := (RowAt.of_index hdIndex).mpr hrow
  refine keeps_read hdirIndexed (fun _ => hdir) ?_
  cases hm : d.manifest loc with
  | some m =>
    rw [Option.isSome_some, if_pos rfl]
    exact keeps_throw hdir
  | none =>
    rw [Option.isSome_none, if_neg Bool.false_ne_true]
    have hnone : s.manifest loc = none := by rw [← hman, ← hdMan, hm]
    -- the owner file
    refine keeps_attempt hdirIndexed (fun _ => hdir) ?_
    rintro _ o ⟨token, -, ho⟩
    have hoOwner : o.owner loc = some token := by rw [ho]; exact Function.update_self ..
    have hoIndex : o.index = d.index := by rw [ho]
    have hoMan : o.manifest = d.manifest := by rw [ho]
    have hoRel : o.releases = d.releases := by rw [ho]
    have hoDir : o.sessionDir = d.sessionDir := by rw [ho]
    have hoLess : Less host d o := by
      refine ⟨hoIndex, hoRel, fun l m' hm' => ⟨m', hoMan ▸ hm', rfl⟩,
        fun l m' ho' => hoMan ▸ ho'.1, fun l t hl ht => ?_, fun l row _ _ hi => ?_, fun l hl => ?_⟩
      · have hne : l ≠ loc := fun e => hl (by rw [hoMan, e, hm])
        rw [ho] at ht
        exact (Function.update_of_ne hne ..).symm.trans ht
      · rw [ho]
        exact hi
      · rw [hoDir]
        exact hdirIndexed.housed l (hoMan ▸ hl)
    obtain ⟨hoIndexed, hoStep, -⟩ := hdirIndexed.less hoLess
    have hoPub : Publishing host s₀ s loc o :=
      hdir.next hoIndexed hoIndex hoRel (fun l _ => congrFun hoMan l) (.inl (congrFun hoMan loc))
    refine ⟨hoStep, fun _ => hoPub, ?_⟩
    -- the manifest
    obtain ⟨hwIndexed, hwStep, -⟩ := hoIndexed.writeManifest { o with
        manifest := Function.update o.manifest loc (some ⟨text, some entry.birth⟩) }
      ((RowAt.of_index hoIndex).mpr hdRow) (hbirth.trans hoPub.releases.symm) hinst
      (by rw [hoMan, hm]) rfl rfl rfl rfl rfl rfl (by rw [hoDir, hdDir])
    have hwMan : Function.update o.manifest loc (some ⟨text, some entry.birth⟩) loc
        = some (⟨text, some entry.birth⟩ : Manifest) := Function.update_self ..
    have hw : Publishing host s₀ s loc { o with
        manifest := Function.update o.manifest loc (some ⟨text, some entry.birth⟩) } :=
      hoPub.next hwIndexed rfl rfl (fun l hl => Function.update_of_ne hl ..)
        (.inr ⟨hnone, _, hwMan, by rw [hbirth]⟩)
    refine keeps_last (keeps_write hoIndexed hwStep (fun _ => hoPub) (fun _ => hw) ?_)
    exact keeps_pure ⟨hw, hnone, hoIndex.trans hdIndex, ⟨_, hwMan, rfl⟩, token, hoOwner⟩

/-- The callback publishes the manifest and the instance id, or leaves a
state that the handler deals with. -/
theorem publish_keeps {loc : Loc} {entry : Row} {text : String}
    (h : Publishing host s₀ s loc s') (hrows : Sound host strict s)
    (hrow : RowAt host s' loc entry) (hinst : entry.instanceId = none)
    (hman : s'.manifest loc = s.manifest loc) :
    Keeps host strict s₀ (fun r s'' => match r with
        | .ok a => CreateDone host strict s₀ s loc (.ok a) s''
        | .error _ => Publishing host s₀ s loc s'')
      (publish (Sound host strict) s'.index (host.scopedKey loc) loc entry text) s' := by
  have hbirth : entry.birth = s.releases := by
    rcases h.rowAt hrow with ⟨-, hb⟩ | ⟨hl, -⟩
    · exact hb
    · exact absurd rfl hl
  unfold publish
  refine keeps_bind ((createExclusive_keeps h hrow hbirth hinst hman).mono fun r w hw => ?_)
  cases r with
  | error e => exact hw
  | ok _ =>
    obtain ⟨hpub, hnone, hindex, ⟨m, hm, hmb⟩, token, howner⟩ := hw
    have hown : Sound host strict w := fun hs => hpub.rowsOwn (hrows hs) hnone
    refine keeps_read hpub.indexed (fun _ => hpub) ?_
    -- the row gets the instance id of the owner file
    have hget : w.index.get? (host.scopedKey loc) = some entry := by
      rw [hindex]
      exact hrow.1
    have hrekeyed : Rekeyed w { w with
        index := s'.index.set (host.scopedKey loc) { entry with instanceId := w.owner loc } }
        (host.scopedKey loc) (some { entry with instanceId := w.owner loc }) := by
      intro k
      show (s'.index.set _ _).get? k = _
      rw [Dict.get?_set, hindex]
    have hloc : entry.loc (host.scopedKey loc) = loc := hrow.loc_eq
    obtain ⟨hindIndexed, hindStep, hindRows⟩ := hpub.indexed.replaceRow hget hrekeyed
      ⟨rfl, rfl, rfl, rfl, rfl⟩ rfl rfl
      (by
        intro t m' ht hm'
        rw [hloc] at hm' ⊢
        rw [hm] at hm'
        cases hm'
        exact ⟨hmb, fun t' ht' => Option.some.inj (ht'.symm.trans ht)⟩)
      (by
        intro hnil
        rw [howner] at hnil
        cases hnil)
      (by
        intro b hb heq
        have hrel := hpub.releases
        have hbirth' : entry.birth = b := heq
        omega)
    have hdone : CreateDone host strict s₀ s loc (.ok { entry with instanceId := w.owner loc }) { w with
        index := s'.index.set (host.scopedKey loc) { entry with instanceId := w.owner loc } } := by
      refine ⟨⟨hindIndexed, hown.imp hindRows⟩, ?_⟩
      intro b hb _ _ _ row hr
      by_cases hkey : row.birth = b
      · have heq := hr.1
        rw [hrekeyed, if_pos rfl] at heq
        rw [← Option.some.inj heq] at hkey
        have hbirth' : entry.birth = b := hkey
        omega
      · exact hkey
    have hpub' : Publishing host s₀ s loc { w with
        index := s'.index.set (host.scopedKey loc) { entry with instanceId := w.owner loc } } := {
      indexed := hindIndexed
      releases := hpub.releases
      row := ⟨{ entry with instanceId := w.owner loc }, ⟨by rw [hrekeyed, if_pos rfl], hrow.2⟩,
        hbirth⟩
      others := by
        intro key hk
        rw [hrekeyed, if_neg hk]
        exact hpub.others key hk
      manifests := hpub.manifests
      manifest := hpub.manifest }
    exact keeps_write hpub.indexed hindStep (fun _ => hpub) (fun _ => hpub') (keeps_pure hdone)

/-- A creation that failed without a trace. -/
theorem CreateDone.fault {α : Type} {loc : Loc} (h : Settled host strict s₀ s) :
    CreateDone (α := α) host strict s₀ s loc (.error .fault) s :=
  ⟨h, fun _ _ _ hr _ => absurd rfl hr⟩

/-- The row is written first; if what follows raises, it is dropped again. -/
theorem publishRow_keeps {req : CreateRequest} {index : IndexData} (h : Settled host strict s₀ s)
    (hinv : s.inventory req.loc = none)
    (hindex : ∀ k, index.get? k = if k = host.scopedKey req.loc then none else s.index.get? k)
    (hbare : ∀ row, s.index.get? (host.scopedKey req.loc) = some row →
      s.manifest (row.loc (host.scopedKey req.loc)) = none) :
    Keeps host strict s₀ (CreateDone host strict s₀ s req.loc)
      (createSessionTxn.publishRow host (Sound host strict) req index (buildEntry req s.releases)
        (s.manifest req.loc).isSome) s := by
  unfold createSessionTxn.publishRow
  have hrekeyed : Rekeyed s { s with
      index := index.set (host.scopedKey req.loc) (buildEntry req s.releases) }
      (host.scopedKey req.loc) (some (buildEntry req s.releases)) := by
    intro k
    show (index.set _ _).get? k = _
    rw [Dict.get?_set, hindex]
    by_cases hk : k = host.scopedKey req.loc
    · rw [if_pos hk, if_pos hk]
    · rw [if_neg hk, if_neg hk, if_neg hk]
  obtain ⟨hIndexed, hStep⟩ := h.indexed.setRow hrekeyed ⟨rfl, rfl, rfl, rfl, rfl⟩ rfl rfl rfl hinv hbare
  have hrow : RowAt host { s with
      index := index.set (host.scopedKey req.loc) (buildEntry req s.releases) } req.loc
      (buildEntry req s.releases) := ⟨by rw [hrekeyed, if_pos rfl], rfl⟩
  have hpub : Publishing host s₀ s req.loc { s with
      index := index.set (host.scopedKey req.loc) (buildEntry req s.releases) } := {
    indexed := hIndexed
    releases := rfl
    row := ⟨_, hrow, rfl⟩
    others := by
      intro key hk
      rw [hrekeyed, if_neg hk]
    manifests := fun _ _ => rfl
    manifest := .inl rfl }
  refine keeps_write h.indexed hStep (fun _ => .fault h) (fun hr => hpub.done hr _) ?_
  refine keeps_tryCatch ((publish_keeps hpub h.sound hrow rfl rfl).mono fun r s'' hr => ?_)
  cases r with
  | ok row => exact hr
  | error e =>
    refine unwind_keeps hr h.sound (fun k hk => ?_) (fun m hm => ?_) e
    · rw [Dict.get?_set, if_neg hk, hindex, if_neg hk]
    · exact h.indexed.orphan_birth hbare hm

/-- A creation leaves every row over its own manifest, and no bare row. -/
theorem createSessionTxn_keeps {req : CreateRequest} (h : Settled host strict s₀ s) :
    Keeps host strict s₀ (CreateDone host strict s₀ s req.loc) (createSessionTxn host (Sound host strict) req) s := by
  unfold createSessionTxn
  refine keeps_read h.indexed (fun _ => .fault h) ?_
  refine keeps_read h.indexed (fun _ => .fault h) ?_
  cases hp : s.inventory req.loc with
  | some plan =>
    rw [Option.isSome_some, if_pos rfl]
    refine keeps_throw ⟨h, fun b _ hd _ _ => hd.absent fun row hrow => .inl fun hnone => ?_⟩
    rw [h.indexed.unowned _ row hrow hnone] at hp
    cases hp
  | none =>
    rw [Option.isSome_none, if_neg Bool.false_ne_true]
    refine keeps_bind (reclaim_keeps h.indexed (fun _ => .fault h) (fun row m hget hm => ?_)
      fun index hindex hbare => ?_)
    · -- another session, or the live session of the row
      refine ⟨h, fun b _ hd _ _ => hd.absent fun row' hrow' => .inr ?_⟩
      obtain rfl : row' = row := Option.some.inj (hrow'.1.symm.trans hget)
      rw [hrow'.loc_eq] at hm
      rw [hm]
      exact Option.some_ne_none m
    · show Keeps host strict s₀ (CreateDone host strict s₀ s req.loc) (ite _ _ _) s
      split
      · exact keeps_throw ⟨h, fun _ _ _ _ hr => absurd rfl hr⟩
      · refine keeps_read h.indexed (fun _ => .fault h) ?_
        refine keeps_read h.indexed (fun _ => .fault h) ?_
        exact publishRow_keeps h hp hindex hbare

/-! ## 2. The other transactions -/

/-- A transaction leaves a state in which the lock can be released. -/
abbrev Settles {α : Type} (host : Host) (strict : Prop) (s₀ : World) (x : Txn α) (s : World) : Prop :=
  Keeps host strict s₀ (fun _ s' => Settled host strict s₀ s') x s

/-- A lookup that can raise, and what follows it. -/
theorem keeps_ofExcept {α β : Type} {post : Except SessionError β → World → Prop}
    {r : Except SessionError α} {f : α → Txn β}
    (hok : ∀ a, r = .ok a → Keeps host strict s₀ post (f a) s)
    (herr : ∀ e, r = .error e → post (.error e) s) :
    Keeps host strict s₀ post (MonadExcept.ofExcept r >>= f) s := by
  cases r with
  | ok a => exact hok a rfl
  | error e => exact keeps_throw (herr e rfl)

theorem resolveKeyStrict_some {index : IndexData} {name : String} {root : Option String}
    {key : ScopedKey} (h : resolveKeyStrict host index name root = .ok (some key)) :
    (index.get? key).isSome := by
  unfold resolveKeyStrict at h
  cases root with
  | some root =>
    simp only [Except.ok.injEq] at h
    split at h
    · cases h
      assumption
    · cases h
  | none =>
    dsimp only at h
    cases hfilter : index.entries.filter fun e => e.1.name = name with
    | nil =>
      rw [hfilter] at h
      cases h
    | cons e rest =>
      rw [hfilter] at h
      cases rest with
      | cons => cases h
      | nil =>
        cases h
        have hmem : e ∈ index.entries.filter fun e => e.1.name = name := by
          rw [hfilter]
          exact List.mem_singleton_self e
        rw [Dict.get?_eq_some_iff.mpr (List.mem_filter.mp hmem).1]
        rfl

/-- What a lookup finds is in the index. -/
theorem findRow_ok {index : IndexData} {name : String} {root : Option String}
    {found : ScopedKey × Row} (h : findRow host index name root = .ok found) :
    index.get? found.1 = some found.2 := by
  unfold findRow at h
  split at h
  · cases h
  · cases h
  · split at h
    · cases h
      assumption
    · cases h

/-- A lookup in a root looks under one key. -/
theorem findRow_scoped {index : IndexData} {name root : String} :
    findRow host index name (some root) =
      match index.get? (host.scopedKey ⟨root, name⟩) with
      | some row => .ok (host.scopedKey ⟨root, name⟩, row)
      | none => .error .notFound := by
  unfold findRow resolveKeyStrict
  cases hget : index.get? (host.scopedKey ⟨root, name⟩) <;> simp [hget]

theorem findRowBestEffort_some {index : IndexData} {name : String} {root : Option String}
    {found : ScopedKey × Row} (h : findRowBestEffort host index name root = some found) :
    index.get? found.1 = some found.2 := by
  unfold findRowBestEffort at h
  cases hkey : resolveKeyBestEffort host index name root with
  | none => simp [hkey] at h
  | some key =>
    cases hget : index.get? key with
    | none => simp [hkey, hget] at h
    | some row =>
      simp only [hkey, hget, Option.bind_some, Option.map_some, Option.some.injEq] at h
      cases h
      exact hget

/-- A new text for a field that says nothing of the session's identity. -/
theorem Settled.touchRow (h : Settled host strict s₀ s) {key : ScopedKey} {row entry : Row}
    (hrow : s.index.get? key = some row) (hroot : entry.root = row.root)
    (hbirth : entry.birth = row.birth) (hinst : entry.instanceId = row.instanceId) :
    Settled host strict s₀ { s with index := s.index.set key entry } ∧
      Onward host s { s with index := s.index.set key entry } := by
  have hrekeyed : Rekeyed s { s with index := s.index.set key entry } key (some entry) := by
    intro k
    show (s.index.set _ _).get? k = _
    rw [Dict.get?_set]
  obtain ⟨hind, hstep, hrows⟩ := h.indexed.replaceRow hrow hrekeyed ⟨rfl, rfl, rfl, rfl, rfl⟩ hroot
    hbirth (fun t m ht hm => h.indexed.owned _ row t m (h.indexed.rowAt hrow) (hinst ▸ ht) hm)
    (fun hnone => hinst ▸ hnone) (fun _ _ _ => hinst)
  exact ⟨⟨hind, h.sound.imp hrows⟩, hstep⟩

theorem touch_keeps {α : Type} (h : Settled host strict s₀ s) {key : ScopedKey} {row : Row}
    (entry : Row) (hrow : s.index.get? key = some row) (hroot : entry.root = row.root)
    (hbirth : entry.birth = row.birth) (hinst : entry.instanceId = row.instanceId) (a : α) :
    Settles host strict s₀
      (writeIndex (Sound host strict) (s.index.set key entry) >>= fun _ => pure a) s := by
  obtain ⟨h', hstep⟩ := h.touchRow hrow hroot hbirth hinst
  exact keeps_write h.indexed hstep (fun _ => h) (fun _ => h') (keeps_pure h')

/-- An action that reads leaves everything as it is. -/
theorem settles_read {α β : Type} {g : World → α} {f : α → Txn β} (h : Settled host strict s₀ s)
    (hnext : Settles host strict s₀ (f (g s)) s) :
    Settles host strict s₀ (Locked.Txn.read (Sound host strict) .fault g >>= f) s :=
  keeps_read h.indexed (fun _ => h) hnext

theorem updateSession_keeps {name now : String} {root : Option String}
    (h : Settled host strict s₀ s) :
    Settles host strict s₀ (updateSession host (Sound host strict) name now root) s := by
  refine settles_read h (keeps_ofExcept (fun found hfound => ?_) (fun _ _ => h))
  exact touch_keeps h { found.2 with lastAccessedAt := now } (findRow_ok hfound) rfl rfl rfl _

/-- Whether an instance is live is asked without a change. -/
theorem instanceLive_keeps {β : Type} {loc : Loc} {expected : InstanceId} {f : Bool → Txn β}
    (h : Settled host strict s₀ s)
    (hlive : s.inventory loc = none → (s.manifest loc).isSome → s.owner loc = some expected →
      Settles host strict s₀ (f true) s)
    (hnot : Settles host strict s₀ (f false) s) :
    Settles host strict s₀ (instanceLive (Sound host strict) loc expected >>= f) s := by
  unfold instanceLive
  refine keeps_bind (keeps_read h.indexed (fun _ => h) ?_)
  cases hp : (s.inventory loc).isSome with
  | true => exact keeps_pure hnot
  | false =>
    refine keeps_read h.indexed (fun _ => h) ?_
    cases hm : (s.manifest loc).isSome with
    | false => exact keeps_pure hnot
    | true =>
      refine keeps_read h.indexed (fun _ => h) (keeps_pure ?_)
      by_cases ho : s.owner loc = some expected
      · rw [decide_eq_true ho]
        exact hlive (Option.not_isSome_iff_eq_none.mp (by rw [hp]; exact Bool.false_ne_true)) hm ho
      · rw [decide_eq_false ho]
        exact hnot

theorem requiredLive_keeps {β : Type} {f : Bool → Txn β} {index : IndexData}
    (h : Settled host strict s₀ s) (hnext : ∀ live, Settles host strict s₀ (f live) s) :
    ∀ required, Settles host strict s₀
      (requiredLive host (Sound host strict) index required >>= f) s
  | [] => hnext true
  | (root, name, token) :: rest => by
    unfold requiredLive
    cases (resolveKeyStrict host index name (some root)).toOption.join with
    | none => exact hnext false
    | some key =>
      dsimp only
      cases hget : index.get? key with
      | none => exact hnext false
      | some row =>
        dsimp only
        split
        · exact hnext false
        · rw [bind_assoc]
          refine instanceLive_keeps h (fun _ _ _ => ?_) (hnext false)
          exact requiredLive_keeps h hnext rest

/-- A state between the actions of a callback that works on one session. -/
structure Working (host : Host) (strict : Prop) (s₀ : World) (loc : Loc) (t : InstanceId)
    (index : IndexData) (s : World) : Prop where
  settled : Settled host strict s₀ s
  row : ∃ row, RowAt host s loc row ∧ row.instanceId = some t
  index : s.index = index

/-- Files change, and the index does not. -/
theorem Working.less {loc : Loc} {t : InstanceId} {index : IndexData}
    (h : Working host strict s₀ loc t index s) (hless : Less host s s') :
    Working host strict s₀ loc t index s' ∧ Onward host s s' := by
  obtain ⟨hind, hstep, hrows⟩ := h.settled.indexed.less hless
  obtain ⟨row, hrow, hinst⟩ := h.row
  exact ⟨⟨⟨hind, h.settled.sound.imp hrows⟩, ⟨row, (RowAt.of_index hless.index).mpr hrow, hinst⟩,
    hless.index.trans h.index⟩, hstep⟩

theorem Working.edits {loc : Loc} {t : InstanceId} {index : IndexData}
    (h : Working host strict s₀ loc t index s) (he : Edits loc s s') :
    Working host strict s₀ loc t index s' ∧ Onward host s s' := by
  obtain ⟨row, hrow, hinst⟩ := h.row
  refine h.less ⟨he.index, he.releases, fun l m hm => ?_, fun l m ho => ?_,
    fun l u _ hu => he.owner ▸ hu, fun l r _ _ hi => he.inventory ▸ hi, fun l hl => ?_⟩
  · by_cases hll : l = loc
    · subst hll
      have hown := he.own
      rw [hm, Option.map_some] at hown
      obtain ⟨m', hm', hmb⟩ := Option.map_eq_some_iff.mp hown.symm
      exact ⟨m', hm', hmb.symm⟩
    · exact ⟨m, (he.manifest l hll).symm.trans hm, rfl⟩
  · by_cases hll : l = loc
    · subst hll
      exact absurd ho.2 (h.settled.indexed.not_orphan hrow hinst ho.1)
    · exact (he.manifest l hll).trans ho.1
  · rw [he.sessionDir]
    refine h.settled.indexed.housed l fun hnone => hl ?_
    by_cases hll : l = loc
    · subst hll
      have hown := he.own
      rw [hnone, Option.map_none] at hown
      exact Option.map_eq_none_iff.mp hown
    · exact (he.manifest l hll).trans hnone

theorem Working.besides {loc : Loc} {t : InstanceId} {index : IndexData}
    (h : Working host strict s₀ loc t index s) (ha : Aside loc s s') :
    Working host strict s₀ loc t index s' ∧ Onward host s s' := by
  obtain ⟨row, hrow, hinst⟩ := h.row
  obtain ⟨hind, hstep, hrows⟩ := h.settled.indexed.besides hrow hinst ha
  exact ⟨⟨⟨hind, h.settled.sound.imp hrows⟩, ⟨row, (RowAt.of_index ha.index).mpr hrow, hinst⟩,
    ha.index.trans h.index⟩, hstep⟩

/-- A callback whose actions keep to its session. -/
theorem Working.within {loc : Loc} {t : InstanceId} {index : IndexData}
    {R : World → World → Prop}
    (hR : ∀ a b, Working host strict s₀ loc t index a → R a b →
      Working host strict s₀ loc t index b ∧ Onward host a b)
    {α : Type} {x : Txn α} (hx : x.run.Within R) (h : Working host strict s₀ loc t index s) :
    Keeps host strict s₀ (fun _ s' => Working host strict s₀ loc t index s') x s :=
  hx.meets (D := publication host strict s₀) hR (fun _ _ ha hq => hq ▸ ha)
    (fun _ ha => ⟨ha.settled.indexed, fun hs => ha.settled.indexed.closed hs⟩) h

/-- A worker writes its output for its own session only. -/
theorem runSessionInstanceTxn_keeps {name root : String} {expected : InstanceId}
    {required : List (String × String × InstanceId)} {output : Output}
    (h : Settled host strict s₀ s) :
    Settles host strict s₀ (runSessionInstanceTxn host (Sound host strict) name root expected
      required output.body) s := by
  refine settles_read h ?_
  cases hfound : findRow host s.index name (some root) with
  | error e => exact keeps_pure h
  | ok found =>
    dsimp only
    split
    · exact keeps_pure h
    · rename_i hinst
      have hrow := findRow_ok hfound
      refine instanceLive_keeps h (fun _ _ _ => ?_) (keeps_pure h)
      refine requiredLive_keeps h (fun live => ?_) required
      cases live with
      | false => exact keeps_pure h
      | true =>
        have hwork : Working host strict s₀ (found.2.loc found.1) expected s.index s :=
          ⟨h, ⟨found.2, h.indexed.rowAt hrow, not_not.mp hinst⟩, rfl⟩
        refine keeps_bind ((Working.within (fun a b ha hab => ha.edits hab)
          (output.edits _) hwork).mono fun r s' hs' => ?_)
        cases r with
        | ok _ => exact keeps_pure hs'.settled
        | error e => exact hs'.settled

theorem settles_tryCatch {α : Type} {x : Txn α} {a : α} (hx : Settles host strict s₀ x s) :
    Settles host strict s₀ (tryCatch x fun _ => pure a) s := by
  refine keeps_tryCatch (hx.mono fun r s' hs' => ?_)
  cases r with
  | ok _ => exact hs'
  | error e => exact keeps_pure hs'

theorem updateUuid_keeps {name claudeSessionId : String} {root : Option String}
    (h : Settled host strict s₀ s) :
    Settles host strict s₀ (updateUuid host (Sound host strict) name claudeSessionId root) s := by
  refine settles_tryCatch (settles_read h ?_)
  cases hfound : findRowBestEffort host s.index name root with
  | none => exact keeps_pure h
  | some found =>
    exact keeps_last (touch_keeps h { found.2 with claudeSessionId := some claudeSessionId }
      (findRowBestEffort_some hfound) rfl rfl rfl ())

theorem updateCodexThread_keeps {name threadId : String} {root : Option String}
    {expected : InstanceId} (h : Settled host strict s₀ s) :
    Settles host strict s₀
      (updateCodexThread host (Sound host strict) name threadId root expected) s := by
  refine settles_tryCatch (settles_read h ?_)
  cases hfound : findRowBestEffort host s.index name root with
  | none => exact keeps_pure h
  | some found =>
    dsimp only
    split
    · exact keeps_pure h
    · refine instanceLive_keeps h (fun _ _ _ => ?_) (keeps_pure h)
      exact touch_keeps h { found.2 with codexThreadId := some threadId }
        (findRowBestEffort_some hfound) rfl rfl rfl true

/-! ## 3. Deletions -/

/-- Removing the files of a session that is being deleted. -/
theorem Working.remove {loc : Loc} {t : InstanceId} {index : IndexData}
    (h : Working host strict s₀ loc t index s) (s' : World) (hindex : s'.index = s.index)
    (hrel : s'.releases = s.releases) (hman : ∀ l, l ≠ loc → s'.manifest l = s.manifest l)
    (hnone : s'.manifest loc = none) (hown : ∀ l, l ≠ loc → s'.owner l = s.owner l)
    (hdir : ∀ l, l ≠ loc → s'.sessionDir l = s.sessionDir l) (hinv : s'.inventory = s.inventory) :
    Working host strict s₀ loc t index s' ∧ Onward host s s' := by
  obtain ⟨row, hrow, hinst⟩ := h.row
  refine h.less ⟨hindex, hrel, fun l m hm => ?_, fun l m ho => ?_, fun l u hl hu => ?_,
    fun l r _ _ hi => hinv ▸ hi, fun l hl => ?_⟩
  · have hl : l ≠ loc := fun e => by
      rw [e, hnone] at hm
      cases hm
    exact ⟨m, (hman l hl).symm.trans hm, rfl⟩
  · have hl : l ≠ loc := fun e => by
      subst e
      exact h.settled.indexed.not_orphan hrow hinst ho.1 ho.2
    exact (hman l hl).trans ho.1
  · have hll : l ≠ loc := fun e => hl (e ▸ hnone)
    exact (hown l hll).symm.trans hu
  · have hll : l ≠ loc := fun e => hl (e ▸ hnone)
    rw [hdir l hll]
    exact h.settled.indexed.housed l (hman l hll ▸ hl)

theorem not_ok {e : SessionError} {P : Prop}
    (h : (Except.error e : Except SessionError Unit) = .ok ()) : P := by
  cases h

/-- `delete_locked` leaves no manifest. -/
theorem deleteLocked_keeps {loc : Loc} {t : InstanceId} {index : IndexData}
    (h : Working host strict s₀ loc t index s) :
    Keeps host strict s₀ (fun r s' => Working host strict s₀ loc t index s' ∧
        (r = .ok () → s'.manifest loc = none))
      (deleteLocked (Sound host strict) loc) s := by
  unfold deleteLocked
  refine keeps_read h.settled.indexed (fun _ => ⟨h, not_ok⟩) ?_
  cases hd : s.sessionDir loc with
  | false =>
    refine keeps_pure ⟨h, fun _ => ?_⟩
    by_contra hm
    rw [h.settled.indexed.housed loc hm] at hd
    cases hd
  | true =>
    -- the manifest
    obtain ⟨hm, hmStep⟩ := h.remove { s with
        manifest := Function.update s.manifest loc none } rfl rfl
      (fun l hl => Function.update_of_ne hl ..) (Function.update_self ..) (fun _ _ => rfl)
      (fun _ _ => rfl) rfl
    refine keeps_write h.settled.indexed hmStep (fun _ => ⟨h, not_ok⟩) (fun _ => ⟨hm, not_ok⟩) ?_
    -- the owner file
    obtain ⟨ho, hoStep⟩ := hm.remove { s with
        manifest := Function.update s.manifest loc none
        owner := Function.update s.owner loc none } rfl rfl (fun _ _ => rfl)
      (Function.update_self ..) (fun l hl => Function.update_of_ne hl ..) (fun _ _ => rfl) rfl
    refine keeps_write hm.settled.indexed hoStep (fun _ => ⟨hm, not_ok⟩) (fun _ => ⟨ho, not_ok⟩) ?_
    -- the directory
    obtain ⟨hr, hrStep⟩ := ho.remove { s with
        manifest := Function.update s.manifest loc none
        owner := Function.update s.owner loc none
        sessionDir := Function.update s.sessionDir loc false } rfl rfl (fun _ _ => rfl)
      (Function.update_self ..) (fun _ _ => rfl) (fun l hl => Function.update_of_ne hl ..) rfl
    have hgone : Function.update s.manifest loc none loc = none := Function.update_self ..
    refine keeps_last (keeps_write ho.settled.indexed hrStep (fun _ => ⟨ho, not_ok⟩)
      (fun _ => ⟨hr, not_ok⟩) ?_)
    exact keeps_pure ⟨hr, fun _ => hgone⟩

/-- The row goes last, when there is no manifest under it. -/
theorem Working.drop {loc : Loc} {t : InstanceId} {index : IndexData} {key : ScopedKey} {row : Row}
    (h : Working host strict s₀ loc t index s) (hkey : index.get? key = some row)
    (hloc : row.loc key = loc) (hnone : s.manifest loc = none) :
    Settled host strict s₀ { s with index := index.erase key } ∧
      Onward host s { s with index := index.erase key } := by
  have hrekeyed : Rekeyed s { s with index := index.erase key } key none := by
    intro k
    show (index.erase _).get? k = _
    rw [Dict.get?_erase, h.index]
  obtain ⟨hind, hstep, hrows⟩ := h.settled.indexed.eraseRow hrekeyed ⟨rfl, rfl, rfl, rfl, rfl⟩
    (fun r m hr hm => by
      rw [h.index, hkey] at hr
      cases hr
      rw [hloc, hnone] at hm
      cases hm)
  exact ⟨⟨hind, h.settled.sound.imp hrows⟩, hstep⟩

/-- Whether the owner file is the instance's is asked without a change. -/
theorem ownerMatches_keeps {β : Type} {loc : Loc} {expected : InstanceId} {f : Bool → Txn β}
    (h : Settled host strict s₀ s) (hnext : ∀ same, Settles host strict s₀ (f same) s) :
    Settles host strict s₀ (ownerMatches (Sound host strict) loc expected >>= f) s := by
  unfold ownerMatches
  refine keeps_bind (keeps_read h.indexed (fun _ => h) ?_)
  exact keeps_read h.indexed (fun _ => h) (keeps_pure (hnext _))

theorem deleteSessionTxn_keeps {name : String} {root : Option String} {expected : InstanceId}
    {cleanup : Cleanup} (h : Settled host strict s₀ s) :
    Settles host strict s₀ (deleteSessionTxn host (Sound host strict) name root expected
      fun loc => do
        cleanup.body loc
        deleteLocked (Sound host strict) loc) s := by
  refine settles_read h (keeps_ofExcept (fun found _ => ?_) (fun _ _ => h))
  cases found with
  | none => exact keeps_pure h
  | some key =>
    dsimp only
    unfold deleteSessionTxn.removeInstance
    cases hget : s.index.get? key with
    | none => exact keeps_pure h
    | some row =>
      dsimp only
      split
      · exact keeps_pure h
      · rename_i hinst
        refine ownerMatches_keeps h fun same => ?_
        cases same with
        | false => exact keeps_pure h
        | true =>
          have hwork : Working host strict s₀ (row.loc key) expected s.index s :=
            ⟨h, ⟨row, h.indexed.rowAt hget, not_not.mp hinst⟩, rfl⟩
          refine keeps_bind (keeps_bind ((Working.within (fun a b ha hab => ha.besides hab)
            (cleanup.aside _) hwork).mono fun r s₁ hs₁ => ?_))
          cases r with
          | error e => exact hs₁.settled
          | ok _ =>
            refine (deleteLocked_keeps hs₁).mono fun r s₂ hs₂ => ?_
            cases r with
            | error e => exact hs₂.1.settled
            | ok _ =>
              obtain ⟨hdrop, hstep⟩ := hs₂.1.drop hget rfl (hs₂.2 rfl)
              exact keeps_write hs₂.1.settled.indexed hstep (fun _ => hs₂.1.settled)
                (fun _ => hdrop) (keeps_pure hdrop)

end MultiForge.Session
