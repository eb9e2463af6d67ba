/-
MultiForge.Session.WorkerRuns — creations, workers and deletions together.

Each command is shown to keep to `exclusion`; a deletion that comes to its
end has removed the last owner file of its instance.
-/
import MultiForge.Session.IndexRuns
import MultiForge.Session.WorkerExclusion

namespace MultiForge.Session

open Locked

variable {host : Host} {roots : String → Prop} {s s' : World} {faulty : World → Prop}

/-! ## 1. Creating -/

/-- What a creation keeps while it publishes: its row has no workers, and
the other rows are as it read them. -/
structure Publishes (key : ScopedKey) (index : IndexData) (s : World) : Prop where
  others : ∀ k, k ≠ key → s.index.get? k = index.get? k
  spare : Spare s key

theorem Publishes.shrunk {key : ScopedKey} {index : IndexData} (h : Publishes key index s)
    (hs : Shrunk s s') : Publishes key index s' :=
  ⟨fun k hk => hs.index ▸ h.others k hk, h.spare.shrunk hs⟩

theorem Publishes.of_index {key : ScopedKey} {index : IndexData} (h : Publishes key index s)
    (hindex : s'.index = s.index) (hleases : s'.leases = s.leases) : Publishes key index s' :=
  ⟨fun k hk => hindex ▸ h.others k hk,
    fun lease hl row hrow => h.spare lease (hleases ▸ hl) row (hindex ▸ hrow)⟩

variable (host roots) in
/-- Both together. -/
abbrev Publishable (key : ScopedKey) (index : IndexData) (s : World) : Prop :=
  Exclusive host roots s ∧ Publishes key index s

variable (host roots) in
theorem publishable_keeping (key : ScopedKey) (index : IndexData) :
    (exclusion host roots).Keeping (Publishable host roots key index) :=
  exclusive_keeping fun _ _ h hs => h.shrunk hs

/-- An owner file of no one who works. -/
def FreshOwner (loc : Loc) (s : World) : Prop :=
  ∃ token, s.owner loc = some token ∧ ∀ lease ∈ s.leases, lease.instanceId ≠ token

theorem FreshOwner.shrunk {loc : Loc} (h : FreshOwner loc s) (hs : Shrunk s s') :
    FreshOwner loc s' := by
  obtain ⟨token, ho, hl⟩ := h
  exact ⟨token, hs.owner ▸ ho, fun lease hm => hl lease (hs.leases lease hm)⟩

theorem createExclusive_safe {key : ScopedKey} {index : IndexData} {loc : Loc} {text : String}
    {birth : Nat} (h : Publishable host roots key index s) :
    Locked.Txn.Keeps (exclusion host roots) (Publishable host roots key index)
      (fun _ s' => FreshOwner loc s') (createExclusive faulty loc text birth) s := by
  have hkeep := publishable_keeping host roots key index
  unfold createExclusive
  -- the session directory
  refine .write exclusion_open hkeep h fun s₁ _ h₁ => ?_
  have hgrow : ∀ l, s₁.sessionDir l = true →
      Function.update s₁.sessionDir loc true l = true := by
    intro l hl
    by_cases hll : l = loc
    · rw [hll, Function.update_self]
    · rwa [Function.update_of_ne hll]
  obtain ⟨hd, hlater⟩ := h₁.1.grow
    { s₁ with sessionDir := Function.update s₁.sessionDir loc true } rfl rfl rfl rfl rfl
    (fun _ hm => hm) (fun l hl => hgrow l (h₁.1.housed l hl))
  refine ⟨⟨hd, h₁.2.of_index rfl rfl⟩, hlater, ?_⟩
  refine .read exclusion_open hkeep ⟨hd, h₁.2.of_index rfl rfl⟩ fun s₂ hs₂ h₂ => ?_
  have hdir : s₂.sessionDir loc = true := by
    rw [hs₂.sessionDir]
    exact Function.update_self ..
  cases hm : s₂.manifest loc with
  | some m => exact .throw hkeep h₂
  | none =>
    -- the owner file
    refine .attempt exclusion_open hkeep h₂ fun s₃ hs₃ h₃ => ?_
    rintro _ s₄ ⟨token, hfresh, rfl⟩
    obtain ⟨ho, hlater⟩ := h₃.1.setOwner hfresh (hs₃.sessionDir ▸ hdir)
      (h₃.1.vacant (hs₃.manifest ▸ hm))
    have hpub : Publishes key index { s₃ with
        owner := Function.update s₃.owner loc (some token)
        issued := token :: s₃.issued } := h₃.2.of_index rfl rfl
    refine ⟨⟨ho, hpub⟩, hlater, ?_⟩
    have howner : FreshOwner loc { s₃ with
        owner := Function.update s₃.owner loc (some token)
        issued := token :: s₃.issued } := by
      refine ⟨token, Function.update_self .., fun lease hl heq => hfresh ?_⟩
      obtain ⟨k, row, hb⟩ := h₃.1.leased lease hl
      exact heq ▸ h₃.1.issued _ _ (.row hb.indexed hb.named)
    have hdir₄ : s₃.sessionDir loc = true := hs₃.sessionDir ▸ hdir
    -- the manifest
    refine .last (.write exclusion_open hkeep ⟨ho, hpub⟩ fun s₅ hs₅ h₅ => ?_)
    obtain ⟨hw, hlater⟩ := h₅.1.grow
      { s₅ with manifest := Function.update s₅.manifest loc (some ⟨text, some birth⟩) }
      rfl rfl rfl rfl rfl (fun l hl => by
        dsimp only
        by_cases hll : l = loc
        · subst hll
          rw [Function.update_self]
          exact Option.some_ne_none _
        · rwa [Function.update_of_ne hll])
      (fun l hl => by
        dsimp only at hl ⊢
        by_cases hll : l = loc
        · rw [hll, hs₅.sessionDir]
          exact hdir₄
        · rw [Function.update_of_ne hll] at hl
          exact h₅.1.housed l hl)
    have hpub₅ : Publishes key index
        { s₅ with manifest := Function.update s₅.manifest loc (some ⟨text, some birth⟩) } :=
      h₅.2.of_index rfl rfl
    refine ⟨⟨hw, hpub₅⟩, hlater, .pure hkeep ⟨hw, hpub₅⟩ fun s₆ hs₆ _ => ?_⟩
    have howner₅ : FreshOwner loc
        { s₅ with manifest := Function.update s₅.manifest loc (some ⟨text, some birth⟩) } :=
      (howner.shrunk hs₅ : FreshOwner loc s₅)
    exact howner₅.shrunk hs₆

/-- The callback of a creation: its row gets the instance that it issued. -/
theorem publish_safe {index base : IndexData} {loc : Loc} {entry : Row} {text : String}
    (h : Publishable host roots (host.scopedKey loc) base s) (hroots : roots loc.root)
    (hroot : entry.root = loc.root)
    (hindex : ∀ k, k ≠ host.scopedKey loc → index.get? k = base.get? k) :
    Locked.Txn.Keeps (exclusion host roots) (Publishable host roots (host.scopedKey loc) base)
      (fun _ _ => True) (publish faulty index (host.scopedKey loc) loc entry text) s := by
  have hkeep := publishable_keeping host roots (host.scopedKey loc) base
  refine .bind hkeep ((createExclusive_safe h).mono (fun _ hk => hk) fun _ s₁ h₁ hfresh => ?_)
  refine .read exclusion_open hkeep h₁ fun s₂ hs₂ h₂ => ?_
  obtain ⟨token, ho, hnew⟩ := hfresh.shrunk hs₂
  rw [ho]
  refine .write exclusion_open hkeep h₂ fun s₃ hs₃ h₃ => ?_
  have hset : ∀ k, (index.set (host.scopedKey loc) { entry with instanceId := some token }).get? k =
      if k = host.scopedKey loc then some { entry with instanceId := some token } else index.get? k :=
    fun k => Dict.get?_set ..
  have hloc : ({ entry with instanceId := some token } : Row).loc (host.scopedKey loc) = loc := by
    rw [Row.loc, hroot]
    rfl
  obtain ⟨h', hlater⟩ := h₃.1.setRow
    (index.set (host.scopedKey loc) { entry with instanceId := some token }) h₃.2.spare
    (fun k hk => by rw [hset, if_neg hk, hindex k hk, h₃.2.others k hk])
    (fun row hrow => by
      rw [hset, if_pos rfl] at hrow
      cases hrow
      exact ⟨hroot.symm ▸ hroots, by rw [hloc]⟩)
    (fun row t hrow ht => by
      rw [hset, if_pos rfl] at hrow
      cases hrow
      cases ht
      rw [hloc]
      exact .owner (hs₃.owner ▸ ho))
  have hpub : Publishes (host.scopedKey loc) base { s₃ with
      index := index.set (host.scopedKey loc) { entry with instanceId := some token } } := by
    refine ⟨fun k hk => by rw [hset, if_neg hk, hindex k hk], fun lease hl row hrow ht => ?_⟩
    rw [hset, if_pos rfl] at hrow
    cases hrow
    cases ht
    exact hnew lease (hs₃.leases lease hl) rfl
  exact ⟨⟨h', hpub⟩, hlater, .pure hkeep ⟨h', hpub⟩ fun _ _ _ => trivial⟩

/-- The handler of a creation drops its row, or leaves it. -/
theorem unwind_safe {index base : IndexData} {loc : Loc} {existedBefore : Bool} {e : SessionError}
    (h : Publishable host roots (host.scopedKey loc) base s)
    (hindex : ∀ k, k ≠ host.scopedKey loc → index.get? k = base.get? k) :
    Safe host roots (fun _ _ => True)
      (unwind faulty index (host.scopedKey loc) loc existedBefore e) s := by
  have hcompensate : ∀ s, Publishable host roots (host.scopedKey loc) base s →
      Safe host roots (fun _ _ => True)
        (compensateLocked faulty index (host.scopedKey loc) >>= fun _ => throw e : Txn Row) s := by
    intro s h
    refine safe_bind ((safe_tryCatch_pure (.last (safe_write h.1 fun s₁ hs₁ h₁ => ?_))).mono
      (fun _ hk => hk) fun _ _ hk _ => safe_throw hk)
    obtain ⟨h', hlater⟩ := h₁.setRow (index.erase (host.scopedKey loc)) (h.2.spare.shrunk hs₁)
      (fun k hk => by rw [Dict.get?_erase, if_neg hk, hindex k hk, hs₁.index, h.2.others k hk])
      (fun row hrow => by
        rw [Dict.get?_erase, if_pos rfl] at hrow
        cases hrow)
      (fun row t hrow _ => by
        rw [Dict.get?_erase, if_pos rfl] at hrow
        cases hrow)
    exact ⟨h', hlater, safe_pure h' fun _ _ _ => trivial⟩
  unfold unwind
  split
  · exact hcompensate s h
  · refine safe_read h.1 fun s₁ hs₁ h₁ => ?_
    split
    · exact safe_throw h₁
    · exact hcompensate s₁ ⟨h₁, h.2.shrunk hs₁⟩

/-- A row without a manifest gives way. -/
theorem reclaim_safe {β : Type} {post : β → World → Prop} {index : IndexData} {key : ScopedKey}
    {f : IndexData → Txn β} (h : Exclusive host roots s) (hindex : s.index = index)
    (hnext : ∀ index' s₁, Shrunk s s₁ → Exclusive host roots s₁ →
      (∀ k, k ≠ key → index'.get? k = index.get? k) → Spare s₁ key →
      Safe host roots post (f index') s₁) :
    Safe host roots post (reclaim faulty index key >>= f) s := by
  unfold reclaim
  cases hget : index.get? key with
  | none =>
    refine hnext index s (.refl s) h (fun _ _ => rfl) (h.spare fun row hrow => ?_)
    rw [hindex, hget] at hrow
    cases hrow
  | some existing =>
    refine safe_bind (safe_read h fun s₁ hs₁ h₁ => ?_)
    split
    · exact safe_throw h₁
    · rename_i hm
      refine safe_pure h₁ fun s₂ hs₂ h₂ => ?_
      refine hnext _ s₂ (hs₁.trans hs₂) h₂ (fun k hk => by rw [Dict.get?_erase, if_neg hk])
        (h₂.spare fun row hrow => ?_)
      rw [hs₂.index, hs₁.index, hindex, hget] at hrow
      cases hrow
      rw [hs₂.manifest]
      exact Option.not_isSome_iff_eq_none.mp hm

theorem createSessionTxn_safe {req : CreateRequest} (h : Exclusive host roots s)
    (hroots : roots req.root) :
    Safe host roots (fun _ _ => True) (createSessionTxn host faulty req) s := by
  unfold createSessionTxn
  refine safe_read h fun s₁ _ h₁ => safe_read h₁ fun s₂ hs₂ h₂ => ?_
  split
  · exact safe_throw h₂
  refine reclaim_safe h₂ hs₂.index fun index s₃ hs₃ h₃ hsame hspare => ?_
  show Safe host roots _ (ite _ _ _) s₃
  split
  · exact safe_throw h₃
  refine safe_read h₃ fun s₄ hs₄ h₄ => safe_read h₄ fun s₅ hs₅ h₅ => ?_
  -- the row is written first
  have hs := (hs₃.trans hs₄).trans hs₅
  refine safe_write h₅ fun s₆ hs₆ h₆ => ?_
  have hset : ∀ k, (index.set (host.scopedKey req.loc) (buildEntry req s₄.releases)).get? k =
      if k = host.scopedKey req.loc then some (buildEntry req s₄.releases) else index.get? k :=
    fun k => Dict.get?_set ..
  have hold : ∀ k, k ≠ host.scopedKey req.loc → index.get? k = s₆.index.get? k := by
    intro k hk
    rw [hsame k hk, hs₆.index, hs.index, hs₂.index]
  obtain ⟨h', hlater⟩ := h₆.setRow
    (index.set (host.scopedKey req.loc) (buildEntry req s₄.releases))
    (hspare.shrunk (hs₄.trans (hs₅.trans hs₆)))
    (fun k hk => by rw [hset, if_neg hk, hold k hk])
    (fun row hrow => by
      rw [hset, if_pos rfl] at hrow
      cases hrow
      exact ⟨hroots, rfl⟩)
    (fun row t hrow ht => by
      rw [hset, if_pos rfl] at hrow
      cases hrow
      cases ht)
  refine ⟨h', hlater, ?_⟩
  have hpub : Publishable host roots (host.scopedKey req.loc) index { s₆ with
      index := index.set (host.scopedKey req.loc) (buildEntry req s₄.releases) } := by
    refine ⟨h', fun k hk => by rw [hset, if_neg hk], fun lease hl row hrow ht => ?_⟩
    rw [hset, if_pos rfl] at hrow
    cases hrow
    cases ht
  have hindex : ∀ k, k ≠ host.scopedKey req.loc →
      (index.set (host.scopedKey req.loc) (buildEntry req s₄.releases)).get? k = index.get? k :=
    fun k hk => by rw [hset, if_neg hk]
  exact .tryCatch ((publish_safe hpub hroots rfl hindex).mono (fun _ hk => hk)
    fun _ _ hk _ s₇ hs₇ => ⟨hk.1.shrunk hs₇, trivial⟩) fun _ _ hk => unwind_safe hk hindex

/-! ## 2. Operations of the index -/

/-- A transaction, and nothing to say of its result. -/
theorem ends_safe {α : Type} {x : Txn α} {post : Unit → World → Prop} (h : Exclusive host roots s)
    (hx : ∀ s₁, Exclusive host roots s₁ → Safe host roots (fun _ _ => True) x s₁)
    (hpost : ∀ s₁, post () s₁) :
    Locked.Job.Ends (exclusion host roots) post (discard (Locked.Job.locked x)) s :=
  .discard h (.locked exclusion_open fun s₁ _ h₁ => (hx s₁ h₁).mono (fun _ hk => hk)
    fun _ _ _ _ _ _ _ _ s₂ _ _ => hpost s₂)

theorem ends_name {α : Type} {post : α → World → Prop} {name : String} {f : Unit → Job α}
    (h : Locked.Job.Ends (exclusion host roots) post (f ()) s) :
    Locked.Job.Ends (exclusion host roots) post (checkName host name >>= f) s := by
  unfold checkName
  split
  · exact h
  · exact .throw

theorem staleKeys_safe (entries : List (ScopedKey × Row)) (h : Exclusive host roots s) :
    Locked.Job.Ends (exclusion host roots) (fun _ _ => True) (staleKeys entries) s := by
  induction entries generalizing s with
  | nil => exact .pure fun _ _ _ => trivial
  | cons e rest ih =>
    exact .read fun s₁ _ h₁ => .read fun s₂ _ h₂ => .bind h₂ ((ih h₂).mono fun _ _ _ _ _ =>
      .pure fun _ _ _ => trivial)

theorem listSessions_safe (h : Exclusive host roots s) :
    Locked.Job.Ends (exclusion host roots) (fun _ _ => True) (listSessions faulty) s := by
  unfold listSessions
  refine .bind h (.locked exclusion_open fun s₁ _ h₁ => ?_)
  refine .last (safe_read h₁ fun s₂ _ h₂ => safe_pure h₂ fun s₃ _ _ _ s₄ _ _ _ h₄ => ?_)
  refine .bind h₄ ((staleKeys_safe _ h₄).mono fun stale s₅ _ _ h₅ => ?_)
  split
  · exact .pure fun _ _ _ => trivial
  · exact .locked exclusion_open fun s₆ _ h₆ => (pruneStale_safe h₆).mono (fun _ hk => hk)
      fun _ _ _ _ _ _ _ _ => trivial

theorem getSession_safe {name : String} {root : Option String} (h : Exclusive host roots s) :
    Locked.Job.Ends (exclusion host roots) (fun _ _ => True) (getSession host faulty name root) s := by
  unfold getSession
  refine ends_name (.bind h (.locked exclusion_open fun s₁ _ h₁ => ?_))
  refine safe_read h₁ fun s₂ _ h₂ => .last (safe_ofExcept h₂ fun found _ => ?_)
  refine safe_pure h₂ fun s₃ _ _ _ s₄ _ _ _ h₄ => ?_
  refine .read fun s₅ _ h₅ => .read fun s₆ _ h₆ => ?_
  split
  · exact .pure fun _ _ _ => trivial
  · exact .locked exclusion_open fun s₇ _ h₇ => (getLatest_safe h₇).mono (fun _ hk => hk)
      fun _ _ _ _ _ _ _ _ => trivial

/-- The output of a worker leaves sessions as they are. -/
theorem Exclusive.edits (h : Exclusive host roots s) {loc : Loc} (he : Edits loc s s')
    (hleases : s'.leases = s.leases) : Exclusive host roots s' ∧ Dwindles s s' := by
  have hman : ∀ l, s'.manifest l ≠ none ↔ s.manifest l ≠ none := by
    intro l
    by_cases hl : l = loc
    · subst hl
      have hown := he.own
      cases hm : s.manifest l <;> cases hm' : s'.manifest l <;> simp [hm, hm'] at hown ⊢
    · rw [he.manifest l hl]
  refine h.grow s' he.index he.owner he.inventory hleases he.issued (fun l hm => (hman l).mpr hm)
    fun l hl => ?_
  rw [he.sessionDir]
  rw [he.owner] at hl
  exact h.housed l (hl.imp (hman l).mp id)

/-- **Every operation of the index keeps workers and deletions apart.** -/
theorem Operation.safe (op : Operation) (hplain : op.Plain roots) (h : Exclusive host roots s) :
    Locked.Job.Ends (exclusion host roots) (fun _ _ => True) (op.job host faulty) s := by
  cases op with
  | create req => exact ends_name (ends_safe h (fun _ h₁ => createSessionTxn_safe h₁ hplain)
      fun _ => trivial)
  | delete name root expected cleanup => exact hplain.elim
  | list => exact .discard h ((listSessions_safe h).mono fun _ _ _ _ _ _ => trivial)
  | get name root => exact .discard h ((getSession_safe h).mono fun _ _ _ _ _ _ => trivial)
  | update name now root =>
    exact ends_name (ends_safe h (fun _ => updateSession_safe) fun _ => trivial)
  | setUuid name claudeSessionId root => exact ends_safe h (fun _ => updateUuid_safe) fun _ => trivial
  | setCodexThread name threadId root expected =>
    exact ends_safe h (fun _ => updateCodexThread_safe) fun _ => trivial
  | write name root expected required output =>
    refine ends_name (ends_safe h (fun s₁ h₁ => runSessionInstanceTxn_safe h₁ ?_) fun _ => trivial)
    intro key row s₂ h₂ _
    have hwithin := (output.edits (row.loc key)).and (hplain (row.loc key))
    exact (Locked.Txn.Keeps.within exclusion_open (exclusion host roots).keeping_inv
      (fun s s' hk hr => hk.edits hr.1 hr.2) hwithin h₂).mono (fun _ hk => hk) fun _ _ _ _ => trivial

/-! ## 3. Workers -/

theorem createWorkerLease_safe {root name : String} {expected : InstanceId} {file : Nat}
    (h : Exclusive host roots s) :
    Locked.Job.Ends (exclusion host roots) (fun _ _ => True)
      (createWorkerLease host faulty root name expected file) s := by
  refine ends_name (.bind h (.locked exclusion_open fun s₁ _ h₁ => ?_))
  refine (runSessionInstanceTxn_safe h₁ fun key row s₂ h₂ hb => ?_).mono (fun _ hk => hk)
    fun admitted _ _ _ _ _ _ _ _ _ => ?_
  · -- the session is there when the lease is published
    refine .last (safe_write h₂ fun s₃ hs₃ h₃ => ?_)
    obtain ⟨h', hless⟩ := h₃.addLease ⟨expected, file⟩ (hs₃.backs hb)
    exact ⟨h', hless, safe_pure h' fun _ _ _ => trivial⟩
  · cases admitted with
    | true => exact .pure fun _ _ _ => trivial
    | false => exact .throw

theorem shrunk_unlink (s : World) (lease : Lease) :
    Shrunk s { s with leases := s.leases.filter fun held => held ≠ lease } :=
  ⟨rfl, rfl, rfl, rfl, rfl, fun _ => .inl rfl, fun _ hl => (List.mem_filter.mp hl).1⟩

theorem unlinkLease_safe (lease : Lease) :
    Locked.Job.Ends (exclusion host roots) (fun _ _ => True) (unlinkLease lease) s := by
  rintro s₁ _ _ b s' (⟨rfl, rfl⟩ | ⟨rfl, rfl⟩)
  · exact ⟨shrunk_unlink s₁ lease, fun _ _ _ _ _ => trivial⟩
  · exact ⟨.refl _, fun _ _ _ _ _ => trivial⟩

/-! ## 4. Instances -/

/-- A session gets an owner file, or keeps the one that it has. -/
theorem migrateInstanceIdentity_safe {β : Type} {post : β → World → Prop} {loc : Loc}
    {expectedText : Option String} {expected : Option InstanceId} {requireOwnerless : Bool}
    {f : InstanceId → Txn β} (h : Exclusive host roots s)
    (hnext : ∀ token s₁, Exclusive host roots s₁ → s₁.index = s.index →
      s₁.owner loc = some token → (∀ t, expected = some t → token = t) →
      Safe host roots post (f token) s₁) :
    Safe host roots post
      (migrateInstanceIdentity faulty loc expectedText expected requireOwnerless >>= f) s := by
  unfold migrateInstanceIdentity
  refine safe_bind (safe_read h fun s₁ hs₁ h₁ => ?_)
  cases hm : s₁.manifest loc with
  | none => exact safe_throw h₁
  | some manifest =>
    show Safe host roots _ (ite _ _ _) s₁
    split
    · exact safe_throw h₁
    refine safe_read h₁ fun s₂ hs₂ h₂ => ?_
    show Safe host roots _ (ite _ _ _) s₂
    split
    · exact safe_throw h₂
    show Safe host roots _ (ite _ _ _) s₂
    split
    · exact safe_throw h₂
    rename_i hexpected
    cases ho : s₂.owner loc with
    | some token =>
      refine safe_pure h₂ fun s₃ hs₃ h₃ => hnext token s₃ h₃ ?_ (hs₃.owner ▸ ho) fun t ht => ?_
      · rw [hs₃.index, hs₂.index, hs₁.index]
      · subst ht
        rw [ho] at hexpected
        simpa using hexpected
    | none =>
      refine .last (safe_attempt h₂ fun s₃ hs₃ h₃ => ?_)
      rintro token s₄ ⟨hfresh, rfl⟩
      have hdir : s₃.sessionDir loc = true := by
        refine h₃.housed loc (.inl ?_)
        rw [hs₃.manifest, hs₂.manifest, hm]
        exact Option.some_ne_none _
      have hvacant : Vacant s₃ loc := by
        intro lease hl hn
        have hback := (h₃.backed hl hn).2
        rw [hs₃.owner, ho] at hback
        cases hback
      obtain ⟨h', hless⟩ := h₃.setOwner hfresh hdir hvacant
      refine ⟨h', hless, safe_pure h' fun s₅ hs₅ h₅ => hnext token s₅ h₅ ?_ ?_ fun t ht => ?_⟩
      · rw [hs₅.index, hs₃.index, hs₂.index, hs₁.index]
      · rw [hs₅.owner]
        exact Function.update_self ..
      · subst ht
        rw [ho] at hexpected
        simp at hexpected

/-- A migration ends with the instance of a session that it found. -/
theorem migrateSessionIdentity_safe {name : String} {root expectedText : Option String}
    {requireOwnerless : Bool} (h : Exclusive host roots s) :
    Safe host roots (fun token s' => ∃ found : ScopedKey × Row, roots found.2.root ∧
        host.scopedKey (found.2.loc found.1) = found.1 ∧
        (∀ path, root = some path → found.1 = host.scopedKey ⟨path, name⟩) ∧
        s'.owner (found.2.loc found.1) = some token)
      (migrateSessionIdentity host faulty name root expectedText requireOwnerless) s := by
  refine safe_read h fun s₁ _ h₁ => safe_ofExcept h₁ fun found hfound => ?_
  have hrow := findRow_ok hfound
  have hfacts : roots found.2.root ∧ host.scopedKey (found.2.loc found.1) = found.1 ∧
      ∀ path, root = some path → found.1 = host.scopedKey ⟨path, name⟩ := by
    obtain ⟨hroot, hkey⟩ := h₁.rooted _ _ hrow
    refine ⟨hroot, hkey, fun path hpath => ?_⟩
    subst hpath
    rw [findRow_scoped] at hfound
    split at hfound
    · cases hfound
      rfl
    · cases hfound
  show Safe host roots _ (ite _ _ _) s₁
  split
  · exact safe_throw h₁
  refine migrateInstanceIdentity_safe h₁ fun token s₂ h₂ hindex ho hexpected => ?_
  show Safe host roots _ (ite _ _ _) s₂
  split
  · exact safe_pure h₂ fun s₃ hs₃ _ => ⟨found, hfacts.1, hfacts.2.1, hfacts.2.2, hs₃.owner ▸ ho⟩
  · rename_i hnew
    -- the row had no instance
    have hnone : found.2.instanceId = none := by
      cases hinst : found.2.instanceId with
      | none => rfl
      | some t => exact absurd (by rw [hinst, hexpected t hinst]) hnew
    have hspare : Spare s₂ found.1 := by
      intro lease _ row hrow' ht
      rw [hindex, hrow] at hrow'
      cases hrow'
      rw [hnone] at ht
      cases ht
    refine safe_write h₂ fun s₃ hs₃ h₃ => ?_
    have hset : ∀ k, (s₁.index.set found.1 { found.2 with instanceId := some token }).get? k =
        if k = found.1 then some { found.2 with instanceId := some token } else s₁.index.get? k :=
      fun k => Dict.get?_set ..
    obtain ⟨h', hless⟩ := h₃.setRow
      (s₁.index.set found.1 { found.2 with instanceId := some token })
      (hspare.shrunk hs₃)
      (fun k hk => by rw [hset, if_neg hk, hs₃.index, hindex])
      (fun row hr => by
        rw [hset, if_pos rfl] at hr
        cases hr
        exact ⟨hfacts.1, hfacts.2.1⟩)
      (fun row t hr ht => by
        rw [hset, if_pos rfl] at hr
        cases hr
        cases ht
        exact .owner (hs₃.owner ▸ ho))
    refine ⟨h', hless, safe_pure h' fun s₄ hs₄ _ => ⟨found, hfacts.1, hfacts.2.1, hfacts.2.2, ?_⟩⟩
    rw [hs₄.owner]
    exact hs₃.owner ▸ ho

/-! ## 5. Planning -/

/-- An instance that was given out is named at one place, if anywhere. -/
structure NamedAt (s : World) (t : InstanceId) (loc : Loc) : Prop where
  issued : t ∈ s.issued
  only : ∀ l, Names s t l → l = loc

theorem NamedAt.dwindles {t : InstanceId} {loc : Loc} (h : NamedAt s t loc) (hs : Dwindles s s') :
    NamedAt s' t loc :=
  ⟨hs.issued t h.issued, fun l hn => h.only l (hs.names t h.issued l hn)⟩

theorem Exclusive.namedAt (h : Exclusive host roots s) {t : InstanceId} {loc : Loc}
    (hn : Names s t loc) : NamedAt s t loc :=
  ⟨h.issued t loc hn, fun l hl => h.placed t l loc hl hn⟩

variable (roots) in
/-- What a plan rests on: an inventory names its instance, and a new plan is
of a row. -/
structure Planned (plan : DeletionPlan) (s : World) : Prop where
  retry : plan.retry = true → ∀ t, plan.instanceId = some t → NamedAt s t plan.loc
  fresh : plan.retry = false → roots plan.root

theorem planRetry_ends {cleaner : Cleaner} {loc : Loc} {options : DeletionOptions}
    {saved : DeletionPlan} (h : Exclusive host roots s) (hsaved : s.inventory loc = some saved) :
    Locked.Job.Ends (exclusion host roots) (Planned roots) (planRetry cleaner loc options saved) s := by
  unfold planRetry
  split
  · exact .throw
  rename_i hown
  split
  · exact .throw
  have hloc : saved.loc = loc := by
    simp only [Bool.or_eq_true, decide_eq_true_eq, not_or, Decidable.not_not] at hown
    exact hown.2
  refine .read fun s₁ hs₁ _ => .read fun s₂ hs₂ _ => ?_
  split
  · exact .throw
  refine .pure fun s₃ hs₃ _ => ⟨fun _ t ht => ?_, fun hf => by cases hf⟩
  have hat : NamedAt s t loc := h.namedAt (.inventory hsaved ht)
  rw [← hloc] at hat
  exact ((hat.dwindles hs₁).dwindles hs₂).dwindles hs₃

theorem planFresh_ends {cleaner : Cleaner} {loc : Loc} {options : DeletionOptions} {row : Row}
    (hroot : roots loc.root) :
    Locked.Job.Ends (exclusion host roots) (Planned roots) (planFresh cleaner loc options row) s := by
  refine .read fun s₁ _ _ => ?_
  cases s₁.manifest loc with
  | none => exact .throw
  | some manifest =>
    refine .read fun s₂ _ _ => ?_
    split
    · exact .throw
    refine .read fun s₃ _ _ => ?_
    split
    · exact .throw
    refine .read fun s₄ _ _ => .read fun s₅ _ _ => .read fun s₆ _ _ => ?_
    split
    · exact .throw
    · exact .pure fun s₇ _ _ => ⟨fun ht => (by cases ht), fun _ => hroot⟩

theorem planSessionDeletion_ends {cleaner : Cleaner} {name : String} {root : Option String}
    {options : DeletionOptions} :
    Locked.Job.Ends (exclusion host roots) (Planned roots)
      (planSessionDeletion host cleaner name root options) s := by
  refine ends_name (.read fun s₁ _ h₁ => ?_)
  cases hkey : resolveKeyStrict host s₁.index name root with
  | error e => exact .throw
  | ok key =>
    dsimp only
    cases hroot : ((key.bind s₁.index.get?).map Row.root).or root with
    | none => exact .throw
    | some path =>
      refine .read fun s₂ _ h₂ => ?_
      cases hsaved : s₂.inventory ⟨path, name⟩ with
      | some saved => exact planRetry_ends h₂ hsaved
      | none =>
        cases hrow : key.bind s₁.index.get? with
        | none => exact .throw
        | some row =>
          refine planFresh_ends ?_
          rw [hrow] at hroot
          cases hroot
          cases key with
          | none => cases hrow
          | some key => exact (h₁.rooted key row hrow).1

/-! ## 6. Applying -/

theorem bindInstance_ends {plan : DeletionPlan}
    (hdigest : ∀ r r', roots r → roots r' → host.digest r = host.digest r' → r = r')
    (h : Exclusive host roots s) (hplan : Planned roots plan s) :
    Locked.Job.Ends (exclusion host roots) (fun token s' => NamedAt s' token plan.loc)
      (bindInstance host faulty plan) s := by
  unfold bindInstance
  split
  · rename_i hretry
    cases hinst : plan.instanceId with
    | none => exact .throw
    | some token =>
      exact .pure fun s₁ hs₁ _ => (hplan.retry hretry token hinst).dwindles hs₁
  · rename_i hretry
    have hroot := hplan.fresh (Bool.eq_false_iff.mpr hretry)
    refine .bind h (.locked exclusion_open fun s₁ _ h₁ => (migrateSessionIdentity_safe h₁).mono
      (fun _ hk => hk) fun token s₂ h₂ hfound _ s₃ hs₃ _ _ h₃ => ?_)
    obtain ⟨found, hfroot, hfkey, hfpath, ho⟩ := hfound
    -- roots of one digest are one root
    have hloc : found.2.loc found.1 = plan.loc := by
      have hkey := hfpath plan.root rfl
      rw [hkey] at hfkey
      have hsame : found.2.root = plan.root :=
        hdigest _ _ hfroot hroot (congrArg ScopedKey.digest hfkey)
      rw [hkey, Row.loc, hsame]
      rfl
    have hat : NamedAt s₂ token plan.loc := hloc ▸ h₂.namedAt (.owner ho)
    split
    · exact .throw
    · exact .pure fun s₄ hs₄ _ => (hat.dwindles hs₃).dwindles hs₄

/-- The manifest and the owner file of a session without workers go. -/
theorem deleteLocked_safe {β : Type} {post : β → World → Prop} {index : IndexData} {loc : Loc}
    {f : Unit → Txn β}
    (h : Exclusive host roots s ∧ s.index = index ∧ Vacant s loc)
    (hnext : ∀ s₁, Exclusive host roots s₁ ∧ s₁.index = index ∧ Vacant s₁ loc →
      s₁.owner loc = none → Safe host roots post (f ()) s₁) :
    Safe host roots post (deleteLocked faulty loc >>= f) s := by
  unfold deleteLocked
  refine safe_bind (safe_read h.1 fun s₁ hs₁ h₁ => ?_)
  have hv₁ := h.2.2.shrunk hs₁
  have hi₁ := hs₁.index.trans h.2.1
  cases hdir : s₁.sessionDir loc with
  | false =>
    refine safe_pure h₁ fun s₂ hs₂ h₂ => hnext s₂ ⟨h₂, hs₂.index.trans hi₁, hv₁.shrunk hs₂⟩ ?_
    by_contra ho
    have htrue := h₂.housed loc (.inr ho)
    rw [hs₂.sessionDir, hdir] at htrue
    cases htrue
  | true =>
    have hupdate : ∀ {α : Type} (g : Loc → Option α) (l : Loc),
        Function.update g loc none l = g l ∨ l = loc ∧ Function.update g loc none l = none := by
      intro α g l
      by_cases hl : l = loc
      · exact .inr ⟨hl, by rw [hl, Function.update_self]⟩
      · exact .inl (Function.update_of_ne hl ..)
    -- the manifest
    refine safe_write h₁ fun s₂ hs₂ h₂ => ?_
    obtain ⟨h₂', hless₂, hv₂⟩ := h₂.remove
      (⟨rfl, rfl, rfl, rfl, hupdate s₂.manifest, fun _ => .inl rfl, fun _ => .inl rfl⟩ :
        Removes loc s₂ { s₂ with manifest := Function.update s₂.manifest loc none })
      (hv₁.shrunk hs₂)
    refine ⟨h₂', hless₂, ?_⟩
    -- the owner file
    refine safe_write h₂' fun s₃ hs₃ h₃ => ?_
    obtain ⟨h₃', hless₃, hv₃⟩ := h₃.remove
      (⟨rfl, rfl, rfl, rfl, fun _ => .inl rfl, hupdate s₃.owner, fun _ => .inl rfl⟩ :
        Removes loc s₃ { s₃ with owner := Function.update s₃.owner loc none })
      (hv₂.shrunk hs₃)
    refine ⟨h₃', hless₃, ?_⟩
    -- the directory
    refine .last (safe_write h₃' fun s₄ hs₄ h₄ => ?_)
    have hman : s₄.manifest loc = none := by
      rw [hs₄.manifest, hs₃.manifest]
      exact Function.update_self ..
    have howner : s₄.owner loc = none := by
      rw [hs₄.owner]
      exact Function.update_self ..
    obtain ⟨h₄', hless₄, hv₄⟩ := h₄.remove
      (⟨rfl, rfl, rfl, rfl, fun _ => .inl rfl, fun _ => .inl rfl, fun l => by
        by_cases hl : l = loc
        · exact .inr ⟨hl, hl ▸ hman, hl ▸ howner⟩
        · exact .inl (Function.update_of_ne hl ..)⟩ :
        Removes loc s₄ { s₄ with sessionDir := Function.update s₄.sessionDir loc false })
      (hv₃.shrunk hs₄)
    refine ⟨h₄', hless₄, safe_pure h₄' fun s₅ hs₅ h₅ => hnext s₅ ⟨h₅, ?_, hv₄.shrunk hs₅⟩ ?_⟩
    · rw [hs₅.index, hs₄.index, hs₃.index, hs₂.index]
      exact hi₁
    · rw [hs₅.owner]
      exact howner

variable (host roots) in
/-- A cleanup at work: the index is as the transaction read it, and the
session has no workers. -/
abbrev Cleaning (index : IndexData) (loc : Loc) (s : World) : Prop :=
  Exclusive host roots s ∧ s.index = index ∧ Vacant s loc

theorem cleaning_keeping (index : IndexData) (loc : Loc) :
    (exclusion host roots).Keeping (Cleaning host roots index loc) :=
  exclusive_keeping fun _ _ h hs => ⟨hs.index.trans h.1, h.2.shrunk hs⟩

theorem Cleaning.shrunk {index : IndexData} {loc : Loc} (h : Cleaning host roots index loc s)
    (hs : Shrunk s s') : Cleaning host roots index loc s' :=
  (cleaning_keeping index loc).quiet s s' h hs

/-- Without its directory a session has no owner file. -/
theorem Exclusive.unowned (h : Exclusive host roots s) {loc : Loc}
    (hdir : s.sessionDir loc = false) : s.owner loc = none := by
  by_contra ho
  rw [h.housed loc (.inr ho)] at hdir
  cases hdir

theorem removeDirectory_safe {plan : DeletionPlan} {index : IndexData}
    (h : Cleaning host roots index plan.loc s) :
    Safe host roots (fun _ s' => Cleaning host roots index plan.loc s' ∧ s'.owner plan.loc = none)
      (removeDirectory faulty plan) s := by
  unfold removeDirectory
  refine safe_read h.1 fun s₁ hs₁ h₁ => ?_
  have hc₁ := Cleaning.shrunk h hs₁
  have hdelete : ∀ s, Cleaning host roots index plan.loc s →
      Safe host roots (fun _ s' => Cleaning host roots index plan.loc s' ∧ s'.owner plan.loc = none)
        (deleteLocked faulty plan.loc) s := fun s hc =>
    .last (deleteLocked_safe hc fun s' hc' ho => safe_pure hc'.1 fun s'' hs _ =>
      ⟨Cleaning.shrunk hc' hs, hs.owner ▸ ho⟩)
  cases hdir : s₁.sessionDir plan.loc with
  | false =>
    exact safe_pure h₁ fun s₂ hs₂ h₂ =>
      ⟨Cleaning.shrunk hc₁ hs₂, h₂.unowned (hs₂.sessionDir ▸ hdir)⟩
  | true =>
    refine safe_read h₁ fun s₂ hs₂ h₂ => ?_
    cases s₂.manifest plan.loc with
    | none =>
      show Safe host roots _ (ite _ _ _) s₂
      split
      · exact hdelete s₂ (Cleaning.shrunk hc₁ hs₂)
      · exact safe_throw h₂
    | some manifest =>
      show Safe host roots _ (ite _ _ _) s₂
      split
      · exact safe_throw h₂
      · exact hdelete s₂ (Cleaning.shrunk hc₁ hs₂)

/-- The inventory names the instance of the row, where the row is. -/
theorem saveRetry_safe {β : Type} {post : β → World → Prop} {plan : DeletionPlan}
    {token : InstanceId} {index : IndexData} {key : ScopedKey} {row : Row} {f : Unit → Txn β}
    (h : Cleaning host roots index plan.loc s) (hplan : plan.instanceId = some token)
    (hrow : index.get? key = some row) (hinst : row.instanceId = some token)
    (hloc : row.loc key = plan.loc)
    (hnext : ∀ s₁, Cleaning host roots index plan.loc s₁ → Safe host roots post (f ()) s₁) :
    Safe host roots post (saveRetry faulty plan >>= f) s := by
  unfold saveRetry
  refine safe_bind (safe_attempt h.1 fun s₁ hs₁ h₁ => ?_)
  have hc₁ := Cleaning.shrunk h hs₁
  rintro saved s₂ (⟨-, rfl, rfl⟩ | ⟨-, rfl, rfl⟩)
  · have hn : Names s₁ token plan.loc := hloc ▸ .row (hc₁.2.1 ▸ hrow) hinst
    obtain ⟨h', hless, hvacant⟩ := h₁.setInventory hplan hn hc₁.2.2
    have hc' : Cleaning host roots index plan.loc
        { s₁ with inventory := Function.update s₁.inventory plan.loc (some plan) } :=
      ⟨h', hc₁.2.1, hvacant⟩
    exact ⟨h', hless, safe_pure h' fun s₃ hs₃ _ => hnext s₃ (Cleaning.shrunk hc' hs₃)⟩
  · exact ⟨h₁, .refl _, safe_throw h₁⟩

/-- **A cleanup finds no worker, or removes nothing**; while it removes, no
one becomes a worker of the session. -/
theorem cleanupWhileLeased_safe {cleaner : Cleaner} {plan : DeletionPlan} {token : InstanceId}
    {index : IndexData} {key : ScopedKey} {row : Row} (h : Exclusive host roots s)
    (hindex : s.index = index) (hplan : plan.instanceId = some token)
    (hrow : index.get? key = some row) (hinst : row.instanceId = some token)
    (hloc : row.loc key = plan.loc)
    (howner : ∀ t, s.owner plan.loc = some t → t = token) :
    Safe host roots (fun _ s' => Cleaning host roots index plan.loc s' ∧ s'.owner plan.loc = none)
      (cleanupWhileLeased faulty cleaner plan token) s := by
  unfold cleanupWhileLeased
  refine safe_read h fun s₁ hs₁ h₁ => safe_read h₁ fun s₂ hs₂ h₂ => ?_
  show Safe host roots _ (ite _ _ _) s₂
  split
  · exact safe_throw h₂
  rename_i hfree
  have hvacant : Vacant s₂ plan.loc := by
    intro lease hl hn
    have hback := (h₂.backed hl hn).2
    rw [hs₂.owner, hs₁.owner] at hback
    refine hfree ?_
    rw [Bool.or_eq_true]
    refine .inl (List.any_eq_true.mpr ⟨lease, hs₂.leases lease hl, ?_⟩)
    exact decide_eq_true (howner _ hback)
  have hc₂ : Cleaning host roots index plan.loc s₂ := by
    refine ⟨h₂, ?_, hvacant⟩
    rw [hs₂.index, hs₁.index, hindex]
  refine safe_read h₂ fun s₃ hs₃ h₃ => safe_read h₃ fun s₄ hs₄ h₄ => ?_
  have hc₄ := Cleaning.shrunk hc₂ (hs₃.trans hs₄)
  show Safe host roots _ (ite _ _ _) s₄
  split
  · exact safe_throw h₄
  have hremove : ∀ s, Cleaning host roots index plan.loc s →
      Safe host roots
        (fun _ s' => Cleaning host roots index plan.loc s' ∧ s'.owner plan.loc = none)
        (cleaner.body plan >>= fun _ => removeDirectory faulty plan) s := by
    intro s hc
    have hbody := Locked.Txn.Keeps.within exclusion_open (cleaning_keeping index plan.loc)
      (fun s s' hk hr => by
        obtain ⟨h', hless, hv⟩ := hk.1.remove hr hk.2.2
        exact ⟨⟨h', hr.index.trans hk.2.1, hv⟩, hless⟩)
      (cleaner.confined plan) hc
    exact safe_bind (hbody.mono (fun _ hk => hk.1) fun _ _ hk _ => removeDirectory_safe hk)
  split
  · exact hremove s₄ hc₄
  · exact saveRetry_safe hc₄ hplan hrow hinst hloc hremove

/-- The owner file is that of the instance, or there is none. -/
theorem ownerMatches_safe {β : Type} {post : β → World → Prop} {loc : Loc} {expected : InstanceId}
    {f : Bool → Txn β} (h : Exclusive host roots s)
    (hmatch : ∀ s₁, Shrunk s s₁ → Exclusive host roots s₁ →
      (∀ t, s₁.owner loc = some t → t = expected) → Safe host roots post (f true) s₁)
    (hnot : ∀ s₁, Exclusive host roots s₁ → Safe host roots post (f false) s₁) :
    Safe host roots post (ownerMatches faulty loc expected >>= f) s := by
  unfold ownerMatches
  refine safe_bind (safe_read h fun s₁ hs₁ h₁ => safe_read h₁ fun s₂ hs₂ h₂ => ?_)
  refine safe_pure h₂ fun s₃ hs₃ h₃ => ?_
  cases hb : !((s₁.manifest loc).isSome || (s₂.owner loc).isSome) ||
      decide (s₂.owner loc = some expected) with
  | false => exact hnot s₃ h₃
  | true =>
    refine hmatch s₃ ((hs₁.trans hs₂).trans hs₃) h₃ fun t ht => ?_
    rw [hs₃.owner] at ht
    rw [ht] at hb
    simpa using hb

/-- A deletion that removed its instance has left no owner file in its place. -/
theorem deleteSessionTxn_safe {cleaner : Cleaner} (plan : DeletionPlan) {token : InstanceId}
    (h : Exclusive host roots s) (hplan : plan.instanceId = some token)
    (hat : NamedAt s token plan.loc) :
    Safe host roots (fun removed s' => removed = true → s'.owner plan.loc = none)
      (deleteSessionTxn host faulty plan.name (some plan.root) token fun _ =>
        cleanupWhileLeased faulty cleaner plan token) s := by
  unfold deleteSessionTxn
  refine safe_read h fun s₁ hs₁ h₁ => safe_ofExcept h₁ fun key hkey => ?_
  cases key with
  | none => exact safe_pure h₁ fun _ _ _ hr => by cases hr
  | some key =>
    dsimp only
    unfold deleteSessionTxn.removeInstance
    cases hrow : s₁.index.get? key with
    | none => exact safe_pure h₁ fun _ _ _ hr => by cases hr
    | some row =>
      show Safe host roots _ (ite _ _ _) s₁
      split
      · exact safe_pure h₁ fun _ _ _ hr => by cases hr
      rename_i hinst
      have hinst : row.instanceId = some token := Decidable.not_not.mp hinst
      -- the row is where the plan is
      have hloc : row.loc key = plan.loc :=
        (hat.dwindles hs₁.dwindles).only _ (.row hrow hinst)
      refine ownerMatches_safe h₁ (fun s₂ hs₂ h₂ howner => ?_)
        fun s₂ h₂ => safe_pure h₂ fun _ _ _ hr => by cases hr
      rw [hloc] at howner
      refine safe_bind ((cleanupWhileLeased_safe h₂ hs₂.index hplan hrow hinst hloc howner).mono
        (fun _ hk => hk) fun _ s₃ h₃ hdone => ?_)
      obtain ⟨hc₃, ho⟩ := hdone
      refine safe_write h₃ fun s₄ hs₄ h₄ => ?_
      have hc₄ := Cleaning.shrunk hc₃ hs₄
      have hspare : Spare s₄ key := by
        intro lease hl row' hrow' ht
        refine hc₄.2.2 lease hl ?_
        rw [hc₄.2.1, hrow] at hrow'
        cases hrow'
        rw [← hloc]
        exact .row (hc₄.2.1.symm ▸ hrow) ht
      obtain ⟨h', hless⟩ := h₄.setRow (s₁.index.erase key) hspare
        (fun k hk => by rw [Dict.get?_erase, if_neg hk, hc₄.2.1])
        (fun r hr => by
          rw [Dict.get?_erase, if_pos rfl] at hr
          cases hr)
        (fun r t hr _ => by
          rw [Dict.get?_erase, if_pos rfl] at hr
          cases hr)
      refine ⟨h', hless, safe_pure h' fun s₅ hs₅ _ _ => ?_⟩
      rw [hs₅.owner]
      exact hs₄.owner ▸ ho

/-- An instance that was given out and has no owner file. -/
structure Retired (s : World) (t : InstanceId) : Prop where
  issued : t ∈ s.issued
  unowned : ∀ loc, s.owner loc ≠ some t

theorem Retired.dwindles {t : InstanceId} (h : Retired s t) (hs : Dwindles s s') : Retired s' t :=
  ⟨hs.issued t h.issued, fun loc ho => h.unowned loc (hs.owner t h.issued loc ho)⟩

/-- Without an owner file where it is named, an instance has none. -/
theorem NamedAt.retired {t : InstanceId} {loc : Loc} (h : NamedAt s t loc)
    (ho : s.owner loc = none) : Retired s t := by
  refine ⟨h.issued, fun l hl => ?_⟩
  rw [h.only l (.owner hl), ho] at hl
  cases hl

theorem verifyCompleted_ends {cleaner : Cleaner} (plan : DeletionPlan) {token : InstanceId}
    (hat : NamedAt s token plan.loc) :
    Locked.Job.Ends (exclusion host roots) (fun _ s' => Retired s' token)
      (verifyCompleted host cleaner plan token) s := by
  refine .read fun s₁ hs₁ _ => .read fun s₂ hs₂ _ => ?_
  split
  · exact .throw
  refine .read fun s₃ hs₃ _ => .read fun s₄ hs₄ _ => ?_
  split
  · exact .throw
  refine .read fun s₅ hs₅ h₅ => ?_
  split
  · exact .throw
  rename_i hleft
  have hdir : s₅.sessionDir plan.loc = false := by
    simp only [Bool.or_eq_true, not_or, Bool.not_eq_true] at hleft
    exact hleft.2
  have hat₅ := ((((hat.dwindles hs₁).dwindles hs₂).dwindles hs₃).dwindles hs₄).dwindles hs₅
  exact .pure fun s₆ hs₆ _ => (hat₅.retired (h₅.unowned hdir)).dwindles hs₆

theorem shrunk_unlinkInventory (s : World) (loc : Loc) :
    Shrunk s { s with inventory := Function.update s.inventory loc none } := by
  refine ⟨rfl, rfl, rfl, rfl, rfl, fun l => ?_, fun _ h => h⟩
  by_cases hl : l = loc
  · exact .inr (hl ▸ Function.update_self ..)
  · exact .inl (Function.update_of_ne hl ..)

theorem applySessionDeletion_ends {cleaner : Cleaner} {plan : DeletionPlan}
    (hdigest : ∀ r r', roots r → roots r' → host.digest r = host.digest r' → r = r')
    (h : Exclusive host roots s) (hplan : Planned roots plan s) :
    Locked.Job.Ends (exclusion host roots) (fun token s' => Retired s' token)
      (applySessionDeletion host faulty cleaner plan) s := by
  unfold applySessionDeletion
  refine .bind h ((bindInstance_ends hdigest h hplan).mono fun token s₁ hat _ h₁ => ?_)
  have hend : ∀ s, Retired s token → Locked.Job.Ends (exclusion host roots)
      (fun token s' => Retired s' token)
      (unlinkInventory plan.loc >>= fun _ => pure token) s := by
    intro s hr
    refine .write fun s₂ hs₂ _ => ⟨shrunk_unlinkInventory s₂ plan.loc, .pure fun s₃ hs₃ _ => ?_⟩
    exact ((hr.dwindles hs₂).dwindles (shrunk_unlinkInventory s₂ plan.loc).dwindles).dwindles hs₃
  refine .bind h₁ (.locked exclusion_open fun s₂ hs₂ h₂ =>
    (deleteSessionTxn_safe { plan with instanceId := some token } h₂ rfl
      (hat.dwindles hs₂)).mono (fun _ hk => hk) fun removed s₃ h₃ hremoved hs₃ s₄ hs₄ _ _ h₄ => ?_)
  have hat₃ := (hat.dwindles hs₂).dwindles hs₃
  cases removed with
  | true => exact hend s₄ ((hat₃.retired (hremoved rfl)).dwindles hs₄)
  | false =>
    exact .bind h₄ ((verifyCompleted_ends { plan with instanceId := some token }
      (hat₃.dwindles hs₄)).mono fun _ s₅ hr _ _ => hend s₅ hr)

/-! ## 7. Every command -/

/-- **Every command keeps workers and deletions apart**, and a deletion that
comes to its end has retired its instance. -/
theorem Command.ends {cleaner : Cleaner} (command : Command roots)
    (hdigest : ∀ r r', roots r → roots r' → host.digest r = host.digest r' → r = r')
    (h : Exclusive host roots s) :
    Locked.Job.Ends (exclusion host roots) (fun r s' => ∀ t, r = some t → Retired s' t)
      (command.job host faulty cleaner) s := by
  have hnone : ∀ s, Locked.Job.Ends (exclusion host roots)
      (fun r s' => ∀ t, r = some t → Retired s' t) (pure none : Job (Option InstanceId)) s :=
    fun _ => .pure fun _ _ _ _ ht => by cases ht
  cases command with
  | index op plain => exact .bind h ((op.safe plain h).mono fun _ s₁ _ _ _ => hnone s₁)
  | migrate name root =>
    refine ends_name (.bind h (ends_safe h (fun s₁ h₁ => ?_) fun s₁ _ _ => hnone s₁))
    exact (migrateSessionIdentity_safe h₁).mono (fun _ hk => hk) fun _ _ _ _ => trivial
  | worker root name expected file =>
    refine .bind h (.bind h ((createWorkerLease_safe h).mono fun lease s₁ _ _ _ => ?_))
    exact (unlinkLease_safe lease).mono fun _ s₂ _ _ _ => hnone s₂
  | sidecar root name expected file exitConfirmed =>
    refine .bind h (.bind h ((createWorkerLease_safe h).mono fun lease s₁ _ _ _ => ?_))
    split
    · exact (unlinkLease_safe lease).mono fun _ s₂ _ _ _ => hnone s₂
    · exact .pure fun s₂ _ _ _ _ => hnone s₂
  | delete name root options =>
    refine .bind h (planSessionDeletion_ends.mono fun plan s₁ hplan _ h₁ => ?_)
    refine .bind h₁ ((applySessionDeletion_ends hdigest h₁ hplan).mono fun token s₂ hr _ _ => ?_)
    refine .pure fun s₃ hs₃ _ t ht => ?_
    cases ht
    exact hr.dwindles hs₃

theorem sessionSystem_keeps (cleaner : Cleaner)
    (hdigest : ∀ r r', roots r → roots r' → host.digest r = host.digest r' → r = r') :
    (sessionSystem host (fun _ => True) cleaner roots).Keeps (exclusion host roots)
      (fun _ _ r s' => ∀ t, r = .ok (some t) → Retired s' t) := by
  refine ⟨rfl, rfl, fun command s h => ?_⟩
  have hends : Locked.Job.Ends (exclusion host roots) (fun r s' => ∀ t, r = some t → Retired s' t)
      (command.job host (fun _ => True) cleaner) s := command.ends hdigest h
  exact Program.Meets.mono (fun r s' hr t ht => hr (some t) ht t rfl) hends

/-! ## 8. A session with a worker, and its deletion -/

/-- Nothing stands in the way of a removal, and there is nothing to remove. -/
def idleCleaner : Cleaner where
  select _ loc options := {
    name := loc.name
    root := loc.root
    instanceId := none
    manifestText := ""
    purge := options.purge
    deleteWorktree := options.deleteWorktree
    deleteBranch := options.deleteBranch
    force := options.force }
  refuses _ _ := false
  changed _ _ := false
  left _ _ := false
  body _ := pure ()
  confined _ := trivial

def plannerLoc : Loc := ⟨"/forge", "planner"⟩

def plannerRow : Row := { root := "/forge", instanceId := some 7, birth := 0 }

/-- One session. -/
def plannerWorld : World where
  index := Dict.empty.set ⟨"planner", "/forge"⟩ plannerRow
  sessionDir loc := loc = plannerLoc
  manifest loc := if loc = plannerLoc then some ⟨"plan", none⟩ else none
  owner loc := if loc = plannerLoc then some 7 else none
  issued := [7]

theorem plannerWorld_get? {key : ScopedKey} {row : Row}
    (h : plannerWorld.index.get? key = some row) :
    key = ⟨"planner", "/forge"⟩ ∧ row = plannerRow := by
  rw [show plannerWorld.index.get? key = _ from Dict.get?_set ..] at h
  split at h
  · cases h
    exact ⟨by assumption, rfl⟩
  · cases h

theorem plannerWorld_names {t : InstanceId} {loc : Loc} (h : Names plannerWorld t loc) :
    t = 7 ∧ loc = plannerLoc := by
  cases h with
  | row hrow ht =>
    obtain ⟨rfl, rfl⟩ := plannerWorld_get? hrow
    cases ht
    exact ⟨rfl, rfl⟩
  | owner ho =>
    simp only [plannerWorld] at ho
    split at ho
    · cases ho
      exact ⟨rfl, by assumption⟩
    · cases ho
  | inventory hi _ => cases hi

theorem plannerWorld_exclusive : Exclusive listingHost (fun _ => True) plannerWorld where
  rooted key row h := by
    obtain ⟨rfl, rfl⟩ := plannerWorld_get? h
    exact ⟨trivial, rfl⟩
  issued t loc h := by
    obtain ⟨rfl, -⟩ := plannerWorld_names h
    exact List.mem_singleton_self 7
  placed t loc loc' h h' := by
    rw [(plannerWorld_names h).2, (plannerWorld_names h').2]
  housed loc h := by
    by_cases hl : loc = plannerLoc
    · exact decide_eq_true hl
    · simp [plannerWorld, hl] at h
  leased _ h := by cases h

/-- The worker's lease is published. -/
theorem plannerWorld_admits (faulty : World → Prop) :
    Section.Runs (runSessionInstanceTxn listingHost faulty "planner" "/forge" 7 [] fun _ =>
      publishLease faulty ⟨7, 0⟩) plannerWorld (.ok true)
      { plannerWorld with leases := [⟨7, 0⟩] } := by
  refine runs_read ?_
  have hfind : findRow listingHost plannerWorld.index "planner" (some "/forge") =
      .ok (⟨"planner", "/forge"⟩, plannerRow) := by decide
  dsimp only
  rw [hfind]
  dsimp only
  have hlive : Section.Runs (instanceLive faulty plannerLoc 7) plannerWorld (.ok true)
      plannerWorld := runs_read (runs_read (runs_read .ret))
  rw [if_neg (by decide)]
  refine Locked.Txn.Runs.bind hlive ?_
  have hrequired : Section.Runs (requiredLive listingHost faulty plannerWorld.index [])
      plannerWorld (.ok true) plannerWorld := .ret
  exact Locked.Txn.Runs.bind hrequired (runs_write .ret)

/-- A worker that has its lease and works. -/
theorem plannerWorld_worker (faulty : World → Prop) :
    ∃ c : Config Unit (Command fun _ => True) World (Except SessionError (Option InstanceId)),
      Reachable (sessionSystem listingHost faulty idleCleaner fun _ => True) plannerWorld c ∧
      c.shared.leases = [⟨7, 0⟩] := by
  have hinit : Reachable (π := Unit)
      (sessionSystem listingHost faulty idleCleaner fun _ => True) plannerWorld
      ⟨plannerWorld, none, fun _ => none⟩ := .init
  have hc₀ := hinit.step (.start (p := ()) (.worker "/forge" "planner" 7 0) rfl)
  obtain ⟨c, hc⟩ := Reachable.section hc₀ (p := ()) Config.update_own rfl
    (plannerWorld_admits faulty)
  exact ⟨c, hc.reachable, by rw [hc.shared]; rfl⟩

/-- The plan of its deletion. -/
def plannerPlan : DeletionPlan where
  name := "planner"
  root := "/forge"
  instanceId := some 7
  manifestText := "plan"
  purge := false
  deleteWorktree := true
  deleteBranch := false
  force := false

/-- The preview, with nothing else going on. -/
theorem plannerWorld_planned :
    Program.Goes (planSessionDeletion listingHost idleCleaner "planner" none {}) plannerWorld
      (pure plannerPlan : Job DeletionPlan) plannerWorld := by
  have hkey : resolveKeyStrict listingHost plannerWorld.index "planner" none =
      .ok (some ⟨"planner", "/forge"⟩) := by decide
  have hrow : plannerWorld.index.get? ⟨"planner", "/forge"⟩ = some plannerRow := by decide
  have hfresh : Program.Goes (planFresh idleCleaner plannerLoc {} plannerRow) plannerWorld
      (pure plannerPlan : Job DeletionPlan) plannerWorld :=
    Locked.Job.Goes.read (Locked.Job.Goes.read (Locked.Job.Goes.read (Locked.Job.Goes.read
      (Locked.Job.Goes.read (Locked.Job.Goes.read .refl)))))
  unfold planSessionDeletion
  refine Locked.Job.Goes.read (g := World.index) ?_
  dsimp only
  rw [hkey]
  dsimp only [Option.bind_some]
  rw [hrow]
  exact Locked.Job.Goes.read hfresh

/-- A lookup that does not raise. -/
theorem runs_found {α : Type} {a : α} {s : World} :
    Section.Runs (MonadExcept.ofExcept (.ok a : Except SessionError α) : Txn α) s (.ok a) s := .ret

theorem plannerWorld_migrated (faulty : World → Prop) :
    Section.Runs (migrateSessionIdentity listingHost faulty "planner" (some "/forge") (some "plan")
      false) plannerWorld (.ok 7) plannerWorld := by
  have hfind : findRow listingHost plannerWorld.index "planner" (some "/forge") =
      .ok (⟨"planner", "/forge"⟩, plannerRow) := by decide
  refine runs_read ?_
  dsimp only
  rw [hfind]
  have hinstance : Section.Runs
      (migrateInstanceIdentity faulty plannerLoc (some "plan") (some 7) false)
      plannerWorld (.ok 7) plannerWorld := runs_read (runs_read .ret)
  exact Locked.Txn.Runs.bind runs_found (Locked.Txn.Runs.bind hinstance .ret)

theorem plannerWorld_removed (faulty : World → Prop) : ∃ s',
    Section.Runs (deleteSessionTxn listingHost faulty "planner" (some "/forge") 7 fun _ =>
      cleanupWhileLeased faulty idleCleaner plannerPlan 7) (released plannerWorld) (.ok true) s' := by
  have hkey : resolveKeyStrict listingHost (released plannerWorld).index "planner" (some "/forge") =
      .ok (some ⟨"planner", "/forge"⟩) := by decide
  have hrow : (released plannerWorld).index.get? ⟨"planner", "/forge"⟩ = some plannerRow := by decide
  have hmatches : Section.Runs (ownerMatches faulty plannerLoc 7) (released plannerWorld)
      (.ok true) (released plannerWorld) := runs_read (runs_read .ret)
  have hsave : ∃ s', Section.Runs (saveRetry faulty plannerPlan) (released plannerWorld) (.ok ()) s' ∧
      s' = { released plannerWorld with
        inventory := Function.update (released plannerWorld).inventory plannerLoc (some plannerPlan) } :=
    ⟨_, Locked.Txn.Runs.attempt (a := true) (.inl ⟨rfl, rfl, rfl⟩) .ret, rfl⟩
  obtain ⟨s₁, hsave, hs₁⟩ := hsave
  have hremove : ∃ s', Section.Runs (removeDirectory faulty plannerPlan) s₁ (.ok ()) s' := by
    subst hs₁
    exact ⟨_, runs_read (runs_read (runs_read (runs_write (runs_write
      (Section.Runs.act (b := .ok ()) (.inl ⟨(), rfl, rfl⟩) .ret)))))⟩
  obtain ⟨s₂, hremove⟩ := hremove
  have hclean : Section.Runs (cleanupWhileLeased faulty idleCleaner plannerPlan 7)
      (released plannerWorld) (.ok ()) s₂ :=
    runs_read (runs_read (runs_read (runs_read (Locked.Txn.Runs.bind hsave hremove))))
  have hdone : Section.Runs (deleteSessionTxn.removeInstance faulty 7
      (fun _ => cleanupWhileLeased faulty idleCleaner plannerPlan 7) (released plannerWorld).index
      ⟨"planner", "/forge"⟩) (released plannerWorld) (.ok true)
      { s₂ with index := (released plannerWorld).index.erase ⟨"planner", "/forge"⟩ } := by
    unfold deleteSessionTxn.removeInstance
    rw [hrow]
    dsimp only
    rw [if_neg (by decide)]
    exact Locked.Txn.Runs.bind hmatches (Locked.Txn.Runs.bind hclean (runs_write .ret))
  refine ⟨{ s₂ with index := (released plannerWorld).index.erase ⟨"planner", "/forge"⟩ },
    runs_read ?_⟩
  rw [hkey]
  exact Locked.Txn.Runs.bind runs_found hdone

/-- The deletion, run alone. -/
theorem plannerWorld_deleted (faulty : World → Prop) :
    ∃ c : Config Unit (Command fun _ => True) World (Except SessionError (Option InstanceId)),
      Reachable (sessionSystem listingHost faulty idleCleaner fun _ => True) plannerWorld c ∧
      c.tasks () = some ⟨.delete "planner" none {}, plannerWorld, .free (.ret (.ok (some 7)))⟩ := by
  have hinit : Reachable (π := Unit)
      (sessionSystem listingHost faulty idleCleaner fun _ => True) plannerWorld
      ⟨plannerWorld, none, fun _ => none⟩ := .init
  have hc₀ := hinit.step (.start (p := ()) (.delete "planner" none {}) rfl)
  obtain ⟨c₁, hc₁⟩ := Reachable.goes (Program.Goes.bind plannerWorld_planned) hc₀ rfl Config.update_own rfl
  have hmigrated := plannerWorld_migrated faulty
  rw [← hc₁.shared] at hmigrated
  obtain ⟨c₂, hc₂⟩ := Reachable.section hc₁.reachable hc₁.own hc₁.lock hmigrated
  have hreleased : c₂.shared = released plannerWorld := by
    rw [hc₂.shared, hc₁.shared]
    rfl
  obtain ⟨s', hremoved⟩ := plannerWorld_removed faulty
  rw [← hreleased] at hremoved
  obtain ⟨c₃, hc₃⟩ := Reachable.section hc₂.reachable hc₂.own hc₂.lock hremoved
  have hend : Program.Goes
      ((unlinkInventory plannerLoc >>= fun _ => pure 7) >>= fun token => pure (some token) :
        Job (Option InstanceId)) (released s')
      (pure (some 7) : Job (Option InstanceId))
      { released s' with inventory := Function.update (released s').inventory plannerLoc none } :=
    .act (b := .ok ()) (.inl ⟨rfl, rfl⟩) .refl
  obtain ⟨c₄, hc₄⟩ := Reachable.goes hend hc₃.reachable hc₃.lock hc₃.own hc₃.shared
  exact ⟨c₄, hc₄.reachable, hc₄.own⟩
/-! ## 9. Every run -/

variable {cleaner : Cleaner} {π : Type} [DecidableEq π] {s₀ : World}
  {c c' : Config π (Command roots) World (Except SessionError (Option InstanceId))}

/-- **No session goes away from under its workers.** In every state of every
run, wherever faults and kills strike, whoever holds a lease of an instance
has its row, its manifest and its owner file in one place, and no inventory
of a deletion names the instance. -/
theorem workers_backed
    (hdigest : ∀ r r', roots r → roots r' → host.digest r = host.digest r' → r = r')
    (hstart : Exclusive host roots s₀)
    (h : Reachable (sessionSystem host (fun _ => True) cleaner roots) s₀ c) :
    ∀ lease ∈ c.shared.leases, (∃ key row, Backs c.shared lease.instanceId key row) ∧
      ∀ loc plan, c.shared.inventory loc = some plan → plan.instanceId ≠ some lease.instanceId := by
  have hx : Exclusive host roots c.shared :=
    (h.ok (sessionSystem_keeps cleaner hdigest) hstart trivial).inv
  intro lease hl
  obtain ⟨key, row, hb⟩ := hx.leased lease hl
  refine ⟨⟨key, row, hb⟩, fun loc plan hplan ht => ?_⟩
  have hloc := hx.placed _ _ _ (.inventory hplan ht) (.row hb.indexed hb.named)
  rw [hloc, hb.inventory] at hplan
  cases hplan

/-- While the worker works, its session is there. -/
theorem workers_backed_planner :
    ∃ c : Config Unit (Command fun _ => True) World (Except SessionError (Option InstanceId)),
      Reachable (sessionSystem listingHost (fun _ => True) idleCleaner fun _ => True) plannerWorld c ∧
      ∃ key row, Backs c.shared 7 key row := by
  obtain ⟨c, hc, hl⟩ := plannerWorld_worker fun _ => True
  refine ⟨c, hc, (workers_backed (fun _ _ _ _ h => h) plannerWorld_exclusive hc ⟨7, 0⟩ ?_).1⟩
  rw [hl]
  exact List.mem_singleton_self _

/-- **A deletion that has come to its end is for good**: in every state that
the run can go on to, no owner file and no lease names its instance. -/
theorem deletion_retires
    (hdigest : ∀ r r', roots r → roots r' → host.digest r = host.digest r' → r = r')
    (hstart : Exclusive host roots s₀)
    (h : Reachable (sessionSystem host (fun _ => True) cleaner roots) s₀ c) {p : π}
    {name : String} {root : Option String} {options : DeletionOptions} {start : World}
    {t : InstanceId}
    (ht : c.tasks p = some ⟨.delete name root options, start, .free (.ret (.ok (some t)))⟩)
    (hlater : Relation.ReflTransGen (Step (sessionSystem host (fun _ => True) cleaner roots)) c c') :
    (∀ loc, c'.shared.owner loc ≠ some t) ∧ ∀ lease ∈ c'.shared.leases, lease.instanceId ≠ t := by
  have hkeeps := sessionSystem_keeps cleaner hdigest
  have hok := h.ok hkeeps hstart trivial
  obtain ⟨hok', hless⟩ := hok.later hkeeps hlater
  have hretired : Retired c'.shared t := Retired.dwindles (hok.result ht t rfl) hless
  refine ⟨hretired.unowned, fun lease hl heq => ?_⟩
  obtain ⟨key, row, hb⟩ := (hok'.inv : Exclusive host roots c'.shared).leased lease hl
  exact hretired.unowned _ (heq ▸ hb.owner)

theorem deletion_retires_planner :
    ∃ c : Config Unit (Command fun _ => True) World (Except SessionError (Option InstanceId)),
      Reachable (sessionSystem listingHost (fun _ => True) idleCleaner fun _ => True) plannerWorld c ∧
      ∀ loc, c.shared.owner loc ≠ some 7 := by
  obtain ⟨c, hc, ht⟩ := plannerWorld_deleted fun _ => True
  exact ⟨c, hc, (deletion_retires (fun _ _ _ _ h => h) plannerWorld_exclusive hc ht .refl).1⟩

end MultiForge.Session
