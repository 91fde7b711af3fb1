import Playchain.Spec.HistoryLists

/-!
# Account histories stay well-formed lists

After any sequence of blocks that are pushed, replayed, undone and popped, the records of every account
have the sequences `removed_ops + 1 .. total_ops`, not more than the limit, and they are linked from the
most recent one down (`ListOk`). An operation has its **position in the chain** as its id, whatever the
options of the plugin are, and with partial operations it is stored exactly while a record refers to it.

This holds as long as the accounts that an operation applies to **exist** (`Known`). A proposal may name
accounts that do not: then the plugin is stopped in the middle of the block, and the later operations of
the block do not take up their ids (`ids_differ`).
-/

namespace Playchain.AccountHistory

/-! ### The steps of the plugin -/

section Steps

variable {τ : Type} {cfg : Config} {limit : ℕ → ℕ} {entries : List (Option (AppliedOperation τ))}
  {pending : Option ℕ} {s : Session τ} {a operationId : ℕ} {st : AccountStatistics}

theorem appendRecord_spec (h : Inv cfg limit entries pending s.db)
    (hst : statistics? s.db a = some st) (hid : operationId < entries.length)
    (hpending : pending = none ∨ pending = some operationId)
    (hexists : cfg.partialOperations = true → ∃ c, operation? s.db operationId = some c)
    (hnew : ∀ k r, record? s.db k = some r → r.account = a → r.operationId ≠ operationId) :
    ∃ s', s.appendRecord a operationId = .ok s' ∧ Called s s' ∧
      Inv cfg (Function.update limit a (limit a + 1)) entries none s'.db ∧
      statistics? s'.db a =
        some { st with mostRecentOp := s.db.nextId .record, totalOps := st.totalOps + 1 } ∧
      record? s'.db = Function.update (record? s.db) (s.db.nextId .record)
        (some ⟨a, operationId, st.totalOps + 1, st.mostRecentOp⟩) ∧
      ∀ j, j ≠ HistoryIndex.record → s'.db.nextId j = s.db.nextId j := by
  -- no record has the next sequence number of the account, and none is for this operation
  have hkeys : ∀ i b, s.db.objects.find? i = some b → UniqueKeys.collide b
      (HistoryObject.record ⟨a, operationId, st.totalOps + 1, st.mostRecentOp⟩ : HistoryObject τ) =
        false := by
    intro i b hb
    cases b with
    | operation c => rfl
    | statistics st => rfl
    | record r =>
      have hi : i = toLex (HistoryIndex.record, (ofLex i).2) := by
        have hkind := h.shaped i r hb
        rw [← hkind]
        rfl
      rw [hi] at hb
      have hr := record?_eq_some_iff.2 hb
      show r.collide _ = false
      rw [AccountRecord.collide, Bool.and_eq_false_imp]
      intro hacc
      have hacc : r.account = a := by simpa using hacc
      have hrange := (h.lists a st hst).range _ r hr hacc
      have hop := hnew _ r hr hacc
      simp only [Bool.or_eq_false_iff, decide_eq_false_iff_not]
      exact ⟨by omega, hop⟩
  obtain ⟨s₁, hs₁, hcalled₁, hvalid₁, hobjects₁, hnext₁, -⟩ :=
    call_create (k := .record) h.valid hkeys
  obtain ⟨hrecord₁, hoperation₁, hstatistics₁⟩ := lookups_insert_record hobjects₁
  have hfind : s₁.db.objects.find? (toLex (.statistics, a)) = some (.statistics st) := by
    rw [← statistics?_eq_some_iff, hstatistics₁, hst]
  obtain ⟨s₂, hs₂, hcalled₂, hvalid₂, hobjects₂, hnext₂⟩ := call_modify (.statistics
    { st with mostRecentOp := s.db.nextId .record, totalOps := st.totalOps + 1 }) hvalid₁ hfind
    (fun c ↦ by cases c <;> rfl)
  obtain ⟨hstatistics₂, hrecord₂, hoperation₂⟩ := lookups_insert_statistics hobjects₂
  have hnext : ∀ j, j ≠ HistoryIndex.record → s₂.db.nextId j = s.db.nextId j := by
    intro j hj
    rw [hnext₂, hnext₁, Function.update_of_ne hj]
  have hshaped : Shaped s₂.db := (h.shaped.insert hobjects₁ fun _ _ ↦ rfl).insert hobjects₂
    fun _ heq ↦ by cases heq
  refine ⟨s₂, ?_, hcalled₁.trans hcalled₂, h.append hst hvalid₂ hshaped ?_ ?_ ?_ hnext hid hpending
    hexists, ?_, ?_, hnext⟩
  · rw [Session.appendRecord, hst]
    exact Except.bind_eq_ok.2 ⟨s₁, hs₁, hs₂⟩
  · rw [hrecord₂, hrecord₁]
  · rw [hstatistics₂, hstatistics₁]
  · rw [hoperation₂, hoperation₁]
  · rw [hstatistics₂, Function.update_self]
  · rw [hrecord₂, hrecord₁]

/-- The removal of an operation without a reference. -/
theorem dropOperation_spec (cfg : Config) (operationId : ℕ) (hvalid : s.db.Valid) (hshaped : Shaped s.db)
    (hexists : cfg.partialOperations = true → ∃ c, operation? s.db operationId = some c) :
    ∃ s', s.dropOperation cfg operationId = .ok s' ∧ Called s s' ∧ s'.db.Valid ∧ Shaped s'.db ∧
      record? s'.db = record? s.db ∧ statistics? s'.db = statistics? s.db ∧
      s'.db.nextId = s.db.nextId ∧
      (∀ n, operation? s'.db n = operation? s.db n ∨ operation? s'.db n = none) ∧
      (cfg.partialOperations = true → ∀ n, operation? s'.db n =
        if n = operationId ∧ hasReference s'.db n = false then none else operation? s.db n) := by
  unfold Session.dropOperation
  by_cases hdrop : cfg.partialOperations = true ∧ hasReference s.db operationId = false
  · rw [if_pos hdrop]
    obtain ⟨c, hc⟩ := hexists hdrop.1
    obtain ⟨s', hs', hcalled, hvalid', hobjects, hnext⟩ :=
      call_remove hvalid (operation?_eq_some_iff.1 hc)
    obtain ⟨hoperation, hrecord, hstatistics⟩ := lookups_erase_operation hobjects
    refine ⟨s', hs', hcalled, hvalid', hshaped.erase hobjects, hrecord, hstatistics, hnext,
      fun n ↦ ?_, fun _ n ↦ ?_⟩
    · rw [hoperation, Function.update_apply]
      split_ifs
      · exact .inr rfl
      · exact .inl rfl
    · rw [hoperation, Function.update_apply, hasReference_congr hrecord]
      by_cases hn : n = operationId
      · rw [if_pos hn, if_pos ⟨hn, hn ▸ hdrop.2⟩]
      · rw [if_neg hn, if_neg fun h ↦ hn h.1]
  · rw [if_neg hdrop]
    refine ⟨s, rfl, Called.refl s, hvalid, hshaped, rfl, rfl, rfl, fun n ↦ .inl rfl,
      fun hpart n ↦ ?_⟩
    rw [if_neg]
    rintro ⟨rfl, hreference⟩
    exact hdrop ⟨hpart, hreference⟩

theorem removeEarliest_spec (h : Inv cfg limit entries none s.db)
    (hst : statistics? s.db a = some st) (htwo : st.removedOps + 2 ≤ st.totalOps) {latest : ℕ}
    {r : AccountRecord} (hlatest : record? s.db latest = some r) (hseq : r.sequence = st.totalOps) :
    ∃ s', s.removeEarliest cfg a latest st = .ok s' ∧ Called s s' ∧
      Inv cfg (Function.update limit a (limit a - 1)) entries none s'.db ∧
      s'.db.nextId = s.db.nextId ∧
      (∀ k r, record? s'.db k = some r → ∃ r₀, record? s.db k = some r₀ ∧ r₀.account = r.account ∧
        r₀.operationId = r.operationId) ∧
      ∃ r', record? s'.db latest = some r' ∧ r'.operationId = r.operationId := by
  obtain ⟨first, second, rest, hbySeq, hfirst, ha₁, hseq₁, hsecond, ha₂, hseq₂⟩ := h.bySeq_eq hst htwo
  -- there are at least two records, so the earliest one is not the latest
  have hne : first.1 ≠ latest := by
    intro heq
    rw [heq, hlatest] at hfirst
    rw [← Option.some.inj hfirst] at hseq₁
    omega
  have hne₂ : second.1 ≠ first.1 := by
    intro heq
    rw [heq, hfirst] at hsecond
    rw [← Option.some.inj hsecond] at hseq₂
    omega
  obtain ⟨s₁, hs₁, hcalled₁, hvalid₁, hobjects₁, hnext₁⟩ :=
    call_remove h.valid (record?_eq_some_iff.1 hfirst)
  obtain ⟨hrecord₁, hoperation₁, hstatistics₁⟩ := lookups_erase_record hobjects₁
  have hfind₁ : s₁.db.objects.find? (toLex (.statistics, a)) = some (.statistics st) := by
    rw [← statistics?_eq_some_iff, hstatistics₁, hst]
  obtain ⟨s₂, hs₂, hcalled₂, hvalid₂, hobjects₂, hnext₂⟩ := call_modify (.statistics
    { st with removedOps := st.removedOps + 1 }) hvalid₁ hfind₁ (fun c ↦ by cases c <;> rfl)
  obtain ⟨hstatistics₂, hrecord₂, hoperation₂⟩ := lookups_insert_statistics hobjects₂
  have hfind₂ : s₂.db.objects.find? (toLex (.record, second.1)) = some (.record second.2) := by
    rw [← record?_eq_some_iff, hrecord₂, hrecord₁, Function.update_of_ne hne₂, hsecond]
  obtain ⟨s₃, hs₃, hcalled₃, hvalid₃, hobjects₃, hnext₃⟩ := call_modify (.record
    { second.2 with next := 0 }) hvalid₂ hfind₂ (fun c ↦ by cases c <;> rfl)
  obtain ⟨hrecord₃, hoperation₃, hstatistics₃⟩ := lookups_insert_record hobjects₃
  have hshaped₃ : Shaped s₃.db := ((h.shaped.erase hobjects₁).insert hobjects₂ fun _ heq ↦ by
    cases heq).insert hobjects₃ fun _ _ ↦ rfl
  have hoperation : operation? s₃.db = operation? s.db := by
    rw [hoperation₃, hoperation₂, hoperation₁]
  obtain ⟨s₄, hs₄, hcalled₄, hvalid₄, hshaped₄, hrecord₄, hstatistics₄, hnext₄, hops₄, hgone₄⟩ :=
    dropOperation_spec cfg first.2.operationId hvalid₃ hshaped₃ fun hpart ↦ by
      rw [hoperation]
      exact (h.references hpart _).2 (.inl ⟨_, _, hfirst, rfl⟩)
  have hrecord : record? s₄.db = Function.update (Function.update (record? s.db) first.1 none) second.1
      (some { second.2 with next := 0 }) := by
    rw [hrecord₄, hrecord₃, hrecord₂, hrecord₁]
  -- only the second record changes, in its link
  have hbefore : ∀ k r, record? s₄.db k = some r → ∃ r₀, record? s.db k = some r₀ ∧
      r₀.account = r.account ∧ r₀.operationId = r.operationId := by
    intro k r hr
    rw [hrecord, Function.update_apply, Function.update_apply] at hr
    split_ifs at hr with hk hk'
    · obtain rfl := Option.some.inj hr
      exact ⟨second.2, hk ▸ hsecond, rfl, rfl⟩
    · exact ⟨r, hr, rfl, rfl⟩
  refine ⟨s₄, ?_, ((hcalled₁.trans hcalled₂).trans hcalled₃).trans hcalled₄,
    h.drop hst hfirst ha₁ hseq₁ hsecond ha₂ hseq₂ hvalid₄ hshaped₄ hrecord ?_ ?_ ?_ ?_, ?_, hbefore, ?_⟩
  · rw [Session.removeEarliest, hbySeq]
    dsimp only
    rw [if_pos hne]
    exact Except.bind_eq_ok.2 ⟨s₁, hs₁, Except.bind_eq_ok.2 ⟨s₂, hs₂,
      Except.bind_eq_ok.2 ⟨s₃, hs₃, hs₄⟩⟩⟩
  · rw [hstatistics₄, hstatistics₃, hstatistics₂, hstatistics₁]
  · intro n
    rw [← hoperation]
    exact hops₄ n
  · intro hpart n
    rw [← hoperation]
    exact hgone₄ hpart n
  · rw [hnext₄, hnext₃, hnext₂, hnext₁]
  · rw [hnext₄, hnext₃, hnext₂, hnext₁]
  · rw [hrecord, Function.update_apply, Function.update_of_ne hne.symm]
    by_cases hk : latest = second.1
    · rw [if_pos hk]
      rw [hk, hsecond] at hlatest
      refine ⟨{ second.2 with next := 0 }, rfl, ?_⟩
      rw [← Option.some.inj hlatest]
    · rw [if_neg hk]
      exact ⟨r, hlatest, rfl⟩

/-- **`add_account_history` keeps the invariant.** -/
theorem addAccountHistory_spec (hmax : 1 ≤ cfg.maxOpsPerAccount)
    (h : Inv cfg (fun _ ↦ cfg.maxOpsPerAccount) entries pending s.db)
    (hst : statistics? s.db a = some st) (hid : operationId < entries.length)
    (hpending : pending = none ∨ pending = some operationId)
    (hexists : cfg.partialOperations = true → ∃ c, operation? s.db operationId = some c)
    (hnew : ∀ k r, record? s.db k = some r → r.account = a → r.operationId ≠ operationId) :
    ∃ s', s.addAccountHistory cfg a operationId = .ok s' ∧ Called s s' ∧
      Inv cfg (fun _ ↦ cfg.maxOpsPerAccount) entries none s'.db ∧
      (∀ j, j ≠ HistoryIndex.record → s'.db.nextId j = s.db.nextId j) ∧
      (∃ k r, record? s'.db k = some r ∧ r.operationId = operationId) ∧
      ∀ k r, record? s'.db k = some r → r.account ≠ a → ∃ r₀, record? s.db k = some r₀ ∧
        r₀.account = r.account ∧ r₀.operationId = r.operationId := by
  obtain ⟨s₁, hs₁, hcalled₁, hinv₁, hstatistics₁, hrecord₁, hnext₁⟩ :=
    appendRecord_spec h hst hid hpending hexists hnew
  have hself : record? s₁.db (s.db.nextId .record) =
      some ⟨a, operationId, st.totalOps + 1, st.mostRecentOp⟩ := by
    rw [hrecord₁, Function.update_self]
  have hbefore₁ : ∀ k r, record? s₁.db k = some r → r.account ≠ a → record? s.db k = some r := by
    intro k r hr hne
    rw [hrecord₁, Function.update_apply] at hr
    split_ifs at hr
    · rw [← Option.some.inj hr] at hne
      exact absurd rfl hne
    · exact hr
  have hsize := hinv₁.size a _ hstatistics₁
  rw [Function.update_self] at hsize
  have hlength : st.totalOps + 1 - st.removedOps ≤ cfg.maxOpsPerAccount + 1 := hsize
  have heq : s.addAccountHistory cfg a operationId =
      if cfg.maxOpsPerAccount < st.totalOps + 1 - st.removedOps then
        s₁.removeEarliest cfg a (s.db.nextId .record)
          { st with mostRecentOp := s.db.nextId .record, totalOps := st.totalOps + 1 }
      else .ok s₁ := by
    rw [Session.addAccountHistory, hs₁, Except.ok_bind, hstatistics₁]
    rfl
  rw [heq]
  -- over the limit, which one more record may exceed by one, the earliest one goes
  by_cases hfull : cfg.maxOpsPerAccount < st.totalOps + 1 - st.removedOps
  · rw [if_pos hfull]
    obtain ⟨s₂, hs₂, hcalled₂, hinv₂, hnext₂, hbefore₂, r', hr', hop'⟩ := removeEarliest_spec hinv₁
      hstatistics₁ (show st.removedOps + 2 ≤ st.totalOps + 1 by omega) hself rfl
    refine ⟨s₂, hs₂, hcalled₁.trans hcalled₂, ?_, fun j hj ↦ ?_, ⟨_, r', hr', hop'⟩,
      fun k r hr hne ↦ ?_⟩
    · have hlimit : Function.update (Function.update (fun _ ↦ cfg.maxOpsPerAccount) a
          (cfg.maxOpsPerAccount + 1)) a (Function.update (fun _ ↦ cfg.maxOpsPerAccount) a
            (cfg.maxOpsPerAccount + 1) a - 1) = fun _ ↦ cfg.maxOpsPerAccount := by
        rw [Function.update_self, Function.update_idem, Nat.add_sub_cancel, Function.update_eq_self]
      rwa [hlimit] at hinv₂
    · rw [hnext₂, hnext₁ j hj]
    · obtain ⟨r₀, hr₀, hacc, hop⟩ := hbefore₂ k r hr
      exact ⟨r₀, hbefore₁ k r₀ hr₀ (hacc ▸ hne), hacc, hop⟩
  · rw [if_neg hfull]
    refine ⟨s₁, rfl, hcalled₁, { hinv₁ with size := fun b st' hst' ↦ ?_ }, hnext₁, ⟨_, _, hself, rfl⟩,
      fun k r hr hne ↦ ⟨r, hbefore₁ k r hr hne, rfl, rfl⟩⟩
    have hsize' := hinv₁.size b st' hst'
    rw [Function.update_apply] at hsize'
    split_ifs at hsize' with hb
    · subst hb
      rw [hstatistics₁] at hst'
      obtain rfl := Option.some.inj hst'
      exact not_lt.1 hfull
    · exact hsize'

/-- What the undo database knows about the block: everything that has been done, with the ids of the
operations. -/
structure Books (enabled : Bool) (d₀ : HistoryDatabase τ) (s : Session τ) : Prop where
  kept : enabled = true → Kept d₀ s.db s.undo
  first : enabled = true → s.isFirst = false →
    s.undo.oldIndexNextIds.contains HistoryIndex.operation = true

theorem Books.called {enabled : Bool} {d₀ : HistoryDatabase τ} {s' : Session τ} (h : Books enabled d₀ s)
    (hcalled : Called s s') : Books enabled d₀ s' where
  kept henabled := hcalled.kept d₀ (h.kept henabled)
  first henabled hfirst := hcalled.nextIds _ (h.first henabled (hcalled.isFirst ▸ hfirst))

/-- An id that is used without an object is tracked when the next id has been recorded before. -/
theorem Kept.useNextId {d₀ : HistoryDatabase τ} (h : Kept d₀ s.db s.undo)
    (hfirst : s.undo.oldIndexNextIds.contains HistoryIndex.operation = true) :
    Kept d₀ s.useNextId.db s.useNextId.undo where
  recorded :=
    { h.recorded with
      after :=
        { h.recorded.after with
          lt_nextId := fun k n o ho ↦ by
            have hlt := h.recorded.after.lt_nextId k n o ho
            show n < Function.update s.db.nextId .operation (s.db.nextId .operation + 1) k
            rw [Function.update_apply]
            split_ifs with hk
            · subst hk
              exact hlt.trans (Nat.lt_succ_self _)
            · exact hlt }
      nextId := fun k ↦ by
        show d₀.nextId k = (s.undo.oldIndexNextIds.find? k).getD
          (Function.update s.db.nextId .operation (s.db.nextId .operation + 1) k)
        have hnext := h.recorded.nextId k
        by_cases hk : k = .operation
        · subst hk
          obtain ⟨n, hn⟩ := FlatMap.mem_keys.1 (FlatMap.contains_iff.1 hfirst)
          rw [hn] at hnext ⊢
          exact hnext
        · rw [Function.update_of_ne hk]
          exact hnext
      nextId_le := fun k ↦ by
        show d₀.nextId k ≤ Function.update s.db.nextId .operation (s.db.nextId .operation + 1) k
        rw [Function.update_apply]
        split_ifs with hk
        · subst hk
          exact (h.recorded.nextId_le _).trans (Nat.le_succ _)
        · exact h.recorded.nextId_le k }
  keys := h.keys

/-- **An operation that is not stored takes up its id**, in a way that can be undone. -/
theorem skipOhoId_spec {enabled : Bool} {d₀ : HistoryDatabase τ}
    (h : Inv cfg limit entries none s.db) (hbooks : Books enabled d₀ s)
    (e : Option (AppliedOperation τ)) :
    ∃ s', s.skipOhoId enabled = .ok s' ∧ Inv cfg limit (entries ++ [e]) none s'.db ∧
      Books enabled d₀ s' ∧ s'.db.nextId .statistics = s.db.nextId .statistics := by
  unfold Session.skipOhoId
  by_cases hfirst : s.isFirst = true ∧ enabled = true
  · rw [if_pos hfirst]
    obtain ⟨s₁, hs₁, hcalled₁, hvalid₁, hobjects₁, hnext₁, hcontains₁⟩ := call_create (k := .operation)
      (o := .operation none) h.valid (fun i b _ ↦ by cases b <;> rfl)
    obtain ⟨hoperation₁, hrecord₁, hstatistics₁⟩ := lookups_insert_operation hobjects₁
    have hfind : s₁.db.objects.find? (toLex (.operation, s.db.nextId .operation)) =
        some (.operation none) := by
      rw [← operation?_eq_some_iff, hoperation₁, Function.update_self]
    obtain ⟨s₂, hs₂, hcalled₂, hvalid₂, hobjects₂, hnext₂⟩ := call_remove hvalid₁ hfind
    obtain ⟨hoperation₂, hrecord₂, hstatistics₂⟩ := lookups_erase_operation hobjects₂
    have hcalled := hcalled₁.trans hcalled₂
    refine ⟨{ s₂ with isFirst := false },
      Except.bind_eq_ok.2 ⟨s₁, hs₁, Except.bind_eq_ok.2 ⟨s₂, hs₂, rfl⟩⟩,
      h.skip e hvalid₂ ((h.shaped.insert hobjects₁ fun _ heq ↦ by cases heq).erase hobjects₂) ?_
        (hrecord₂.trans hrecord₁) (hstatistics₂.trans hstatistics₁) (hnext₂.trans hnext₁),
      ⟨fun henabled ↦ hcalled.kept d₀ (hbooks.kept henabled), fun _ _ ↦ hcalled₂.nextIds _ hcontains₁⟩, ?_⟩
    · rw [hoperation₂, hoperation₁, Function.update_idem, ← h.operation?_nextId,
        Function.update_eq_self]
    · show s₂.db.nextId .statistics = s.db.nextId .statistics
      rw [hnext₂, hnext₁, Function.update_of_ne (by decide)]
  · rw [if_neg hfirst]
    have hvalid : s.useNextId.db.Valid :=
      { h.valid with
        lt_nextId := fun k n o ho ↦ by
          have hlt := h.valid.lt_nextId k n o ho
          show n < Function.update s.db.nextId .operation (s.db.nextId .operation + 1) k
          rw [Function.update_apply]
          split_ifs with hk
          · subst hk
            exact hlt.trans (Nat.lt_succ_self _)
          · exact hlt }
    refine ⟨s.useNextId, rfl, h.skip e hvalid h.shaped rfl rfl rfl rfl,
      ⟨fun henabled ↦ (hbooks.kept henabled).useNextId (hbooks.first henabled ?_), hbooks.first⟩, ?_⟩
    · rw [henabled] at hfirst
      simpa using hfirst
    · show Function.update s.db.nextId .operation (s.db.nextId .operation + 1) .statistics = _
      rw [Function.update_of_ne (by decide)]

theorem createOho_spec {enabled : Bool} {d₀ : HistoryDatabase τ}
    (h : Inv cfg limit entries none s.db) (hbooks : Books enabled d₀ s) (op : AppliedOperation τ) :
    ∃ s', s.createOho op = .ok s' ∧
      Inv cfg limit (entries ++ [some op]) (some entries.length) s'.db ∧ Books enabled d₀ s' ∧
      s'.oho = some entries.length ∧ record? s'.db = record? s.db ∧
      s'.db.nextId .statistics = s.db.nextId .statistics ∧
      ∃ c, operation? s'.db entries.length = some c := by
  obtain ⟨s₁, hs₁, hcalled₁, hvalid₁, hobjects₁, hnext₁, hcontains₁⟩ := call_create (k := .operation)
    (s := { s with isFirst := false }) (o := .operation (some op.content)) h.valid
    (fun i b _ ↦ by cases b <;> rfl)
  obtain ⟨hoperation₁, hrecord₁, hstatistics₁⟩ := lookups_insert_operation hobjects₁
  have hid : s.db.nextId .operation = entries.length := h.nextOperation
  have hoperation : operation? s₁.db =
      Function.update (operation? s.db) entries.length (some (some op.content)) := by
    rw [hoperation₁, ← hid]
  refine ⟨{ s₁ with oho := some (s.db.nextId .operation) },
    Except.bind_eq_ok.2 ⟨s₁, hs₁, rfl⟩, h.create op hvalid₁
      (h.shaped.insert hobjects₁ fun _ heq ↦ by cases heq) hoperation hrecord₁ hstatistics₁ hnext₁,
    ⟨fun henabled ↦ hcalled₁.kept d₀ (hbooks.kept henabled), fun _ _ ↦ hcontains₁⟩,
    congrArg some hid, hrecord₁, ?_, some op.content, ?_⟩
  · show s₁.db.nextId .statistics = s.db.nextId .statistics
    rw [hnext₁, Function.update_of_ne (by decide)]
  · show operation? s₁.db entries.length = some (some op.content)
    rw [hoperation, Function.update_self]

end Steps

/-! ### An operation -/

section Operation

variable {τ : Type} {cfg : Config} {entries : List (Option (AppliedOperation τ))} {op : AppliedOperation τ}
  {pending : Option ℕ} {s : Session τ} {enabled : Bool} {d₀ : HistoryDatabase τ} {a : ℕ} {rest : List ℕ}

/-- The operation has been stored, and the accounts that are left have no record for it yet. -/
structure Indexing (cfg : Config) (entries : List (Option (AppliedOperation τ)))
    (op : AppliedOperation τ) (pending : Option ℕ) (rest : List ℕ) (s : Session τ) : Prop where
  oho : s.oho = some entries.length
  inv : Inv cfg (fun _ ↦ cfg.maxOpsPerAccount) (entries ++ [some op]) pending s.db
  pending : pending = none ∨ pending = some entries.length
  stored : cfg.partialOperations = true → ∃ c, operation? s.db entries.length = some c
  fresh : ∀ a ∈ rest, ∀ k r, record? s.db k = some r → r.account = a → r.operationId ≠ entries.length
  nodup : rest.Nodup

/-- The next account gets its record. -/
theorem Indexing.add (hmax : 1 ≤ cfg.maxOpsPerAccount) (h : Indexing cfg entries op pending (a :: rest) s)
    (hbooks : Books enabled d₀ s) (ha : a < s.db.nextId .statistics) :
    ∃ s', s.addAccountHistory cfg a (s.oho.getD 0) = .ok s' ∧ Indexing cfg entries op none rest s' ∧
      Books enabled d₀ s' ∧ s'.db.nextId .statistics = s.db.nextId .statistics := by
  obtain ⟨st, hst⟩ := h.inv.accounts a ha
  have hid : s.oho.getD 0 = entries.length := by rw [h.oho, Option.getD_some]
  have hnodup := List.nodup_cons.1 h.nodup
  obtain ⟨s', hs', hcalled, hinv, hnext, ⟨k, r, hr, hop⟩, hbefore⟩ :=
    addAccountHistory_spec hmax h.inv hst (show entries.length < _ by simp) h.pending h.stored
      (h.fresh a List.mem_cons_self)
  refine ⟨s', hid ▸ hs', ⟨hcalled.oho.trans h.oho, hinv, .inl rfl, fun hpart ↦ ?_,
    fun b hb k r hr hacc ↦ ?_, hnodup.2⟩, hbooks.called hcalled, hnext _ (by decide)⟩
  · exact (hinv.references hpart _).2 (.inl ⟨k, r, hr, hop⟩)
  · have hne : r.account ≠ a := by
      rintro rfl
      exact hnodup.1 (hacc ▸ hb)
    obtain ⟨r₀, hr₀, hacc₀, hop₀⟩ := hbefore k r hr hne
    rw [← hop₀]
    exact h.fresh b (List.mem_cons_of_mem _ hb) k r₀ hr₀ (hacc₀.trans hacc)

/-- All accounts get their records. -/
theorem Indexing.addAll (hmax : 1 ≤ cfg.maxOpsPerAccount) {l : List ℕ}
    (h : Indexing cfg entries op pending l s) (hbooks : Books enabled d₀ s)
    (hl : ∀ a ∈ l, a < s.db.nextId .statistics) (hpending : l = [] → pending = none) :
    ∃ s', l.foldlM (fun s account ↦ s.addAccountHistory cfg account (s.oho.getD 0)) s = .ok s' ∧
      Indexing cfg entries op none [] s' ∧ Books enabled d₀ s' ∧
      s'.db.nextId .statistics = s.db.nextId .statistics := by
  induction l generalizing s pending with
  | nil => exact ⟨s, rfl, hpending rfl ▸ h, hbooks, rfl⟩
  | cons a l ih =>
    obtain ⟨s₁, hs₁, h₁, hbooks₁, hnext₁⟩ := h.add hmax hbooks (hl a List.mem_cons_self)
    obtain ⟨s', hs', h', hbooks', hnext'⟩ := ih h₁ hbooks₁
      (fun b hb ↦ hnext₁ ▸ hl b (List.mem_cons_of_mem _ hb)) fun _ ↦ rfl
    exact ⟨s', by rw [List.foldlM_cons, hs₁, Except.ok_bind, hs'], h', hbooks', hnext'.trans hnext₁⟩

/-- The operation is stored before its first record. -/
theorem Indexing.start (h : Inv cfg (fun _ ↦ cfg.maxOpsPerAccount) entries none s.db)
    (hbooks : Books enabled d₀ s) (op : AppliedOperation τ) (hnodup : rest.Nodup) :
    ∃ s', s.createOho op = .ok s' ∧ Indexing cfg entries op (some entries.length) rest s' ∧
      Books enabled d₀ s' ∧ s'.db.nextId .statistics = s.db.nextId .statistics := by
  obtain ⟨s', hs', hinv, hbooks', hoho, hrecord, hnext, hstored⟩ := createOho_spec h hbooks op
  refine ⟨s', hs', ⟨hoho, hinv, .inr rfl, fun _ ↦ hstored, fun a _ k r hr _ ↦ ?_, hnodup⟩, hbooks', hnext⟩
  rw [hrecord] at hr
  exact (h.refersBelow k r hr).ne

/-- Nothing has been done for the operation, or it is being indexed. -/
def Ready (cfg : Config) (entries : List (Option (AppliedOperation τ))) (op : AppliedOperation τ)
    (rest : List ℕ) (s : Session τ) : Prop :=
  (s.oho = none ∧ Inv cfg (fun _ ↦ cfg.maxOpsPerAccount) entries none s.db) ∨
    Indexing cfg entries op none rest s

/-- The tracked accounts that the operation applies to get their records. -/
theorem Ready.addTracked (hmax : 1 ≤ cfg.maxOpsPerAccount) {l : List ℕ}
    (h : Ready cfg entries op l s) (hnodup : l.Nodup) (hbooks : Books enabled d₀ s)
    (hl : ∀ a ∈ l, op.impacted.contains a = true → a < s.db.nextId .statistics) :
    ∃ s', l.foldlM (Session.addTracked cfg op) s = .ok s' ∧ Ready cfg entries op [] s' ∧
      Books enabled d₀ s' ∧ s'.db.nextId .statistics = s.db.nextId .statistics ∧
      (s.oho ≠ none → s'.oho ≠ none) := by
  induction l generalizing s with
  | nil => exact ⟨s, rfl, h, hbooks, rfl, id⟩
  | cons a l ih =>
    have hnodup' := (List.nodup_cons.1 hnodup).2
    -- what one account does
    obtain ⟨s₁, hs₁, h₁, hbooks₁, hnext₁, hoho₁⟩ : ∃ s₁, Session.addTracked cfg op s a = .ok s₁ ∧
        Ready cfg entries op l s₁ ∧ Books enabled d₀ s₁ ∧
        s₁.db.nextId .statistics = s.db.nextId .statistics ∧ (s.oho ≠ none → s₁.oho ≠ none) := by
      unfold Session.addTracked
      by_cases himpacted : op.impacted.contains a = true
      · rw [if_pos himpacted]
        have ha := hl a List.mem_cons_self himpacted
        unfold Session.ensureOho
        obtain ⟨hnone, hinv⟩ | hindexing := h
        · rw [hnone]
          obtain ⟨s₀, hs₀, h₀, hbooks₀, hnext₀⟩ := Indexing.start hinv hbooks op hnodup
          obtain ⟨s₁, hs₁, h₁, hbooks₁, hnext₁⟩ := h₀.add hmax hbooks₀ (hnext₀ ▸ ha)
          exact ⟨s₁, Except.bind_eq_ok.2 ⟨s₀, hs₀, hs₁⟩, .inr h₁, hbooks₁, hnext₁.trans hnext₀,
            fun _ ↦ by rw [h₁.oho]; exact Option.some_ne_none _⟩
        · obtain ⟨s₁, hs₁, h₁, hbooks₁, hnext₁⟩ := hindexing.add hmax hbooks ha
          refine ⟨s₁, Except.bind_eq_ok.2 ⟨s, ?_, hs₁⟩, .inr h₁, hbooks₁, hnext₁,
            fun _ ↦ by rw [h₁.oho]; exact Option.some_ne_none _⟩
          rw [if_pos (by rw [hindexing.oho]; rfl)]
          rfl
      · rw [if_neg himpacted]
        refine ⟨s, rfl, h.imp id fun hindexing ↦ { hindexing with
          fresh := fun b hb ↦ hindexing.fresh b (List.mem_cons_of_mem _ hb)
          nodup := hnodup' }, hbooks, rfl, id⟩
    obtain ⟨s', hs', h', hbooks', hnext', hoho'⟩ := ih h₁ hnodup' hbooks₁
      fun b hb himpacted ↦ hnext₁ ▸ hl b (List.mem_cons_of_mem _ hb) himpacted
    exact ⟨s', by rw [List.foldlM_cons, hs₁, Except.ok_bind, hs'], h', hbooks', hnext'.trans hnext₁,
      fun hs ↦ hoho' (hoho₁ hs)⟩

/-- The plugin tracks an account. -/
def Tracked (cfg : Config) (a : ℕ) : Prop :=
  cfg.trackedAccounts.isEmpty = true ∨ cfg.trackedAccounts.contains a = true

/-- The records of an operation. -/
theorem addRecords_spec (hmax : 1 ≤ cfg.maxOpsPerAccount)
    (h : ∀ rest : List ℕ, rest.Nodup → Ready cfg entries op rest s) (hbooks : Books enabled d₀ s)
    (hknown : ∀ a, op.impacted.contains a = true → Tracked cfg a → a < s.db.nextId .statistics) :
    ∃ s', s.addRecords cfg op = .ok s' ∧ Ready cfg entries op [] s' ∧ Books enabled d₀ s' ∧
      s'.db.nextId .statistics = s.db.nextId .statistics ∧ (s.oho ≠ none → s'.oho ≠ none) := by
  unfold Session.addRecords
  have hpos : 0 < cfg.maxOpsPerAccount := hmax
  have hmem (l : FlatSet ℕ) (a : ℕ) : a ∈ l.elements ↔ l.contains a = true := by
    rw [FlatSet.mem_elements, FlatMap.contains_iff]
  -- without tracked accounts all impacted ones are
  by_cases hall : cfg.trackedAccounts.isEmpty = true
  · rw [if_pos hall]
    by_cases hempty : op.impacted.isEmpty = true
    · have hnil : op.impacted.elements = [] := by
        rw [FlatMap.isEmpty_iff.1 hempty]
        rfl
      rw [if_pos hempty]
      refine ⟨s, ?_, h [] List.nodup_nil, hbooks, rfl, id⟩
      show (if 0 < cfg.maxOpsPerAccount then _ else _ : Except _ _) = _
      rw [if_pos hpos, hnil]
      rfl
    · rw [if_neg hempty]
      have hl : ∀ a ∈ op.impacted.elements, a < s.db.nextId .statistics :=
        fun a ha ↦ hknown a ((hmem _ a).1 ha) (.inl hall)
      have hne : op.impacted.elements ≠ [] := by
        intro hnil
        refine hempty (FlatMap.isEmpty_iff_find?.2 fun k ↦ FlatMap.not_mem_keys.1 fun hk ↦ ?_)
        have := FlatSet.mem_elements.2 hk
        rw [hnil] at this
        cases this
      -- the history object of the operation may exist already
      obtain ⟨hnone, hinv⟩ | hindexing := h op.impacted.elements (FlatSet.nodup_elements _)
      · obtain ⟨s₀, hs₀, h₀, hbooks₀, hnext₀⟩ :=
          Indexing.start hinv hbooks op (FlatSet.nodup_elements op.impacted)
        obtain ⟨s', hs', h', hbooks', hnext'⟩ := h₀.addAll hmax hbooks₀ (fun a ha ↦ hnext₀ ▸ hl a ha)
          fun hnil ↦ absurd hnil hne
        refine ⟨s', Except.bind_eq_ok.2 ⟨s₀, ?_, ?_⟩, .inr h', hbooks', hnext'.trans hnext₀,
          fun hs ↦ absurd hnone hs⟩
        · rw [Session.ensureOho, hnone]
          exact hs₀
        · dsimp only
          rw [if_pos hpos]
          exact hs'
      · obtain ⟨s', hs', h', hbooks', hnext'⟩ := hindexing.addAll hmax hbooks hl fun _ ↦ rfl
        refine ⟨s', Except.bind_eq_ok.2 ⟨s, ?_, ?_⟩, .inr h', hbooks', hnext',
          fun _ ↦ by rw [h'.oho]; exact Option.some_ne_none _⟩
        · rw [Session.ensureOho, if_pos (by rw [hindexing.oho]; rfl)]
          rfl
        · dsimp only
          rw [if_pos hpos]
          exact hs'
  · rw [if_neg hall, if_pos hpos]
    exact (h _ (FlatSet.nodup_elements cfg.trackedAccounts)).addTracked hmax
      (FlatSet.nodup_elements _) hbooks fun a ha himpacted ↦ hknown a himpacted (.inr ((hmem _ a).1 ha))

/-- The accounts that an operation applies to exist, as far as they are tracked. -/
def KnownAt (cfg : Config) (accounts : ℕ) : Option (AppliedOperation τ) → Prop
  | none => True
  | some op => ∀ a, op.impacted.contains a = true → Tracked cfg a → a < accounts

/-- **An operation takes up one id**, and its records are added. -/
theorem indexOperation_spec (hmax : 1 ≤ cfg.maxOpsPerAccount)
    (h : Inv cfg (fun _ ↦ cfg.maxOpsPerAccount) entries none s.db) (hbooks : Books enabled d₀ s)
    (e : Option (AppliedOperation τ)) (hknown : KnownAt cfg (s.db.nextId .statistics) e) :
    ∃ s', s.indexOperation cfg enabled e = .ok s' ∧
      Inv cfg (fun _ ↦ cfg.maxOpsPerAccount) (entries ++ [e]) none s'.db ∧ Books enabled d₀ s' ∧
      s'.db.nextId .statistics = s.db.nextId .statistics := by
  rcases e with - | op
  · exact skipOhoId_spec h hbooks none
  unfold Session.indexOperation
  dsimp only
  rw [if_neg (by omega)]
  have hbooks₀ : Books enabled d₀ { s with oho := none } := ⟨hbooks.kept, hbooks.first⟩
  by_cases hpart : cfg.partialOperations = true
  · rw [if_pos hpart]
    obtain ⟨s₁, hs₁, h₁, hbooks₁, hnext₁, -⟩ := addRecords_spec (s := { s with oho := none }) hmax
      (fun _ _ ↦ (.inl ⟨rfl, h⟩ : Ready cfg entries op _ { s with oho := none })) hbooks₀ hknown
    obtain ⟨hnone, hinv⟩ | hindexing := h₁
    · obtain ⟨s₂, hs₂, h₂, hbooks₂, hnext₂⟩ := skipOhoId_spec hinv hbooks₁ (some op)
      refine ⟨s₂, Except.bind_eq_ok.2 ⟨_, rfl, Except.bind_eq_ok.2 ⟨s₁, hs₁, ?_⟩⟩, h₂, hbooks₂,
        hnext₂.trans hnext₁⟩
      rw [if_pos ⟨hpart, hnone⟩]
      exact hs₂
    · refine ⟨s₁, Except.bind_eq_ok.2 ⟨_, rfl, Except.bind_eq_ok.2 ⟨s₁, hs₁, ?_⟩⟩, hindexing.inv,
        hbooks₁, hnext₁⟩
      rw [if_neg fun hn ↦ by rw [hindexing.oho] at hn; cases hn.2]
      rfl
  · rw [if_neg hpart]
    have hfalse := Bool.eq_false_iff.2 hpart
    obtain ⟨s₁, hs₁, hinv₁, hbooks₁, hoho₁, hrecord₁, hnext₁, -⟩ :=
      createOho_spec (s := { s with oho := none }) h hbooks₀ op
    obtain ⟨s₂, hs₂, h₂, hbooks₂, hnext₂, hoho₂⟩ := addRecords_spec hmax (fun rest hnodup ↦ .inr
      { oho := hoho₁
        inv := hinv₁.settle hfalse
        pending := .inl rfl
        stored := fun htrue ↦ absurd htrue hpart
        fresh := fun a _ k r hr _ ↦ (h.refersBelow k r (hrecord₁ ▸ hr)).ne
        nodup := hnodup }) hbooks₁ (fun a ha ht ↦ hnext₁ ▸ hknown a ha ht)
    obtain ⟨hnone, -⟩ | hindexing := h₂
    · exact absurd hnone (hoho₂ (by rw [hoho₁]; exact Option.some_ne_none _))
    · refine ⟨s₂, Except.bind_eq_ok.2 ⟨s₁, hs₁, Except.bind_eq_ok.2 ⟨s₂, hs₂, ?_⟩⟩, hindexing.inv,
        hbooks₂, hnext₂.trans hnext₁⟩
      rw [if_neg fun hn ↦ hpart hn.1]
      rfl

end Operation

/-! ### Blocks -/

section Blocks

variable {τ : Type} {cfg : Config} {entries : List (Option (AppliedOperation τ))} {s : Session τ}
  {enabled : Bool} {d d₀ : HistoryDatabase τ} {undo : HistoryUndo τ} {b : Block τ}

theorem updateAccountHistories_spec (hmax : 1 ≤ cfg.maxOpsPerAccount)
    {hist : List (Option (AppliedOperation τ))}
    (h : Inv cfg (fun _ ↦ cfg.maxOpsPerAccount) entries none s.db) (hbooks : Books enabled d₀ s)
    (hknown : ∀ e ∈ hist, KnownAt cfg (s.db.nextId .statistics) e) :
    Inv cfg (fun _ ↦ cfg.maxOpsPerAccount) (entries ++ hist) none
        (s.updateAccountHistories cfg enabled hist).db ∧
      Books enabled d₀ (s.updateAccountHistories cfg enabled hist) := by
  obtain ⟨s', hs', h', hbooks'⟩ : ∃ s', hist.foldlM (Session.indexOperation cfg enabled) s = .ok s' ∧
      Inv cfg (fun _ ↦ cfg.maxOpsPerAccount) (entries ++ hist) none s'.db ∧ Books enabled d₀ s' := by
    induction hist generalizing s entries with
    | nil => exact ⟨s, rfl, by rwa [List.append_nil], hbooks⟩
    | cons e hist ih =>
      obtain ⟨s₁, hs₁, h₁, hbooks₁, hnext₁⟩ :=
        indexOperation_spec hmax h hbooks e (hknown e List.mem_cons_self)
      obtain ⟨s', hs', h', hbooks'⟩ := ih h₁ hbooks₁
        fun e' he' ↦ hnext₁ ▸ hknown e' (List.mem_cons_of_mem _ he')
      rw [List.append_assoc] at h'
      exact ⟨s', by rw [List.foldlM_cons, hs₁, Except.ok_bind, hs'], h', hbooks'⟩
  rw [Session.updateAccountHistories, hs']
  exact ⟨h', hbooks'⟩

/-- A new account has no history. -/
theorem createAccount_spec (h : Inv cfg (fun _ ↦ cfg.maxOpsPerAccount) entries none s.db)
    (hbooks : Books enabled d₀ s) :
    Inv cfg (fun _ ↦ cfg.maxOpsPerAccount) entries none (createAccount s).db ∧
      Books enabled d₀ (createAccount s) ∧
      (createAccount s).db.nextId .statistics = s.db.nextId .statistics + 1 := by
  obtain ⟨s₁, hs₁, hcalled₁, hvalid₁, hobjects₁, hnext₁, -⟩ := call_create (k := .statistics)
    (o := .statistics {}) h.valid (fun i b _ ↦ by cases b <;> rfl)
  obtain ⟨hstatistics₁, hrecord₁, hoperation₁⟩ := lookups_insert_statistics hobjects₁
  have hfree : statistics? s.db (s.db.nextId .statistics) = none := by
    rcases hst : statistics? s.db (s.db.nextId .statistics) with - | st
    · rfl
    · exact absurd (h.valid.lt_nextId .statistics _ _ (statistics?_eq_some_iff.1 hst)) (lt_irrefl _)
  have hnoRecord : ∀ k r, record? s.db k = some r → r.account ≠ s.db.nextId .statistics := by
    intro k r hr hacc
    obtain ⟨st, hst⟩ := h.owned k r hr
    rw [hacc, hfree] at hst
    cases hst
  have hcreate : createAccount s = s₁ := by rw [createAccount, hs₁]
  rw [hcreate]
  have hshaped₁ : Shaped s₁.db := h.shaped.insert hobjects₁ fun _ heq ↦ by cases heq
  refine ⟨⟨hvalid₁, hshaped₁, fun a ha ↦ ?_, ?_, ?_,
    fun a st hst ↦ ?_, fun a st hst ↦ ?_, fun k r hr ↦ ?_, ?_, ?_, ?_⟩, hbooks.called hcalled₁, ?_⟩
  · rw [hnext₁, Function.update_self] at ha
    rw [hstatistics₁, Function.update_apply]
    split_ifs with hnew
    · exact ⟨_, rfl⟩
    · exact h.accounts a (by omega)
  · rw [hnext₁, Function.update_of_ne (by decide), h.nextOperation]
  · rw [hoperation₁]
    exact h.stored
  · rw [hrecord₁]
    rw [hstatistics₁, Function.update_apply] at hst
    split_ifs at hst with hnew
    · obtain rfl := Option.some.inj hst
      exact ListOk.new fun k r hr ↦ hnew ▸ hnoRecord k r hr
    · exact h.lists a st hst
  · rw [hstatistics₁, Function.update_apply] at hst
    split_ifs at hst with hnew
    · obtain rfl := Option.some.inj hst
      exact Nat.zero_le _
    · exact h.size a st hst
  · rw [hrecord₁] at hr
    rw [hstatistics₁, Function.update_of_ne (hnoRecord k r hr)]
    exact h.owned k r hr
  · rw [hrecord₁]
    exact h.zero
  · rw [hrecord₁]
    exact h.refersBelow
  · rw [hrecord₁, hoperation₁]
    exact h.references
  · rw [hnext₁, Function.update_self]

theorem createAccounts_spec (h : Inv cfg (fun _ ↦ cfg.maxOpsPerAccount) entries none s.db)
    (hbooks : Books enabled d₀ s) (n : ℕ) :
    Inv cfg (fun _ ↦ cfg.maxOpsPerAccount) entries none (createAccount^[n] s).db ∧
      Books enabled d₀ (createAccount^[n] s) ∧
      (createAccount^[n] s).db.nextId .statistics = s.db.nextId .statistics + n := by
  induction n generalizing s with
  | zero => exact ⟨h, hbooks, rfl⟩
  | succ n ih =>
    obtain ⟨h₁, hbooks₁, hnext₁⟩ := createAccount_spec h hbooks
    obtain ⟨h', hbooks', hnext'⟩ := ih h₁ hbooks₁
    rw [Function.iterate_succ_apply]
    exact ⟨h', hbooks', by rw [hnext', hnext₁]; omega⟩

/-- The accounts that the operations of a block apply to exist, as far as they are tracked. -/
def Known (cfg : Config) (u : HistoryStore τ) (b : Block τ) : Prop :=
  ∀ e ∈ b.hist, KnownAt cfg (u.db.nextId .statistics + b.newAccounts) e

/-- A block, with or without the undo database. -/
theorem runBlock_spec (enabled : Bool) (hmax : 1 ≤ cfg.maxOpsPerAccount)
    (h : Inv cfg (fun _ ↦ cfg.maxOpsPerAccount) entries none d)
    (hknown : ∀ e ∈ b.hist, KnownAt cfg (d.nextId .statistics + b.newAccounts) e) :
    Inv cfg (fun _ ↦ cfg.maxOpsPerAccount) (entries ++ b.hist) none (runBlock cfg enabled d {} b).db ∧
      (enabled = true → Kept d (runBlock cfg enabled d {} b).db (runBlock cfg enabled d {} b).undo) := by
  have hbooks : Books enabled d ({ db := d, undo := {} } : Session τ) :=
    ⟨fun _ ↦ ⟨Recorded.start h.valid, fun _ _ hold ↦ by cases hold⟩, fun _ hfirst ↦ by cases hfirst⟩
  obtain ⟨h₁, hbooks₁, hnext₁⟩ := createAccounts_spec h hbooks b.newAccounts
  obtain ⟨h₂, hbooks₂⟩ := updateAccountHistories_spec hmax h₁ hbooks₁ fun e (he : e ∈ b.hist) ↦ by
    rw [hnext₁]
    exact hknown e he
  exact ⟨h₂, hbooks₂.kept⟩

/-- The operations of a chain, its latest block first. -/
def chainEntries (chain : List (Block τ)) : List (Option (AppliedOperation τ)) :=
  chain.reverse.flatMap Block.hist

theorem chainEntries_cons (b : Block τ) (chain : List (Block τ)) :
    chainEntries (b :: chain) = chainEntries chain ++ b.hist := by
  simp [chainEntries]

/-- Each record leads back to the objects before its block. -/
inductive Linked (cfg : Config) : HistoryDatabase τ → List (HistoryUndo τ) → List (Block τ) → Prop
  | nil (d : HistoryDatabase τ) (chain : List (Block τ)) : Linked cfg d [] chain
  | cons {d d₀ : HistoryDatabase τ} {undo : HistoryUndo τ} {stack : List (HistoryUndo τ)} (b : Block τ)
    {chain : List (Block τ)} (hkept : Kept d₀ d undo)
    (hinv : Inv cfg (fun _ ↦ cfg.maxOpsPerAccount) (chainEntries chain) none d₀)
    (hrest : Linked cfg d₀ stack chain) : Linked cfg d (undo :: stack) (b :: chain)

theorem Linked.take {stack : List (HistoryUndo τ)} {chain : List (Block τ)}
    (h : Linked cfg d stack chain) (n : ℕ) : Linked cfg d (stack.take n) chain := by
  induction h generalizing n with
  | nil d chain =>
    rw [List.take_nil]
    exact .nil d chain
  | cons b hkept hinv _ ih =>
    cases n with
    | zero => exact .nil _ _
    | succ n => exact .cons b hkept hinv (ih n)

/-- The record of a block can be taken back. -/
theorem Kept.restore (h : Kept d₀ d undo) (order : UndoOrder undo) : restore d undo order = .ok d₀ := by
  have hkeys : KeysKept d undo := by
    intro i a j b ha hb hne _
    obtain ⟨a', ha', hsame⟩ := h.keys i a ha
    rw [hsame]
    exact h.recorded.after.unique j i b a' hb ha' hne
  have hensures := h.recorded.restore order
  rcases hrestore : Playchain.restore d undo order with e | d'
  · exact absurd hkeys (hensures.of_error hrestore)
  · obtain ⟨hobjects, hnext⟩ := hensures.of_ok hrestore
    obtain ⟨objects, next, secondary⟩ := d'
    obtain rfl : objects = d₀.objects := hobjects
    obtain rfl : next = d₀.nextId := hnext
    rfl

/-- The invariant of runs. -/
structure Sound (cfg : Config) (u : HistoryStore τ) (chain : List (Block τ)) : Prop where
  inv : Inv cfg (fun _ ↦ cfg.maxOpsPerAccount) (chainEntries chain) none u.db
  linked : Linked cfg u.db u.stack chain
  sessions : u.activeSessions = 0

namespace Sound

variable {u : HistoryStore τ} {chain : List (Block τ)}

theorem genesis (cfg : Config) (accounts : ℕ) :
    Sound cfg (AccountHistory.genesis accounts : HistoryStore τ) [] := by
  have h : Inv cfg (fun _ ↦ cfg.maxOpsPerAccount) [] none
      ({ objects := ∅, nextId := fun _ ↦ 0, secondary := () } : HistoryDatabase τ) :=
    { valid :=
        { unique := fun i j a b ha ↦ by cases ha
          lt_nextId := fun k n a ha ↦ by cases ha }
      shaped := fun i r hr ↦ by cases hr
      accounts := fun a ha ↦ absurd ha (Nat.not_lt_zero a)
      nextOperation := rfl
      stored := fun n c hc ↦ by cases hc
      lists := fun a st hst ↦ by cases hst
      size := fun a st hst ↦ by cases hst
      owned := fun k r hr ↦ by cases hr
      zero := fun r hr ↦ by cases hr
      refersBelow := fun k r hr ↦ by cases hr
      references := fun _ n ↦ by
        constructor
        · rintro ⟨c, hc⟩
          cases hc
        · rintro (⟨k, r, hr, -⟩ | hpending)
          · cases hr
          · cases hpending }
  have hbooks : Books false ({ objects := ∅, nextId := fun _ ↦ 0, secondary := () } : HistoryDatabase τ)
      { db := { objects := ∅, nextId := fun _ ↦ 0, secondary := () }, undo := {} } :=
    ⟨fun henabled ↦ (by cases henabled), fun henabled ↦ (by cases henabled)⟩
  obtain ⟨h', -, -⟩ := createAccounts_spec (s := { db := _, undo := {} }) h hbooks accounts
  exact ⟨h', .nil _ _, rfl⟩

/-- The block in its session, before it is committed or undone. -/
theorem openBlock (hmax : 1 ≤ cfg.maxOpsPerAccount) (h : Sound cfg u chain) (hknown : Known cfg u b) :
    Inv cfg (fun _ ↦ cfg.maxOpsPerAccount) (chainEntries (b :: chain)) none
        (AccountHistory.openBlock cfg u b).db ∧
      Kept u.db (AccountHistory.openBlock cfg u b).db (AccountHistory.openBlock cfg u b).top := by
  obtain ⟨h', hkept⟩ := runBlock_spec true hmax h.inv hknown
  rw [← chainEntries_cons] at h'
  exact ⟨h', hkept rfl⟩

theorem push (hmax : 1 ≤ cfg.maxOpsPerAccount) (h : Sound cfg u chain) (hknown : Known cfg u b) :
    Sound cfg (pushBlock cfg u b) (b :: chain) := by
  obtain ⟨h', hkept⟩ := h.openBlock hmax hknown
  have hpush : pushBlock cfg u b =
      { AccountHistory.openBlock cfg u b with activeSessions := u.activeSessions } := rfl
  rw [hpush]
  exact ⟨h', .cons b hkept h.inv (h.linked.take _), h.sessions⟩

theorem replay (hmax : 1 ≤ cfg.maxOpsPerAccount) (h : Sound cfg u chain) (hknown : Known cfg u b)
    (hstack : u.stack = []) : Sound cfg (replayBlock cfg u b) (b :: chain) := by
  obtain ⟨h', -⟩ := runBlock_spec false hmax h.inv hknown
  rw [← chainEntries_cons] at h'
  refine ⟨h', ?_, h.sessions⟩
  show Linked cfg _ u.stack _
  rw [hstack]
  exact .nil _ _

/-- A block that is undone leaves nothing behind. -/
theorem fail (hmax : 1 ≤ cfg.maxOpsPerAccount) (h : Sound cfg u chain) (hknown : Known cfg u b)
    (order : UndoOrder (AccountHistory.openBlock cfg u b).top) :
    Sound cfg (settle (AccountHistory.openBlock cfg u b)
      ((AccountHistory.openBlock cfg u b).undo order)) chain := by
  obtain ⟨-, hkept⟩ := h.openBlock hmax hknown
  have hundo : (AccountHistory.openBlock cfg u b).undo order =
      .ok { AccountHistory.openBlock cfg u b with
        db := u.db
        stack := u.stack.take u.maxSize
        activeSessions := u.activeSessions } := by
    rw [UndoDatabase.undo, if_neg, hkept.restore order]
    · rfl
    · rintro (hzero | hnil)
      · exact absurd hzero (Nat.succ_ne_zero u.activeSessions)
      · cases hnil
  rw [hundo]
  exact ⟨h.inv, h.linked.take _, h.sessions⟩

/-- **Popping a block restores the state before it.** -/
theorem pop (h : Sound cfg u (b :: chain)) (order : UndoOrder u.top) (hstack : u.stack ≠ []) :
    Sound cfg (settle u (u.popCommit order)) chain := by
  obtain ⟨db, stack, sessions, maxSize⟩ := u
  obtain ⟨hinv, hlinked, hsessions⟩ := h
  cases hlinked with
  | nil => exact absurd rfl hstack
  | @cons _ d₀ undo rest _ _ hkept hinv₀ hrest =>
    have hpop : UndoDatabase.popCommit ⟨db, undo :: rest, sessions, maxSize⟩ order =
        .ok ⟨d₀, rest, sessions, maxSize⟩ := by
      rw [UndoDatabase.popCommit, if_neg]
      · show (Playchain.restore db undo order >>= fun d ↦ pure _) = _
        rw [hkept.restore order]
        rfl
      · rintro (hne | hnil)
        · exact hne hsessions
        · cases hnil
    rw [hpop]
    exact ⟨hinv₀, hrest, hsessions⟩

/-- The invariant holds in every state of a run whose blocks name known accounts only. -/
theorem of_reached (hmax : 1 ≤ cfg.maxOpsPerAccount) (h : Reached cfg (Known cfg) u chain) :
    Sound cfg u chain := by
  induction h with
  | genesis accounts => exact .genesis cfg accounts
  | replay b hstack hallowed _ ih => exact ih.replay hmax hallowed hstack
  | push b hallowed _ ih => exact ih.push hmax hallowed
  | fail b hallowed order _ ih => exact ih.fail hmax hallowed order
  | pop b order hstack _ ih => exact ih.pop order hstack

end Sound

end Blocks

/-! ### Well-formed histories -/

section WellFormed

variable {τ : Type} {cfg : Config} {d : HistoryDatabase τ} {a : ℕ} {st : AccountStatistics}

/-- Follow `next` until the zero id. -/
def walk (d : HistoryDatabase τ) : ℕ → ℕ → Option (List ℕ)
  | _, 0 => some []
  | 0, _ + 1 => none
  | fuel + 1, id + 1 => do
    let r ← record? d (id + 1)
    let path ← walk d fuel r.next
    return (id + 1) :: path

/-- Record ids of an account, up to a sequence. -/
def RecordUpTo (d : HistoryDatabase τ) (a q id : ℕ) : Prop :=
  ∃ r, record? d id = some r ∧ r.account = a ∧ r.sequence ≤ q

/-- The later one of two ids has the smaller sequence. -/
def Descending (d : HistoryDatabase τ) (path : List ℕ) : Prop :=
  path.Pairwise fun i j ↦ ∀ r r', record? d i = some r → record? d j = some r' → r'.sequence < r.sequence

section Walk

variable {limit : ℕ → ℕ} {entries : List (Option (AppliedOperation τ))} {n id : ℕ} {r : AccountRecord}

/-- The record with the id zero is the last one of its list. -/
theorem walk_zero (h : Inv cfg limit entries none d) (hst : statistics? d a = some st)
    (hr : record? d 0 = some r) (hacc : r.account = a) :
    ∀ j, ¬(j ≠ 0 ∧ RecordUpTo d a r.sequence j) := by
  rintro j ⟨hj, r', hr', hacc', hle⟩
  have hone := h.zero r hr
  have hrange := (h.lists a st hst).range j r' hr' hacc'
  exact hj (h.unique hr' hr (hacc'.trans hacc.symm) (.inl (by omega)))

/-- The walk from a record visits it and the earlier ones of its account. -/
theorem walk_spec (h : Inv cfg limit entries none d) (hst : statistics? d a = some st)
    (hr : record? d id = some r) (hacc : r.account = a) (hseq : r.sequence = st.removedOps + n + 1) :
    ∃ path, walk d (n + 1) id = some path ∧
      (∀ j, j ∈ path ↔ j ≠ 0 ∧ RecordUpTo d a r.sequence j) ∧ Descending d path := by
  have hlist := h.lists a st hst
  induction n generalizing id r with
  | zero =>
    rcases id with - | m
    · exact ⟨[], rfl, fun j ↦ iff_of_false List.not_mem_nil (walk_zero h hst hr hacc j), .nil⟩
    · refine ⟨[m + 1], ?_, fun j ↦ ?_, List.pairwise_singleton _ _⟩
      · rw [walk, hr]
        show (walk d 0 r.next >>= fun path ↦ pure ((m + 1) :: path)) = _
        rw [hlist.last _ r hr hacc hseq, walk]
        rfl
      · rw [List.mem_singleton]
        constructor
        · rintro rfl
          exact ⟨Nat.succ_ne_zero m, r, hr, hacc, le_rfl⟩
        · rintro ⟨-, r', hr', hacc', hle⟩
          have hrange := hlist.range j r' hr' hacc'
          exact h.unique hr' hr (hacc'.trans hacc.symm) (.inl (by omega))
  | succ n ih =>
    rcases id with - | m
    · exact ⟨[], rfl, fun j ↦ iff_of_false List.not_mem_nil (walk_zero h hst hr hacc j), .nil⟩
    · obtain ⟨r', hr', hacc', hseq'⟩ := hlist.link _ r hr hacc (by omega)
      obtain ⟨path, hpath, hmem, hsorted⟩ := ih hr' hacc' (by omega)
      refine ⟨(m + 1) :: path, ?_, fun j ↦ ?_, List.pairwise_cons.2 ⟨fun j hj r₁ r₂ hr₁ hr₂ ↦ ?_, hsorted⟩⟩
      · rw [walk, hr]
        show (walk d (n + 1) r.next >>= fun path ↦ pure ((m + 1) :: path)) = _
        rw [hpath]
        rfl
      · rw [List.mem_cons, hmem]
        constructor
        · rintro (rfl | ⟨hj, r₂, hr₂, hacc₂, hle⟩)
          · exact ⟨Nat.succ_ne_zero m, r, hr, hacc, le_rfl⟩
          · exact ⟨hj, r₂, hr₂, hacc₂, by omega⟩
        · rintro ⟨hj, r₂, hr₂, hacc₂, hle⟩
          by_cases hlast : r₂.sequence = r.sequence
          · exact .inl (h.unique hr₂ hr (hacc₂.trans hacc.symm) (.inl hlast))
          · exact .inr ⟨hj, r₂, hr₂, hacc₂, by omega⟩
      · obtain ⟨-, r₃, hr₃, -, hle⟩ := (hmem j).1 hj
        rw [hr] at hr₁
        rw [hr₃] at hr₂
        obtain rfl := Option.some.inj hr₁
        obtain rfl := Option.some.inj hr₂
        omega

end Walk

/-- **A well-formed history of an account**: exactly the records with the sequences
`removed_ops + 1 .. total_ops`, not more than the limit, and the list from the most recent record visits
those with an id other than zero in decreasing order. -/
structure WellFormed (cfg : Config) (d : HistoryDatabase τ) (a : ℕ) (st : AccountStatistics) : Prop where
  sequences : ∀ q, (∃ k r, record? d k = some r ∧ r.account = a ∧ r.sequence = q) ↔
    st.removedOps < q ∧ q ≤ st.totalOps
  once : ∀ j k r r', record? d j = some r → record? d k = some r' → r.account = a → r'.account = a →
    r.sequence = r'.sequence → j = k
  le : st.removedOps ≤ st.totalOps
  bounded : st.totalOps - st.removedOps ≤ cfg.maxOpsPerAccount
  list : ∃ fuel path, walk d fuel st.mostRecentOp = some path ∧
    (∀ j, j ∈ path ↔ j ≠ 0 ∧ ∃ r, record? d j = some r ∧ r.account = a) ∧ Descending d path

theorem Inv.wellFormed {entries : List (Option (AppliedOperation τ))}
    (h : Inv cfg (fun _ ↦ cfg.maxOpsPerAccount) entries none d) (hst : statistics? d a = some st) :
    WellFormed cfg d a st := by
  have hlist := h.lists a st hst
  refine ⟨fun q ↦ ⟨?_, fun hq ↦ hlist.present q hq.1 hq.2⟩, fun j k r r' hr hr' hacc hacc' hseq ↦
    h.unique hr hr' (hacc.trans hacc'.symm) (.inl hseq), hlist.le, h.size a st hst, ?_⟩
  · rintro ⟨k, r, hr, hacc, rfl⟩
    exact hlist.range k r hr hacc
  · rcases Nat.eq_zero_or_pos st.totalOps with hzero | hpos
    · refine ⟨0, [], by rw [hlist.empty hzero, walk], fun j ↦ ?_, .nil⟩
      refine iff_of_false List.not_mem_nil ?_
      rintro ⟨-, r, hr, hacc⟩
      have hrange := hlist.range j r hr hacc
      omega
    · obtain ⟨r, hr, hacc, hseq⟩ := hlist.recent hpos
      have hlt := hlist.pos hpos
      obtain ⟨path, hpath, hmem, hsorted⟩ := walk_spec (n := st.totalOps - st.removedOps - 1) h hst hr
        hacc (by omega)
      refine ⟨_, path, hpath, fun j ↦ ?_, hsorted⟩
      rw [hmem]
      constructor
      · rintro ⟨hj, r', hr', hacc', -⟩
        exact ⟨hj, r', hr', hacc'⟩
      · rintro ⟨hj, r', hr', hacc'⟩
        exact ⟨hj, r', hr', hacc', hseq ▸ (hlist.range j r' hr' hacc').2⟩

/-- **Account histories stay well formed** in every run whose operations name existing accounts: the
history of every account is a list, with partial operations an operation is stored exactly when a record
refers to it, and the id of a stored operation is its position in the chain, so that it is the same with
other options. -/
theorem history_wellFormed (cfg : Config) (hmax : 1 ≤ cfg.maxOpsPerAccount) (u : HistoryStore τ)
    (chain : List (Block τ)) (h : Reached cfg (Known cfg) u chain) :
    (∀ a st, statistics? u.db a = some st → WellFormed cfg u.db a st) ∧
    (cfg.partialOperations = true → ∀ n, (∃ c, operation? u.db n = some c) ↔
      ∃ k r, record? u.db k = some r ∧ r.operationId = n) ∧
    (∀ n c, operation? u.db n = some c →
      ∃ op, (chainEntries chain)[n]? = some (some op) ∧ c = some op.content) ∧
    ∀ (cfg' : Config) (u' : HistoryStore τ), 1 ≤ cfg'.maxOpsPerAccount →
      Reached cfg' (Known cfg') u' chain →
      u'.db.nextId .operation = u.db.nextId .operation ∧
        ∀ n c c', operation? u.db n = some c → operation? u'.db n = some c' → c = c' := by
  have hinv := (Sound.of_reached hmax h).inv
  refine ⟨fun a st hst ↦ hinv.wellFormed hst, fun hpart n ↦ ?_, hinv.stored, fun cfg' u' hmax' h' ↦ ?_⟩
  · rw [hinv.references hpart n]
    simp only [reduceCtorEq, or_false]
  · have hinv' := (Sound.of_reached hmax' h').inv
    refine ⟨hinv'.nextOperation.trans hinv.nextOperation.symm, fun n c c' hc hc' ↦ ?_⟩
    obtain ⟨op, hop, rfl⟩ := hinv.stored n c hc
    obtain ⟨op', hop', rfl⟩ := hinv'.stored n c' hc'
    rw [hop] at hop'
    obtain rfl := Option.some.inj (Option.some.inj hop')
    rfl

end WellFormed

/-! ### Concrete runs -/

/-- An operation that applies to some accounts. -/
def sampleOperation (content : ℕ) (impacted : List ℕ) : Option (AppliedOperation ℕ) :=
  some ⟨content, FlatSet.ofList impacted⟩

/-- Two operations of the first account. -/
def sampleBlock : Block ℕ where
  hist := [sampleOperation 1 [0], sampleOperation 2 [0]]

/-- Two blocks are pushed with at most one record for each account, and the second one is popped. -/
theorem history_wellFormed_sample : ∃ (cfg : Config) (u : HistoryStore ℕ),
    cfg.partialOperations = true ∧ operation? u.db 1 = some (some 2) ∧
    (∀ a st, statistics? u.db a = some st → WellFormed cfg u.db a st) ∧
    ∀ n, (∃ c, operation? u.db n = some c) ↔ ∃ k r, record? u.db k = some r ∧ r.operationId = n := by
  let cfg : Config := { partialOperations := true, maxOpsPerAccount := 1 }
  have hknown (u : HistoryStore ℕ) (hu : 1 ≤ u.db.nextId .statistics) : Known cfg u sampleBlock := by
    intro e he
    have hzero (content : ℕ) : KnownAt cfg (u.db.nextId .statistics + sampleBlock.newAccounts)
        (sampleOperation content [0]) := by
      intro a ha _
      have hmem : a ∈ [0] := FlatSet.mem_keys_ofList.1 (FlatMap.contains_iff.1 ha)
      rw [List.mem_singleton.1 hmem]
      exact Nat.lt_of_lt_of_le Nat.zero_lt_one (hu.trans (Nat.le_add_right _ _))
    rcases List.mem_cons.1 he with rfl | he
    · exact hzero 1
    · rw [List.mem_singleton.1 he]
      exact hzero 2
  let u₁ := pushBlock cfg (genesis 1) sampleBlock
  let u₂ := pushBlock cfg u₁ sampleBlock
  have h₁ : Reached cfg (Known cfg) u₁ [sampleBlock] :=
    .push sampleBlock (hknown _ (by decide)) (.genesis 1)
  have h₂ : Reached cfg (Known cfg) u₂ [sampleBlock, sampleBlock] :=
    .push sampleBlock (hknown _ (by decide)) h₁
  have h₃ := h₂.pop sampleBlock (.sorted _) (by decide)
  obtain ⟨hlists, hoperations, -⟩ := history_wellFormed cfg le_rfl _ _ h₃
  exact ⟨cfg, _, rfl, by decide, hlists, hoperations rfl⟩

/-- The first operation of the block, a proposal, names an account that does not exist. -/
def proposalBlock : Block ℕ where
  hist := [sampleOperation 1 [0, 9], sampleOperation 2 [0]]

/-- **The ids of operations can depend on the options.** When all accounts are tracked the plugin stops at
the account that does not exist, and the second operation of the block does not take up its id; an
operation of a later block gets it. A plugin that tracks the first account only goes on. -/
theorem ids_differ : ∃ (cfg cfg' : Config) (u u' : HistoryStore ℕ) (chain : List (Block ℕ)),
    1 ≤ cfg.maxOpsPerAccount ∧ 1 ≤ cfg'.maxOpsPerAccount ∧
    Reached cfg (fun _ _ ↦ True) u chain ∧ Reached cfg' (fun _ _ ↦ True) u' chain ∧
    operation? u.db 1 = some (some 3) ∧ operation? u'.db 1 = some (some 2) ∧
    operation? u'.db 2 = some (some 3) := by
  let later : Block ℕ := { hist := [sampleOperation 3 [0]] }
  let cfg' : Config := { trackedAccounts := FlatSet.ofList [0] }
  refine ⟨{}, cfg', pushBlock {} (pushBlock {} (genesis 1) proposalBlock) later,
    pushBlock cfg' (pushBlock cfg' (genesis 1) proposalBlock) later, [later, proposalBlock],
    by decide, by decide, .push _ trivial (.push _ trivial (.genesis 1)),
    .push _ trivial (.push _ trivial (.genesis 1)), ?_, ?_, ?_⟩
  · decide
  · decide
  · decide

end Playchain.AccountHistory
