import Playchain.Blocks.Admission
import Playchain.Blocks.WitnessChain
import Playchain.Lib.Control
import Playchain.Spec.Synopsis

/-!
# What is admitted to a chain

Three guarantees about the transactions on a chain. No id occurs twice (`transactions_once`): the index forgets a transaction
only when its time is over. The reference of a transaction names a block of the chain (`reference_on_chain`), and a reference
that was made for a block holds on exactly the chains with a block of that number and prefix (`reference_made`). After a
replay that looks for duplicates in young blocks only, the index is the same as that of a node that checked every block
(`reindexed_index`).
-/

namespace Playchain

variable {σ β ι τ κ : Type} [LinearOrder κ] [Blocks β ι τ]

/-! ### The ring of block summaries -/

/-- The entry of the ring at a place: the latest block of the chain whose number has these low bits, if there is one. -/
def ringEntry (chain : List β) (r : ℕ) : ι :=
  if r ≤ chain.length then idAt chain (chain.length - (chain.length - r) % 2 ^ 16) else Blocks.noBlock β

theorem and_blockidPoolSize (n : ℕ) : n &&& blockidPoolSize = n % 2 ^ 16 := Nat.and_two_pow_sub_one_eq_mod n 16

/-- **A block replaces the entry of the block that is a whole ring below it.** -/
theorem ringEntry_append (chain : List β) (b : β) {r : ℕ} (hr : r < 2 ^ 16) :
    ringEntry (chain ++ [b]) r = Function.update (ringEntry chain) ((chain.length + 1) % 2 ^ 16) (Blocks.id b) r := by
  have hlast : idAt (chain ++ [b]) (chain.length + 1) = Blocks.id b := idAt_succ_of_getElem? List.getElem?_concat_length
  rw [ringEntry, List.length_append, List.length_singleton]
  by_cases heq : r = (chain.length + 1) % 2 ^ 16
  · rw [heq, Function.update_self, if_pos (Nat.mod_le _ _),
      show (chain.length + 1 - (chain.length + 1) % 2 ^ 16) % 2 ^ 16 = 0 by omega, Nat.sub_zero, hlast]
  · rw [Function.update_of_ne heq, ringEntry]
    by_cases hle : r ≤ chain.length
    · rw [if_pos (by omega), if_pos hle, show chain.length + 1 - (chain.length + 1 - r) % 2 ^ 16 =
        chain.length - (chain.length - r) % 2 ^ 16 by omega, idAt_append_of_le _ _ (Nat.sub_le _ _)]
    · rw [if_neg hle, if_neg (by omega)]

/-- What an entry of the ring is. -/
theorem ringEntry_spec (chain : List β) {r : ℕ} (hr : r < 2 ^ 16) :
    ∃ j, j ≤ chain.length ∧ chain.length < j + 2 ^ 16 ∧ ringEntry chain r = idAt chain j ∧
      (j % 2 ^ 16 = r ∨ j = 0 ∧ chain.length < r) := by
  rw [ringEntry]
  by_cases hle : r ≤ chain.length
  · rw [if_pos hle]
    exact ⟨_, Nat.sub_le _ _, by omega, rfl, .inl (by omega)⟩
  · rw [if_neg hle]
    exact ⟨0, Nat.zero_le _, by omega, rfl, .inr ⟨rfl, by omega⟩⟩

/-- The latest blocks are all in the ring. -/
theorem ringEntry_of_window (chain : List β) {j : ℕ} (hj : j ≤ chain.length) (hwindow : chain.length < j + 2 ^ 16) :
    ringEntry chain (j % 2 ^ 16) = idAt chain j := by
  rw [ringEntry, if_pos (by omega), show chain.length - (chain.length - j % 2 ^ 16) % 2 ^ 16 = j by omega]

/-! ### Transactions -/

variable [DecidableEq ι] [AdmissionRules σ β ι τ κ] {skip : SkipFlags} {s s' : AdmissionState σ ι τ κ} {t : τ} {b : β}

namespace AdmissionState

/-- What a transaction that is applied has passed, and what it leaves behind. -/
structure Admitted (skip : SkipFlags) (s : AdmissionState σ ι τ κ) (t : τ) (s' : AdmissionState σ ι τ κ) : Prop where
  fresh : skip.transactionDupeCheck = false → s.transactionIndex.find? (AdmissionRules.txId σ t) = none
  window : 0 < s.headBlockNum → s.headBlockTime ≤ AdmissionRules.expiration σ t ∧
    AdmissionRules.expiration σ t ≤ s.headBlockTime.addSeconds (AdmissionRules.maximumTimeUntilExpiration s.objects) ∧
    (skip.taposCheck = true ∨ s.referenceMatches t)
  result : ∃ objects, s' = { s.enterTransaction skip t with objects := objects } ∧
    AdmissionRules.maximumTimeUntilExpiration objects = AdmissionRules.maximumTimeUntilExpiration s.objects

omit [DecidableEq ι] in
theorem enterTransaction_objects (skip : SkipFlags) (s : AdmissionState σ ι τ κ) (t : τ) :
    (s.enterTransaction skip t).objects = s.objects := by
  rw [enterTransaction]
  split <;> rfl

omit [DecidableEq ι] in
theorem applyTransaction_ok (h : s.applyTransaction skip t = .ok s') : Admitted skip s t s' := by
  obtain ⟨⟨⟩, hcheck, h⟩ := Except.bind_eq_ok.1 h
  obtain ⟨objects, hobjects, h⟩ := Except.bind_eq_ok.1 h
  obtain ⟨⟨⟩, -, hcheck⟩ := Except.bind_eq_ok.1 hcheck
  obtain ⟨⟨⟩, hfresh, hcheck⟩ := Except.bind_eq_ok.1 hcheck
  obtain ⟨⟨⟩, -, hcheck⟩ := Except.bind_eq_ok.1 hcheck
  refine ⟨fun hskip ↦ ?_, fun hnum ↦ ?_, objects, (Except.pure_eq_ok.1 h).symm, ?_⟩
  · exact (fcAssert_eq_ok.1 hfresh).resolve_left (by simp [hskip])
  · rw [if_pos hnum] at hcheck
    obtain ⟨⟨⟩, href, hcheck⟩ := Except.bind_eq_ok.1 hcheck
    obtain ⟨⟨⟩, hlate, hcheck⟩ := Except.bind_eq_ok.1 hcheck
    obtain ⟨⟨⟩, hexpired, -⟩ := Except.bind_eq_ok.1 hcheck
    exact ⟨fcAssert_eq_ok.1 hexpired, fcAssert_eq_ok.1 hlate, fcAssert_eq_ok.1 href⟩
  · rw [AdmissionRules.window_applyOperations hobjects, enterTransaction_objects]

/-- What the transactions of a block have passed. -/
structure AllAdmitted (skip : SkipFlags) (s : AdmissionState σ ι τ κ) (ts : List τ) (s' : AdmissionState σ ι τ κ) :
    Prop where
  fresh : skip.transactionDupeCheck = false →
    (ts.map (AdmissionRules.txId σ)).Nodup ∧ ∀ t ∈ ts, s.transactionIndex.find? (AdmissionRules.txId σ t) = none
  window : 0 < s.headBlockNum → ∀ t ∈ ts, s.headBlockTime ≤ AdmissionRules.expiration σ t ∧
    AdmissionRules.expiration σ t ≤ s.headBlockTime.addSeconds (AdmissionRules.maximumTimeUntilExpiration s.objects) ∧
    (skip.taposCheck = true ∨ s.referenceMatches t)
  result : ∃ objects index, s' = { s with objects := objects, transactionIndex := index }
  index : ∀ id t, s'.transactionIndex.find? id = some t ↔
    s.transactionIndex.find? id = some t ∨
      (skip.transactionDupeCheck = false ∧ t ∈ ts ∧ AdmissionRules.txId σ t = id)

omit [DecidableEq ι] in
/-- **The transactions of a block have ids that are new**, and all of them are entered. -/
theorem applyTransactions_ok {ts : List τ} (h : ts.foldlM (applyTransaction skip) s = .ok s') :
    AllAdmitted skip s ts s' := by
  induction ts generalizing s with
  | nil =>
    obtain rfl := Except.pure_eq_ok.1 h
    exact ⟨fun _ ↦ ⟨List.nodup_nil, nofun⟩, fun _ ↦ nofun, ⟨_, _, rfl⟩, fun id t ↦ by simp⟩
  | cons t ts ih =>
    rw [List.foldlM_cons] at h
    obtain ⟨s₁, ht, hts⟩ := Except.bind_eq_ok.1 h
    obtain ⟨hfresh, hwindow, objects, rfl, hobjects⟩ := applyTransaction_ok ht
    obtain ⟨hfreshs, hwindows, ⟨objects', index, rfl⟩, hindex⟩ := ih hts
    by_cases hskip : skip.transactionDupeCheck = true
    · have henter : s.enterTransaction skip t = s := if_pos hskip
      rw [henter] at hwindows hindex ⊢
      rw [hobjects] at hwindows
      refine ⟨fun hno ↦ absurd hskip (by simp [hno]), fun hnum ↦ ?_, ⟨_, _, rfl⟩, fun id t' ↦ ?_⟩
      · exact List.forall_mem_cons.2 ⟨hwindow hnum, hwindows hnum⟩
      · rw [hindex]
        simp [hskip]
    · have hcheck : skip.transactionDupeCheck = false := Bool.eq_false_iff.2 hskip
      have henter : s.enterTransaction skip t =
          { s with transactionIndex := s.transactionIndex.insert (AdmissionRules.txId σ t) t } := if_neg hskip
      rw [henter] at hfreshs hwindows hindex ⊢
      rw [hobjects] at hwindows
      obtain ⟨hnodup, hnew⟩ := hfreshs hcheck
      -- the later ones have met the index with this transaction in it
      have hne : ∀ t' ∈ ts, AdmissionRules.txId σ t' ≠ AdmissionRules.txId σ t := by
        intro t' ht' heq
        have hnone := hnew t' ht'
        rw [FlatMap.find?_insert, if_pos heq] at hnone
        cases hnone
      refine ⟨fun _ ↦ ⟨?_, ?_⟩, fun hnum ↦ ?_, ⟨_, _, rfl⟩, fun id t' ↦ ?_⟩
      · rw [List.map_cons, List.nodup_cons]
        refine ⟨fun hmem ↦ ?_, hnodup⟩
        obtain ⟨t', ht', heq⟩ := List.mem_map.1 hmem
        exact hne t' ht' heq
      · refine List.forall_mem_cons.2 ⟨hfresh hcheck, fun t' ht' ↦ ?_⟩
        rw [← FlatMap.find?_insert_of_ne s.transactionIndex t (hne t' ht')]
        exact hnew t' ht'
      · exact List.forall_mem_cons.2 ⟨hwindow hnum, hwindows hnum⟩
      · rw [hindex, FlatMap.find?_insert]
        by_cases hid : id = AdmissionRules.txId σ t
        · subst hid
          rw [if_pos rfl, hfresh hcheck]
          constructor
          · rintro (heq | ⟨-, hmem, heq⟩)
            · obtain rfl := Option.some.inj heq
              exact .inr ⟨hcheck, List.mem_cons_self, rfl⟩
            · exact absurd heq (hne t' hmem)
          · rintro (hnone | ⟨-, hmem, heq⟩)
            · cases hnone
            · obtain rfl | hmem := List.mem_cons.1 hmem
              · exact .inl rfl
              · exact absurd heq (hne t' hmem)
        · rw [if_neg hid]
          refine or_congr Iff.rfl (and_congr Iff.rfl ?_)
          constructor
          · exact fun ⟨hmem, heq⟩ ↦ ⟨List.mem_cons_of_mem _ hmem, heq⟩
          · rintro ⟨hmem, heq⟩
            obtain rfl | hmem := List.mem_cons.1 hmem
            · exact absurd heq.symm hid
            · exact ⟨hmem, heq⟩

/-! ### Blocks -/

/-- What a block that is applied has passed, and what it leaves behind. -/
structure BlockApplied (skip : SkipFlags) (s : AdmissionState σ ι τ κ) (b : β) (s' : AdmissionState σ ι τ κ) :
    Prop where
  previous : s.headBlockId = Blocks.previous b
  later : s.headBlockTime < AdmissionRules.timestamp σ b
  headBlockId : s'.headBlockId = Blocks.id b
  headBlockNum : s'.headBlockNum = blockNum b
  headBlockTime : s'.headBlockTime = AdmissionRules.timestamp σ b
  blockSummaries : s'.blockSummaries =
    Function.update s.blockSummaries (blockNum b &&& blockidPoolSize) (Blocks.id b)
  fresh : skip.transactionDupeCheck = false →
    ((Blocks.transactions b).map (AdmissionRules.txId σ)).Nodup ∧
      ∀ t ∈ Blocks.transactions b, s.transactionIndex.find? (AdmissionRules.txId σ t) = none
  window : 0 < s.headBlockNum → ∀ t ∈ Blocks.transactions b, s.headBlockTime ≤ AdmissionRules.expiration σ t ∧
    AdmissionRules.expiration σ t ≤ s.headBlockTime.addSeconds (AdmissionRules.maximumTimeUntilExpiration s.objects) ∧
    (skip.taposCheck = true ∨ s.referenceMatches t)
  /-- Those that are known or new, and have not expired. -/
  index : ∀ id t, s'.transactionIndex.find? id = some t ↔
    (s.transactionIndex.find? id = some t ∨
        (skip.transactionDupeCheck = false ∧ t ∈ Blocks.transactions b ∧ AdmissionRules.txId σ t = id)) ∧
      AdmissionRules.timestamp σ b ≤ AdmissionRules.expiration σ t

theorem applyBlock_ok (h : s.applyBlock skip b = .ok s') : BlockApplied skip s b s' := by
  obtain ⟨⟨⟩, hheader, h⟩ := Except.bind_eq_ok.1 h
  obtain ⟨s₁, hts, h⟩ := Except.bind_eq_ok.1 h
  obtain ⟨objects₁, -, h⟩ := Except.bind_eq_ok.1 h
  obtain ⟨objects₂, -, h⟩ := Except.bind_eq_ok.1 h
  obtain rfl := Except.pure_eq_ok.1 h
  obtain ⟨⟨⟩, hprevious, hheader⟩ := Except.bind_eq_ok.1 hheader
  obtain ⟨⟨⟩, hlater, -⟩ := Except.bind_eq_ok.1 hheader
  obtain ⟨hfresh, hwindow, ⟨objects, index, rfl⟩, hindex⟩ := applyTransactions_ok hts
  refine ⟨fcAssert_eq_ok.1 hprevious, fcAssert_eq_ok.1 hlater, rfl, rfl, rfl, rfl, hfresh, hwindow, fun id t ↦ ?_⟩
  rw [← hindex]
  dsimp only [setHead, createBlockSummary, clearExpiredTransactions]
  rw [FlatMap.find?_filter]
  simp

end AdmissionState

/-! ### Chains -/

variable {chain log : List β} {flags : ℕ → SkipFlags}

/-- What holds of the state after the blocks of a chain, whatever checks are skipped. -/
structure Follows (chain : List β) (s : AdmissionState σ ι τ κ) : Prop where
  linked : LinkedChain chain
  headBlockId : s.headBlockId = idAt chain chain.length
  headBlockNum : s.headBlockNum = chain.length
  blockSummaries : ∀ r < 2 ^ 16, s.blockSummaries r = ringEntry chain r
  headBlockTime : ∀ b, chain.getLast? = some b → AdmissionRules.timestamp σ b = s.headBlockTime
  index : ∀ id t, s.transactionIndex.find? id = some t →
    t ∈ chainTransactions chain ∧ AdmissionRules.txId σ t = id ∧ s.headBlockTime ≤ AdmissionRules.expiration σ t

omit [LinearOrder κ] [DecidableEq ι] [AdmissionRules σ β ι τ κ] in
theorem mem_chainTransactions_append {chain : List β} {b : β} {t : τ} :
    t ∈ chainTransactions (chain ++ [b]) ↔ t ∈ chainTransactions chain ∨ t ∈ Blocks.transactions b := by
  rw [chainTransactions, chainTransactions, List.flatMap_append, List.mem_append, List.flatMap_singleton]

omit [DecidableEq ι] in
theorem Follows.genesis (objects : σ) (genesisTime : TimePointSec) :
    Follows ([] : List β) (.genesis β objects genesisTime : AdmissionState σ ι τ κ) where
  linked := ⟨fun k b h ↦ by cases h⟩
  headBlockId := rfl
  headBlockNum := rfl
  blockSummaries r _ := by
    rw [ringEntry]
    split
    · next h =>
      rw [List.length_nil, Nat.zero_sub, idAt_zero]
      rfl
    · rfl
  headBlockTime b h := by cases h
  index id t h := by cases h

omit [DecidableEq ι] in
/-- **A block goes on with the chain.** -/
theorem Follows.block (h : Follows chain s) (hb : s.BlockApplied skip b s') : Follows (chain ++ [b]) s' := by
  have hprevious : Blocks.previous b = idAt chain chain.length := hb.previous.symm.trans h.headBlockId
  have hnum : blockNum b = chain.length + 1 := by
    rw [blockNum, hprevious, h.linked.num_idAt le_rfl]
  have hlast : idAt (chain ++ [b]) (chain.length + 1) = Blocks.id b := idAt_succ_of_getElem? List.getElem?_concat_length
  refine ⟨h.linked.append_singleton hprevious, ?_, ?_, fun r hr ↦ ?_, fun c hc ↦ ?_, fun id t ht ↦ ?_⟩
  · rw [hb.headBlockId, List.length_append, List.length_singleton, hlast]
  · rw [hb.headBlockNum, hnum, List.length_append, List.length_singleton]
  · rw [hb.blockSummaries, hnum, and_blockidPoolSize, ringEntry_append chain b hr]
    by_cases heq : r = (chain.length + 1) % 2 ^ 16
    · rw [heq, Function.update_self, Function.update_self]
    · rw [Function.update_of_ne heq, Function.update_of_ne heq, h.blockSummaries r hr]
  · rw [List.getLast?_concat] at hc
    obtain rfl := Option.some.inj hc
    exact hb.headBlockTime.symm
  · obtain ⟨hold | ⟨-, hmem, hid⟩, halive⟩ := (hb.index id t).1 ht
    · obtain ⟨hmem, hid, -⟩ := h.index id t hold
      exact ⟨mem_chainTransactions_append.2 (.inl hmem), hid, hb.headBlockTime.trans_le halive⟩
    · exact ⟨mem_chainTransactions_append.2 (.inr hmem), hid, hb.headBlockTime.trans_le halive⟩

namespace AppliedChain

theorem follows (h : AppliedChain σ flags chain s) : Follows chain s := by
  induction h with
  | genesis objects genesisTime => exact .genesis objects genesisTime
  | block _ hb ih => exact ih.block (AdmissionState.applyBlock_ok hb)

/-- The state in which a block of the chain has been applied. -/
theorem before (h : AppliedChain σ flags chain s) {k : ℕ} (hk : chain[k]? = some b) :
    ∃ s₁ s₂, AppliedChain σ flags (chain.take k) s₁ ∧ AdmissionState.applyBlock (flags k) s₁ b = .ok s₂ := by
  induction h with
  | genesis => cases hk
  | @block chain s₁ s₂ c h hc ih =>
    obtain hlt | rfl | hgt := lt_trichotomy k chain.length
    · rw [List.getElem?_append_left hlt] at hk
      rw [List.take_append_of_le_length hlt.le]
      exact ih hk
    · rw [List.getElem?_concat_length] at hk
      obtain rfl := Option.some.inj hk
      rw [List.take_left]
      exact ⟨s₁, s₂, h, hc⟩
    · rw [List.getElem?_eq_none (by rw [List.length_append, List.length_singleton]; omega)] at hk
      cases hk

end AppliedChain

/-! ### Duplicates -/

/-- Transactions of a chain with the same id expire at the same time. -/
def SoundIds (σ : Type) [AdmissionRules σ β ι τ κ] (chain : List β) : Prop :=
  ∀ t ∈ chainTransactions chain, ∀ t' ∈ chainTransactions chain,
    AdmissionRules.txId σ t = AdmissionRules.txId σ t' → AdmissionRules.expiration σ t = AdmissionRules.expiration σ t'

omit [DecidableEq ι] in
theorem SoundIds.of_append (h : SoundIds σ (chain ++ [b])) : SoundIds σ chain := fun t ht t' ht' ↦
  h t (mem_chainTransactions_append.2 (.inl ht)) t' (mem_chainTransactions_append.2 (.inl ht'))

/-- The ids of a chain are distinct, and the index has all transactions that have not expired. -/
structure Remembers (chain : List β) (s : AdmissionState σ ι τ κ) : Prop where
  nodup : ((chainTransactions chain).map (AdmissionRules.txId σ)).Nodup
  index : ∀ t ∈ chainTransactions chain, s.headBlockTime ≤ AdmissionRules.expiration σ t →
    s.transactionIndex.find? (AdmissionRules.txId σ t) = some t

omit [DecidableEq ι] in
/-- **A block has no transaction that is on the chain already.** -/
theorem Remembers.block (hid : SoundIds σ (chain ++ [b])) (hcheck : skip.transactionDupeCheck = false)
    (hf : Follows chain s) (h : Remembers chain s) (hb : s.BlockApplied skip b s') : Remembers (chain ++ [b]) s' := by
  obtain ⟨hnodup, hnew⟩ := hb.fresh hcheck
  constructor
  · rw [chainTransactions, List.flatMap_append, List.flatMap_singleton, List.map_append, List.nodup_append']
    refine ⟨h.nodup, hnodup, fun id hold hmem ↦ ?_⟩
    obtain ⟨t₀, ht₀, rfl⟩ := List.mem_map.1 hold
    obtain ⟨t, ht, heq⟩ := List.mem_map.1 hmem
    have hnum : 0 < s.headBlockNum := by
      rw [hf.headBlockNum, List.length_pos_iff]
      rintro rfl
      cases ht₀
    -- it has not expired, and so the index still has the other one
    have halive := (hb.window hnum t ht).1
    rw [hid t (mem_chainTransactions_append.2 (.inr ht)) t₀ (mem_chainTransactions_append.2 (.inl ht₀)) heq] at halive
    have hknown := h.index t₀ ht₀ halive
    rw [← heq, hnew t ht] at hknown
    cases hknown
  · intro t ht halive
    rw [hb.headBlockTime] at halive
    rw [hb.index]
    obtain hold | hmem := mem_chainTransactions_append.1 ht
    · exact ⟨.inl (h.index t hold (hb.later.le.trans halive)), halive⟩
    · exact ⟨.inr ⟨hcheck, hmem, rfl⟩, halive⟩

theorem AppliedChain.remembers (hid : SoundIds σ chain) (hcheck : ∀ k, (flags k).transactionDupeCheck = false)
    (h : AppliedChain σ flags chain s) : Remembers chain s := by
  induction h with
  | genesis => exact ⟨List.nodup_nil, nofun⟩
  | block h hb ih => exact (ih hid.of_append).block hid (hcheck _) h.follows (AdmissionState.applyBlock_ok hb)

/-- **No transaction is applied twice.** On a chain whose blocks are checked for duplicates, all transactions have different
ids. The index holds exactly those that have not expired. -/
theorem transactions_once (hid : ∀ t ∈ chainTransactions chain, ∀ t' ∈ chainTransactions chain,
      AdmissionRules.txId σ t = AdmissionRules.txId σ t' → AdmissionRules.expiration σ t = AdmissionRules.expiration σ t')
    (hcheck : ∀ k, (flags k).transactionDupeCheck = false) (h : AppliedChain σ flags chain s) :
    ((chainTransactions chain).map (AdmissionRules.txId σ)).Nodup ∧
      ∀ id t, s.transactionIndex.find? id = some t ↔
        t ∈ chainTransactions chain ∧ AdmissionRules.txId σ t = id ∧ s.headBlockTime ≤ AdmissionRules.expiration σ t := by
  have hremembers := h.remembers hid hcheck
  refine ⟨hremembers.nodup, fun id t ↦ ⟨h.follows.index id t, ?_⟩⟩
  rintro ⟨hmem, rfl, halive⟩
  exact hremembers.index t hmem halive

/-! ### References -/

omit [DecidableEq ι] in
theorem Follows.referenceMatches_iff (h : Follows chain s) (t : τ) :
    s.referenceMatches t ↔ AdmissionRules.refBlockPrefix σ t =
      AdmissionRules.idPrefix σ (ringEntry chain (AdmissionRules.refBlockNum σ t).toNat) := by
  have hlt : (AdmissionRules.refBlockNum σ t).toNat < 2 ^ 16 := UInt16.toNat_lt _
  rw [AdmissionState.referenceMatches, and_blockidPoolSize, Nat.mod_eq_of_lt hlt, h.blockSummaries _ hlt]

/-- **A transaction refers to its chain.** Each transaction of a block after the first one names, by its low bits and its
prefix, one of the `2 ^ 16` blocks before it on this chain; only while there are fewer blocks, it may name none. -/
theorem reference_on_chain (h : AppliedChain σ flags chain s) {k : ℕ} (hk : chain[k]? = some b) (h₁ : 1 ≤ k)
    (hcheck : (flags k).taposCheck = false) (ht : t ∈ Blocks.transactions b) :
    ∃ j, j ≤ k ∧ k < j + 2 ^ 16 ∧
      AdmissionRules.refBlockPrefix σ t = AdmissionRules.idPrefix σ (idAt chain j) ∧
      (j % 2 ^ 16 = (AdmissionRules.refBlockNum σ t).toNat ∨ j = 0 ∧ k < (AdmissionRules.refBlockNum σ t).toNat) := by
  obtain ⟨s₁, s₂, hbefore, hb⟩ := h.before hk
  have hlength : (chain.take k).length = k := List.length_take_of_le (List.getElem?_eq_some_iff.1 hk).1.le
  have hnum : 0 < s₁.headBlockNum := by
    rw [hbefore.follows.headBlockNum, hlength]
    exact h₁
  have hmatches := ((AdmissionState.applyBlock_ok hb).window hnum t ht).2.2.resolve_left (by simp [hcheck])
  rw [hbefore.follows.referenceMatches_iff] at hmatches
  obtain ⟨j, hj, hwindow, hentry, hlow⟩ := ringEntry_spec (chain.take k) (UInt16.toNat_lt (AdmissionRules.refBlockNum σ t))
  rw [hlength] at hj hwindow hlow
  rw [hentry, idAt_take chain hj] at hmatches
  exact ⟨j, hj, hwindow, hmatches, hlow⟩

/-- **A reference holds on the chains that have the block.** Let a transaction refer to the block with number `j` of some
chain. On any chain that is past this number by fewer than `2 ^ 16` blocks, the reference holds if and only if the block with
this number there has the same prefix. -/
theorem reference_made {chain' : List β} (h : AppliedChain σ flags chain s) (hc : LinkedChain chain') {j : ℕ}
    (hj' : j ≤ chain'.length) (hj : j ≤ chain.length) (hwindow : chain.length < j + 2 ^ 16)
    (ht : (AdmissionRules.refBlockNum σ t, AdmissionRules.refBlockPrefix σ t) =
      setReferenceBlock β (AdmissionRules.idPrefix σ) (idAt chain' j)) :
    s.referenceMatches t ↔ AdmissionRules.idPrefix σ (idAt chain' j) = AdmissionRules.idPrefix σ (idAt chain j) := by
  obtain ⟨hnum, hword⟩ := Prod.mk.inj ht
  rw [h.follows.referenceMatches_iff, hword, hnum, hc.num_idAt hj', UInt16.toNat_ofNat',
    ringEntry_of_window chain hj hwindow]

/-! ### Replaying -/

theorem TimePointSec.subSeconds_eq {t s : ℕ} (hle : s ≤ t) (h : t < 2 ^ 32) : TimePointSec.subSeconds t s = t - s := by
  have hmod : (t + 2 ^ 32 - s % 2 ^ 32) % 2 ^ 32 = t - s := by omega
  exact hmod

namespace AdmissionState

variable {checkpoints : FlatMap ℕ ι}

theorem applyCheckpointed_ok (h : s.applyCheckpointed checkpoints skip b = .ok s') :
    s.applyBlock (if UpToCheckpoint checkpoints b then .all else skip) b = .ok s' := by
  rw [applyCheckpointed] at h
  split at h
  · obtain ⟨⟨⟩, -, h⟩ := Except.bind_eq_ok.1 h
    exact h
  · exact h

omit [DecidableEq ι] in
/-- The transactions of a block do not change the window for expirations. -/
theorem applyTransactions_window {ts : List τ} (h : ts.foldlM (applyTransaction skip) s = .ok s') :
    AdmissionRules.maximumTimeUntilExpiration s'.objects = AdmissionRules.maximumTimeUntilExpiration s.objects := by
  induction ts generalizing s with
  | nil => rw [Except.pure_eq_ok.1 h]
  | cons t ts ih =>
    rw [List.foldlM_cons] at h
    obtain ⟨s₁, ht, hts⟩ := Except.bind_eq_ok.1 h
    obtain ⟨-, -, objects, rfl, hobjects⟩ := applyTransaction_ok ht
    exact (ih hts).trans hobjects

/-- **A block at which no other parameters are installed keeps the window.** -/
theorem applyBlock_window
    (hafter : ∀ u : AdmissionState σ ι τ κ, ∀ objects, AdmissionRules.afterTransactions skip u b = .ok objects →
      AdmissionRules.maximumTimeUntilExpiration objects = AdmissionRules.maximumTimeUntilExpiration u.objects)
    (hend : ∀ u : AdmissionState σ ι τ κ, ∀ objects, AdmissionRules.endBlock skip u b = .ok objects →
      AdmissionRules.maximumTimeUntilExpiration objects = AdmissionRules.maximumTimeUntilExpiration u.objects)
    (h : s.applyBlock skip b = .ok s') :
    AdmissionRules.maximumTimeUntilExpiration s'.objects = AdmissionRules.maximumTimeUntilExpiration s.objects := by
  obtain ⟨⟨⟩, -, h⟩ := Except.bind_eq_ok.1 h
  obtain ⟨s₁, hts, h⟩ := Except.bind_eq_ok.1 h
  obtain ⟨objects₁, hobjects₁, h⟩ := Except.bind_eq_ok.1 h
  obtain ⟨objects₂, hobjects₂, h⟩ := Except.bind_eq_ok.1 h
  obtain rfl := Except.pure_eq_ok.1 h
  have hwindow := applyTransactions_window hts
  exact (hend _ _ hobjects₂).trans ((hafter _ _ hobjects₁).trans hwindow)

end AdmissionState

namespace ReadAhead

variable {checkpoints : FlatMap ℕ ι} {lastTimestamp : TimePointSec} {objects : σ} {genesisTime : TimePointSec}
  {maximum read applied : ℕ} {now : SkipFlags}

theorem follows (h : ReadAhead σ log checkpoints lastTimestamp skip objects genesisTime read applied now s) :
    Follows (log.take applied) s := by
  induction h with
  | start => exact .genesis objects genesisTime
  | read _ _ _ ih => exact ih
  | @apply read applied flags s s' b _ _ _ hb happly ih =>
    have hstep := ih.block (AdmissionState.applyBlock_ok (AdmissionState.applyCheckpointed_ok happly))
    rwa [show log.take (applied + 1) = log.take applied ++ [b] by rw [List.take_add_one, hb]; rfl]

/-- While duplicates are not looked for, all blocks that have been read are old. -/
theorem old_of_skip
    (hmax : ∀ read applied now s, ReadAhead σ log checkpoints lastTimestamp skip objects genesisTime read applied now s →
      AdmissionRules.maximumTimeUntilExpiration s.objects = maximum)
    (h : ReadAhead σ log checkpoints lastTimestamp skip objects genesisTime read applied now s)
    (hskip : now.transactionDupeCheck = true) {k : ℕ} (hk : k < read) (hb : log[k]? = some b) :
    AdmissionRules.timestamp σ b < lastTimestamp.subSeconds maximum := by
  induction h with
  | start => omega
  | @read read applied now s c h _ hc ih =>
    rw [readBlock, hmax _ _ _ _ h] at hskip
    split at hskip
    · cases hskip
    · next hyoung =>
      obtain hlt | rfl := Nat.lt_succ_iff_lt_or_eq.1 hk
      · exact ih hskip hlt
      · rw [hc] at hb
        exact Option.some.inj hb ▸ not_le.1 hyoung
  | apply _ _ _ _ _ ih => exact ih hskip hk

/-- **Transactions that are not in the index will have expired** when the last block is applied. -/
theorem index
    (hmax : ∀ read applied now s, ReadAhead σ log checkpoints lastTimestamp skip objects genesisTime read applied now s →
      AdmissionRules.maximumTimeUntilExpiration s.objects = maximum)
    (hle : maximum ≤ lastTimestamp) (hlast : lastTimestamp < 2 ^ 32)
    (hunchecked : ∀ b ∈ log, blockNum b = 1 ∨ AdmissionState.UpToCheckpoint checkpoints b → ∀ t ∈ Blocks.transactions b,
      AdmissionRules.expiration σ t < lastTimestamp)
    (h : ReadAhead σ log checkpoints lastTimestamp skip objects genesisTime read applied now s) :
    ∀ t ∈ chainTransactions (log.take applied), s.headBlockTime ≤ AdmissionRules.expiration σ t →
      s.transactionIndex.find? (AdmissionRules.txId σ t) = some t ∨ AdmissionRules.expiration σ t < lastTimestamp := by
  have hthreshold : lastTimestamp.subSeconds maximum = lastTimestamp - maximum := TimePointSec.subSeconds_eq hle hlast
  induction h with
  | start => exact fun t ht ↦ absurd ht (List.not_mem_nil)
  | read _ _ _ ih => exact ih
  | @apply read applied now s s' b h _ hlt hb happly ih =>
    have hstep := AdmissionState.applyBlock_ok (AdmissionState.applyCheckpointed_ok happly)
    intro t ht halive
    rw [hstep.headBlockTime] at halive
    rw [show log.take (applied + 1) = log.take applied ++ [b] by rw [List.take_add_one, hb]; rfl] at ht
    obtain hold | hmem := mem_chainTransactions_append.1 ht
    · refine (ih t hold (hstep.later.le.trans halive)).imp_left fun hknown ↦ ?_
      exact (hstep.index _ t).2 ⟨.inl hknown, halive⟩
    · have hin : b ∈ log := List.mem_of_getElem? hb
      have hlength : (log.take applied).length = applied := List.length_take_of_le (List.getElem?_eq_some_iff.1 hb).1.le
      have hnumBlock : blockNum b = applied + 1 := by
        rw [blockNum, ← hstep.previous, h.follows.headBlockId, h.follows.linked.num_idAt le_rfl, hlength]
      by_cases hcheckpoint : AdmissionState.UpToCheckpoint checkpoints b
      · exact .inr (hunchecked b hin (.inr hcheckpoint) t hmem)
      rw [if_neg hcheckpoint] at hstep
      by_cases hskip : now.transactionDupeCheck = true
      -- the block is old, and its transactions do not reach up to the last one
      · right
        obtain rfl | hpos := Nat.eq_zero_or_pos applied
        · exact hunchecked b hin (.inl hnumBlock) t hmem
        · have hold := h.old_of_skip hmax hskip hlt hb
          have hnum : 0 < s.headBlockNum := by
            rw [h.follows.headBlockNum, hlength]
            exact hpos
          have hlate := (hstep.window hnum t hmem).2.1
          rw [hthreshold] at hold
          rw [hmax _ _ _ _ h, TimePointSec.addSeconds] at hlate
          exact (hlate.trans (Nat.mod_le _ _)).trans_lt (Nat.add_lt_of_lt_sub (hstep.later.trans hold))
      · exact .inl ((hstep.index _ t).2 ⟨.inr ⟨Bool.eq_false_iff.2 hskip, hmem, rfl⟩, halive⟩)

/-- The window keeps its value if no other parameters are installed. -/
theorem window
    (hafter : ∀ skip, ∀ u : AdmissionState σ ι τ κ, ∀ b objects, AdmissionRules.afterTransactions skip u b = .ok objects →
      AdmissionRules.maximumTimeUntilExpiration objects = AdmissionRules.maximumTimeUntilExpiration u.objects)
    (hend : ∀ skip, ∀ u : AdmissionState σ ι τ κ, ∀ b objects, AdmissionRules.endBlock skip u b = .ok objects →
      AdmissionRules.maximumTimeUntilExpiration objects = AdmissionRules.maximumTimeUntilExpiration u.objects)
    (h : ReadAhead σ log checkpoints lastTimestamp skip objects genesisTime read applied now s) :
    AdmissionRules.maximumTimeUntilExpiration s.objects = AdmissionRules.maximumTimeUntilExpiration objects := by
  induction h with
  | start => rfl
  | read _ _ _ ih => exact ih
  | apply _ _ _ _ happly ih =>
    exact (AdmissionState.applyBlock_window (fun u ↦ hafter _ u _) (fun u ↦ hend _ u _)
      (AdmissionState.applyCheckpointed_ok happly)).trans ih

end ReadAhead

/-- **After a replay the same transactions are known as on a node that has checked every block.** The replay may look for
duplicates from some block on only, and be ahead with reading by up to twenty blocks, as long as the window for expirations
stays the same in all of its states. The transactions of the first block, which may expire at any time, have to be over, and
so have those of the blocks up to the last checkpoint. -/
theorem reindexed_index {live : AdmissionState σ ι τ κ} {checkpoints : FlatMap ℕ ι} {lastTimestamp : TimePointSec}
    {objects : σ} {genesisTime : TimePointSec} {maximum : ℕ} {now : SkipFlags}
    (hid : ∀ t ∈ chainTransactions log, ∀ t' ∈ chainTransactions log,
      AdmissionRules.txId σ t = AdmissionRules.txId σ t' → AdmissionRules.expiration σ t = AdmissionRules.expiration σ t')
    (hlive : AppliedChain σ flags log live) (hcheck : ∀ k, (flags k).transactionDupeCheck = false)
    (h : ReadAhead σ log checkpoints lastTimestamp skip objects genesisTime log.length log.length now s)
    (hlast : ∀ b, log.getLast? = some b → AdmissionRules.timestamp σ b = lastTimestamp)
    (hmax : ∀ read applied now s, ReadAhead σ log checkpoints lastTimestamp skip objects genesisTime read applied now s →
      AdmissionRules.maximumTimeUntilExpiration s.objects = maximum)
    (hle : maximum ≤ lastTimestamp) (hfit : lastTimestamp < 2 ^ 32)
    (hunchecked : ∀ b ∈ log, blockNum b = 1 ∨ AdmissionState.UpToCheckpoint checkpoints b → ∀ t ∈ Blocks.transactions b,
      AdmissionRules.expiration σ t < lastTimestamp) :
    s.transactionIndex = live.transactionIndex ∧ ∀ r < 2 ^ 16, s.blockSummaries r = live.blockSummaries r := by
  have hfollows := h.follows
  have hindex := h.index hmax hle hfit hunchecked
  rw [List.take_length] at hfollows hindex
  have hremembers := hlive.remembers hid hcheck
  refine ⟨FlatMap.ext_find? fun id ↦ ?_, fun r hr ↦ ?_⟩
  · obtain rfl | ⟨chain, b, rfl⟩ := log.eq_nil_or_concat'
    -- nothing is known on either side
    · have hnone {u : AdmissionState σ ι τ κ} (hu : Follows ([] : List β) u) : u.transactionIndex.find? id = none := by
        cases hfind : u.transactionIndex.find? id with
        | none => rfl
        | some t => exact absurd (hu.index id t hfind).1 List.not_mem_nil
      rw [hnone hfollows, hnone hlive.follows]
    · have hlastEq := hlast b List.getLast?_concat
      have htime : s.headBlockTime = lastTimestamp := (hfollows.headBlockTime b List.getLast?_concat).symm.trans hlastEq
      have htime' : live.headBlockTime = lastTimestamp :=
        (hlive.follows.headBlockTime b List.getLast?_concat).symm.trans hlastEq
      refine Option.ext fun t ↦ ⟨fun hfind ↦ ?_, fun hfind ↦ ?_⟩
      · obtain ⟨hmem, rfl, halive⟩ := hfollows.index id t hfind
        rw [htime, ← htime'] at halive
        exact hremembers.index t hmem halive
      · obtain ⟨hmem, rfl, halive⟩ := hlive.follows.index id t hfind
        rw [htime', ← htime] at halive
        obtain hknown | hexpired := hindex t hmem halive
        · exact hknown
        · rw [htime] at halive
          exact absurd hexpired (not_lt.2 halive)
  · rw [hfollows.blockSummaries r hr, hlive.follows.blockSummaries r hr]

/-! ### A chain of four blocks -/

namespace WitnessAdmission

open WitnessChain

/-- The state is the window for expirations. Blocks are dated by their tags. The digits of a transaction are the time when it
expires, the number of the block it refers to, and the prefix of this block. -/
instance : AdmissionRules ℕ Block (List Entry) (ProcessedTransaction ℕ Unit) ℕ where
  txId t := t.trx
  expiration t := 1000 + t.trx / 1000000
  refBlockNum t := UInt16.ofNat (t.trx / 1000 % 1000)
  refBlockPrefix t := UInt32.ofNat (t.trx % 1000)
  packedSize _ := 100
  validate _ := true
  idPrefix id := UInt32.ofNat ((id.head?.map Entry.tag).getD 0)
  timestamp b := 1000 + b.entry.tag
  maximumTimeUntilExpiration s := s
  maximumTransactionSize _ := 2048
  verifyAuthority _ _ := true
  applyOperations _ s _ := .ok s.objects
  window_applyOperations h := (Except.ok.inj h).symm
  validHeader _ _ _ := true
  afterTransactions _ s _ := .ok s.objects
  endBlock _ s _ := .ok s.objects

/-- Each block but the first one has a transaction that refers to the block before it. -/
def fourBlocks : List Block :=
  let b₁ : Entry := { tag := 7 }
  let b₂ : Entry := { tag := 60, transactions := [⟨100001007, ()⟩] }
  let b₃ : Entry := { tag := 130, transactions := [⟨155002060, ()⟩] }
  [⟨b₁, []⟩, ⟨b₂, [b₁]⟩, ⟨b₃, [b₂, b₁]⟩, ⟨{ tag := 150, transactions := [⟨160003130, ()⟩] }, [b₃, b₂, b₁]⟩]

theorem applied_fourBlocks : ∃ s, AppliedChain ℕ (fun _ ↦ {}) fourBlocks s :=
  ⟨_, .block (.block (.block (.block (.genesis 100 0) rfl) rfl) rfl) rfl⟩

theorem soundIds_fourBlocks : SoundIds ℕ fourBlocks := fun _ _ _ _ h ↦ congrArg (1000 + · / 1000000) h

theorem transactions_once_fourBlocks :
    ∃ s : AdmissionState ℕ (List Entry) (ProcessedTransaction ℕ Unit) ℕ, AppliedChain ℕ (fun _ ↦ {}) fourBlocks s ∧
      ((chainTransactions fourBlocks).map (AdmissionRules.txId ℕ)).Nodup ∧
      ∀ id t, s.transactionIndex.find? id = some t ↔
        t ∈ chainTransactions fourBlocks ∧ AdmissionRules.txId ℕ t = id ∧ s.headBlockTime ≤ AdmissionRules.expiration ℕ t := by
  obtain ⟨s, hs⟩ := applied_fourBlocks
  exact ⟨s, hs, transactions_once soundIds_fourBlocks (fun _ ↦ rfl) hs⟩

theorem reference_on_chain_fourBlocks :
    ∃ j, j ≤ 2 ∧ 60 = AdmissionRules.idPrefix ℕ (idAt fourBlocks j) := by
  obtain ⟨s, hs⟩ := applied_fourBlocks
  obtain ⟨j, hj, -, hword, -⟩ := reference_on_chain (t := ⟨155002060, ()⟩) hs (show fourBlocks[2]? = some _ from rfl)
    (by decide) rfl List.mem_cons_self
  exact ⟨j, hj, hword⟩

theorem reference_made_fourBlocks :
    ∃ s : AdmissionState ℕ (List Entry) (ProcessedTransaction ℕ Unit) ℕ, s.referenceMatches ⟨155002060, ()⟩ := by
  obtain ⟨s, hs⟩ := applied_fourBlocks
  exact ⟨s, (reference_made (j := 2) hs hs.follows.linked (by decide) (by decide) (by decide) rfl).2 rfl⟩

/-- The second block is a checkpoint. -/
def secondCheckpoint : FlatMap ℕ (List Entry) := (∅ : FlatMap ℕ (List Entry)).insert 2 (idAt fourBlocks 2)

/-- All blocks are read before the first one is applied. Those up to the checkpoint are applied without any check for
duplicates, the others with it. -/
theorem reindexing_fourBlocks :
    ∃ now s, ReadAhead ℕ fourBlocks secondCheckpoint 1150 { transactionDupeCheck := true } 100 0 4 4 now s :=
  ⟨_, _, .apply (.apply (.apply (.apply (.read (.read (.read (.read .start (by decide) rfl) (by decide) rfl) (by decide) rfl)
    (by decide) rfl) (.inl rfl) (by decide) rfl rfl) (.inl rfl) (by decide) rfl rfl) (.inl rfl) (by decide) rfl rfl)
    (.inl rfl) (by decide) rfl rfl⟩

theorem reindexed_index_fourBlocks :
    ∃ s live : AdmissionState ℕ (List Entry) (ProcessedTransaction ℕ Unit) ℕ,
      (∃ now, ReadAhead ℕ fourBlocks secondCheckpoint 1150 { transactionDupeCheck := true } 100 0 4 4 now s) ∧
        AppliedChain ℕ (fun _ ↦ {}) fourBlocks live ∧ s.transactionIndex = live.transactionIndex ∧
        ∀ r < 2 ^ 16, s.blockSummaries r = live.blockSummaries r := by
  obtain ⟨live, hlive⟩ := applied_fourBlocks
  obtain ⟨now, s, hs⟩ := reindexing_fourBlocks
  have hwindow (objects objects' : ℕ) (h : (.ok objects : Except ChainError ℕ) = .ok objects') : objects' = objects :=
    (Except.ok.inj h).symm
  exact ⟨s, live, ⟨now, hs⟩, hlive, reindexed_index soundIds_fourBlocks hlive (fun _ ↦ rfl) hs (by decide)
    (fun _ _ _ _ h ↦ h.window (fun _ _ _ _ ↦ hwindow _ _) fun _ _ _ _ ↦ hwindow _ _) (by decide) (by decide) (by decide)⟩

end WitnessAdmission

end Playchain
