import Playchain.Blocks.WitnessChain
import Playchain.Spec.BlockMoves

/-!
# The pool over the head block

Between calls the object state is the state of the head block with the pending transactions applied in
order (`Node.Pooled`). During a push of a block this is given up, and it is restored on every exit path:
what was popped and what was pending goes through the queue again (`Requeued`), and a transaction is
dropped only when it fails after those before it.
-/

namespace Playchain

section Transactions

variable {σ τ ρ κ : Type*} [TransactionRules σ τ ρ κ]

/-- Transactions are applied in order, with the results they are recorded with. -/
def Applies : σ → List (ProcessedTransaction τ ρ) → σ → Prop
  | s, [], s' => s' = s
  | s, tx :: rest, s' => ∃ s₁, TransactionRules.applyTransaction s tx.trx = some (s₁, tx.operationResults) ∧
    Applies s₁ rest s'

/-- A queue of transactions is applied; those that fail after the ones before them are dropped. -/
inductive Requeued : σ → List (ProcessedTransaction τ ρ) → List (ProcessedTransaction τ ρ) → σ → Prop
  | nil {s : σ} : Requeued s [] [] s
  | keep {s s₁ s' : σ} {tx : ProcessedTransaction τ ρ} {r : ρ} {rest kept}
    (happly : TransactionRules.applyTransaction s tx.trx = some (s₁, r)) (h : Requeued s₁ rest kept s') :
    Requeued s (tx :: rest) (⟨tx.trx, r⟩ :: kept) s'
  | drop {s s' : σ} {tx : ProcessedTransaction τ ρ} {rest kept}
    (hfail : TransactionRules.applyTransaction s tx.trx = none) (h : Requeued s rest kept s') :
    Requeued s (tx :: rest) kept s'

variable {s s₁ s' : σ} {txs txs' kept kept' : List (ProcessedTransaction τ ρ)}

theorem Applies.append (h : Applies s txs s₁) (h' : Applies s₁ txs' s') : Applies s (txs ++ txs') s' := by
  induction txs generalizing s with
  | nil =>
    obtain rfl : s₁ = s := h
    exact h'
  | cons tx txs ih =>
    obtain ⟨s₂, happly, h⟩ := h
    exact ⟨s₂, happly, ih h⟩

/-- What is kept is applied. -/
theorem Requeued.applies (h : Requeued s txs kept s') : Applies s kept s' := by
  induction h with
  | nil => rfl
  | keep happly _ ih => exact ⟨_, happly, ih⟩
  | drop _ _ ih => exact ih

theorem Requeued.append (h : Requeued s txs kept s₁) (h' : Requeued s₁ txs' kept' s') :
    Requeued s (txs ++ txs') (kept ++ kept') s' := by
  induction h with
  | nil => exact h'
  | keep happly _ ih => exact (ih h').keep happly
  | drop hfail _ ih => exact (ih h').drop hfail

/-- Known transactions stay known. -/
theorem Applies.isKnown_mono [RejectsKnown σ] (h : Applies s txs s') {k : κ}
    (hk : TransactionRules.isKnown s k = true) : TransactionRules.isKnown s' k = true := by
  induction txs generalizing s with
  | nil =>
    obtain rfl : s' = s := h
    exact hk
  | cons tx txs ih =>
    obtain ⟨s₁, happly, h⟩ := h
    exact ih h (RejectsKnown.isKnown_mono happly hk)

/-- **No id twice**: transactions that apply one after the other have different ids, none of which is
known before. -/
theorem Applies.ids [RejectsKnown σ] (h : Applies s txs s') :
    (txs.map fun tx ↦ TransactionRules.txId σ tx.trx).Nodup ∧
      ∀ tx ∈ txs, TransactionRules.isKnown s (TransactionRules.txId σ tx.trx) = false := by
  induction txs generalizing s with
  | nil => exact ⟨List.nodup_nil, fun tx htx ↦ absurd htx List.not_mem_nil⟩
  | cons tx txs ih =>
    obtain ⟨s₁, happly, h⟩ := h
    obtain ⟨hnodup, hunknown⟩ := ih h
    have hknown := RejectsKnown.isKnown_of_applyTransaction happly
    have hfresh : TransactionRules.isKnown s (TransactionRules.txId σ tx.trx) = false := by
      by_contra htrue
      rw [Bool.not_eq_false] at htrue
      rw [RejectsKnown.applyTransaction_of_isKnown htrue] at happly
      cases happly
    refine ⟨?_, fun tx' htx' ↦ ?_⟩
    · rw [List.map_cons, List.nodup_cons]
      refine ⟨fun hmem ↦ ?_, hnodup⟩
      obtain ⟨tx', htx', hid⟩ := List.mem_map.1 hmem
      have hfalse := hunknown tx' htx'
      rw [hid, hknown] at hfalse
      cases hfalse
    · rcases List.mem_cons.1 htx' with rfl | htx'
      · exact hfresh
      · by_contra htrue
        rw [Bool.not_eq_false] at htrue
        have hlater := RejectsKnown.isKnown_mono happly htrue
        rw [hunknown tx' htx'] at hlater
        cases hlater

end Transactions

namespace Node

variable {σ β ι τ ρ κ : Type*} [TransactionRules σ τ ρ κ]
  {n m : Node σ β ι (ProcessedTransaction τ ρ)} {head : σ} {below : List σ} {t : τ}

/-- The pool lies over the state of the head block. -/
structure Pooled (n : Node σ β ι (ProcessedTransaction τ ρ)) (head : σ) (below : List σ) : Prop where
  session : n.pendingSession = true → n.undoStack = head :: below
  noSession : n.pendingSession = false → n.state = head ∧ n.undoStack = below ∧ n.pendingTx = []
  applies : Applies head n.pendingTx n.state
  one_le : 1 ≤ n.undoMaxSize

/-- What transactions do not touch. -/
structure SameChain (n m : Node σ β ι (ProcessedTransaction τ ρ)) : Prop where
  fork : m.fork = n.fork
  blockIds : m.blockIds = n.blockIds
  poppedTx : m.poppedTx = n.poppedTx
  undoMaxSize : m.undoMaxSize = n.undoMaxSize

omit [TransactionRules σ τ ρ κ] in
theorem SameChain.trans {n' : Node σ β ι (ProcessedTransaction τ ρ)} (h : SameChain n m)
    (h' : SameChain m n') : SameChain n n' :=
  ⟨h'.fork.trans h.fork, h'.blockIds.trans h.blockIds, h'.poppedTx.trans h.poppedTx,
    h'.undoMaxSize.trans h.undoMaxSize⟩

/-- A node without pending transactions. -/
theorem Pooled.of_empty (hsession : n.pendingSession = false) (hpending : n.pendingTx = [])
    (hsize : 1 ≤ n.undoMaxSize) : Pooled n n.state n.undoStack := by
  refine ⟨fun h ↦ ?_, fun _ ↦ ⟨rfl, rfl, hpending⟩, ?_, hsize⟩
  · rw [hsession] at h
    cases h
  · rw [hpending]
    rfl

omit [TransactionRules σ τ ρ κ] in
/-- The session that is open lies over the head block, with the oldest records dropped. -/
theorem startSession_undoStack (hstack : n.undoStack = head :: below) (hsize : 1 ≤ n.undoMaxSize) :
    n.startSession.undoStack = n.state :: head :: below.take (n.undoMaxSize - 1) := by
  obtain ⟨k, hk⟩ := Nat.exists_eq_add_of_le hsize
  rw [startSession, hstack, hk, Nat.add_comm, List.take_succ_cons]
  rfl

omit [TransactionRules σ τ ρ κ] in
theorem undoSession_eq {s : σ} {rest : List σ} (hstack : n.undoStack = s :: rest) :
    n.undoSession = { n with state := s, undoStack := rest } := by
  rw [undoSession, popUndo, hstack]
  rfl

theorem Pooled.openPendingSession (h : Pooled n head below) :
    ∃ k, n.openPendingSession.undoStack = head :: below.take k ∧
      n.openPendingSession.state = n.state ∧ n.openPendingSession.pendingSession = true ∧
      n.openPendingSession.pendingTx = n.pendingTx ∧ SameChain n n.openPendingSession := by
  rw [Node.openPendingSession]
  rcases hsession : n.pendingSession with - | -
  · obtain ⟨hstate, hstack, -⟩ := h.noSession hsession
    rw [if_neg Bool.false_ne_true]
    refine ⟨n.undoMaxSize, ?_, rfl, rfl, rfl, ⟨rfl, rfl, rfl, rfl⟩⟩
    rw [startSession, hstate, hstack]
  · rw [if_pos rfl]
    refine ⟨below.length, ?_, rfl, hsession, rfl, ⟨rfl, rfl, rfl, rfl⟩⟩
    rw [List.take_length, h.session hsession]

/-- **A transaction is rejected**: the state and the pool stay. -/
theorem Pooled.pushTransactionImpl_none (h : Pooled n head below)
    (hfail : TransactionRules.applyTransaction n.state t = none) :
    ∃ m k, n.pushTransactionImpl t = .error m ∧ m.state = n.state ∧ m.pendingTx = n.pendingTx ∧
      SameChain n m ∧ Pooled m head (below.take k) := by
  obtain ⟨k, hstack, hstate, hsession, hpending, hsame⟩ := h.openPendingSession
  obtain ⟨m₁, hm₁⟩ : ∃ m₁, m₁ = n.openPendingSession := ⟨_, rfl⟩
  rw [← hm₁] at hstack hstate hsession hpending hsame
  have hsize : 1 ≤ m₁.undoMaxSize := hsame.undoMaxSize ▸ h.one_le
  have hstart := startSession_undoStack hstack hsize
  have hstate' : m₁.startSession.state = n.state := hstate
  refine ⟨m₁.startSession.undoSession, min (m₁.undoMaxSize - 1) k, ?_, ?_, ?_, ?_, ?_⟩
  · rw [pushTransactionImpl, ← hm₁]
    dsimp only
    rw [hstate', hfail]
  · rw [undoSession_eq hstart, hstate]
  · rw [undoSession_eq hstart]
    exact hpending
  · rw [undoSession_eq hstart]
    exact ⟨hsame.fork, hsame.blockIds, hsame.poppedTx, hsame.undoMaxSize⟩
  · rw [undoSession_eq hstart]
    refine ⟨fun _ ↦ ?_, fun hfalse ↦ ?_, ?_, hsize⟩
    · rw [List.take_take]
    · cases hsession.symm.trans hfalse
    · have happlies := h.applies
      rw [← hpending, ← hstate] at happlies
      exact happlies

/-- **A transaction is accepted**: it is the last one of the pool. -/
theorem Pooled.pushTransactionImpl_some (h : Pooled n head below) {s' : σ} {r : ρ}
    (happly : TransactionRules.applyTransaction n.state t = some (s', r)) :
    ∃ m k, n.pushTransactionImpl t = .ok m ∧ m.state = s' ∧ m.pendingTx = n.pendingTx ++ [⟨t, r⟩] ∧
      SameChain n m ∧ Pooled m head (below.take k) := by
  obtain ⟨k, hstack, hstate, hsession, hpending, hsame⟩ := h.openPendingSession
  obtain ⟨m₁, hm₁⟩ : ∃ m₁, m₁ = n.openPendingSession := ⟨_, rfl⟩
  rw [← hm₁] at hstack hstate hsession hpending hsame
  have hsize : 1 ≤ m₁.undoMaxSize := hsame.undoMaxSize ▸ h.one_le
  have hstart := startSession_undoStack hstack hsize
  have hstate' : m₁.startSession.state = n.state := hstate
  have happlies : Applies head (n.pendingTx ++ [⟨t, r⟩]) s' := h.applies.append ⟨s', happly, rfl⟩
  refine ⟨{ m₁.startSession.mergeSession with
    state := s', pendingTx := m₁.startSession.pendingTx ++ [⟨t, r⟩] }, min (m₁.undoMaxSize - 1) k,
    ?_, rfl, ?_, ⟨hsame.fork, hsame.blockIds, hsame.poppedTx, hsame.undoMaxSize⟩, ⟨fun _ ↦ ?_, fun hfalse ↦ ?_, ?_, hsize⟩⟩
  · rw [pushTransactionImpl, ← hm₁]
    dsimp only
    rw [hstate', happly]
  · exact congrArg (· ++ [⟨t, r⟩]) hpending
  · rw [mergeSession, hstart, List.tail_cons, List.take_take]
  · cases hsession.symm.trans hfalse
  · have hpending' : m₁.startSession.pendingTx = n.pendingTx := hpending
    rw [hpending']
    exact happlies

/-- One transaction of a queue: it is known, or it is pushed. -/
theorem requeue_cons (n : Node σ β ι (ProcessedTransaction τ ρ)) (tx : ProcessedTransaction τ ρ)
    (txs : List (ProcessedTransaction τ ρ)) :
    n.requeue (tx :: txs) =
      (if TransactionRules.isKnown n.state (TransactionRules.txId σ tx.trx) then n
        else
          match n.pushTransactionImpl tx.trx with
          | .ok n => n
          | .error n => n).requeue txs :=
  rfl

/-- Whatever is pushed again, the pool lies over the head block. -/
theorem Pooled.requeue_pooled (h : Pooled n head below) (txs : List (ProcessedTransaction τ ρ)) :
    ∃ k, Pooled (n.requeue txs) head (below.take k) ∧ SameChain n (n.requeue txs) := by
  induction txs generalizing n below with
  | nil =>
    refine ⟨below.length, ?_, ⟨rfl, rfl, rfl, rfl⟩⟩
    rw [List.take_length]
    exact h
  | cons tx txs ih =>
    rw [requeue_cons]
    split_ifs
    · exact ih h
    · rcases happly : TransactionRules.applyTransaction n.state tx.trx with - | ⟨s', r⟩
      · obtain ⟨m, j, hm, -, -, hsame, hpooled⟩ := h.pushTransactionImpl_none happly
        rw [hm]
        obtain ⟨k, hpooled', hsame'⟩ := ih hpooled
        rw [List.take_take] at hpooled'
        exact ⟨min k j, hpooled', hsame.trans hsame'⟩
      · obtain ⟨m, j, hm, -, -, hsame, hpooled⟩ := h.pushTransactionImpl_some happly
        rw [hm]
        obtain ⟨k, hpooled', hsame'⟩ := ih hpooled
        rw [List.take_take] at hpooled'
        exact ⟨min k j, hpooled', hsame.trans hsame'⟩

/-- **The queue**: transactions are pushed again. -/
theorem Pooled.requeue [RejectsKnown σ] (h : Pooled n head below) (txs : List (ProcessedTransaction τ ρ)) :
    ∃ k kept, Pooled (n.requeue txs) head (below.take k) ∧ SameChain n (n.requeue txs) ∧
      (n.requeue txs).pendingTx = n.pendingTx ++ kept ∧ Requeued n.state txs kept (n.requeue txs).state := by
  induction txs generalizing n below with
  | nil =>
    refine ⟨below.length, [], ?_, ⟨rfl, rfl, rfl, rfl⟩, (List.append_nil _).symm, .nil⟩
    rw [List.take_length]
    exact h
  | cons tx txs ih =>
    rw [requeue_cons]
    by_cases hknown : TransactionRules.isKnown n.state (TransactionRules.txId σ tx.trx) = true
    -- the check for known transactions says no more than the failure of the transaction
    · rw [if_pos hknown]
      obtain ⟨k, kept, hpooled, hsame, hpending, hqueue⟩ := ih h
      exact ⟨k, kept, hpooled, hsame, hpending,
        hqueue.drop (RejectsKnown.applyTransaction_of_isKnown hknown)⟩
    · rw [if_neg hknown]
      rcases happly : TransactionRules.applyTransaction n.state tx.trx with - | ⟨s', r⟩
      · obtain ⟨m, j, hm, hstate, hpending, hsame, hpooled⟩ := h.pushTransactionImpl_none happly
        rw [hm]
        obtain ⟨k, kept, hpooled', hsame', hpending', hqueue⟩ := ih hpooled
        rw [List.take_take] at hpooled'
        refine ⟨min k j, kept, hpooled', hsame.trans hsame', by rw [hpending', hpending], ?_⟩
        rw [hstate] at hqueue
        exact hqueue.drop happly
      · obtain ⟨m, j, hm, hstate, hpending, hsame, hpooled⟩ := h.pushTransactionImpl_some happly
        rw [hm]
        obtain ⟨k, kept, hpooled', hsame', hpending', hqueue⟩ := ih hpooled
        rw [List.take_take] at hpooled'
        refine ⟨min k j, ⟨tx.trx, r⟩ :: kept, hpooled', hsame.trans hsame', ?_, ?_⟩
        · rw [hpending', hpending, List.append_assoc, List.singleton_append]
        · rw [hstate] at hqueue
          exact hqueue.keep happly

/-- The state of the head block. -/
def headState (n : Node σ β ι (ProcessedTransaction τ ρ)) : σ := n.clearPending.state

omit [TransactionRules σ τ ρ κ] in
theorem clearPending_of_false (h : n.pendingSession = false) :
    n.clearPending = { n with pendingTx := [] } := by
  rw [clearPending, resetPendingSession, if_neg]
  exact h ▸ Bool.false_ne_true

omit [TransactionRules σ τ ρ κ] in
theorem clearPending_of_true (h : n.pendingSession = true) :
    n.clearPending = { n.undoSession with pendingTx := [], pendingSession := false } := by
  rw [clearPending, resetPendingSession, if_pos h]
  obtain ⟨state, undoStack, undoMaxSize, fork, blockIds, pendingTx, pendingSession, poppedTx⟩ := n
  cases undoStack <;> rfl

omit [TransactionRules σ τ ρ κ] in
theorem clearPending_pool (n : Node σ β ι (ProcessedTransaction τ ρ)) :
    n.clearPending.pendingSession = false ∧ n.clearPending.pendingTx = [] ∧
      SameChain n n.clearPending := by
  rcases hsession : n.pendingSession with - | -
  · rw [clearPending_of_false hsession]
    exact ⟨hsession, rfl, ⟨rfl, rfl, rfl, rfl⟩⟩
  · rw [clearPending_of_true hsession, undoSession, popUndo]
    refine ⟨rfl, rfl, ?_⟩
    cases n.undoStack <;> exact ⟨rfl, rfl, rfl, rfl⟩

/-- The pool is taken off the head block. -/
theorem Pooled.clearPending (h : Pooled n head below) :
    n.clearPending.state = head ∧ n.clearPending.undoStack = below := by
  rcases hsession : n.pendingSession with - | -
  · obtain ⟨hstate, hstack, -⟩ := h.noSession hsession
    rw [clearPending_of_false hsession]
    exact ⟨hstate, hstack⟩
  · rw [clearPending_of_true hsession, undoSession_eq (h.session hsession)]
    exact ⟨rfl, rfl⟩

/-! ### Blocks -/

/-- What was popped and what was pending goes through the queue. -/
theorem restorePending_pooled [RejectsKnown σ] (hsession : m.pendingSession = false) (hpending : m.pendingTx = [])
    (hsize : 1 ≤ m.undoMaxSize) (txs : List (ProcessedTransaction τ ρ)) :
    ∃ k, Pooled (m.restorePending txs) m.state (m.undoStack.take k) ∧
      Requeued m.state (m.poppedTx ++ txs) (m.restorePending txs).pendingTx (m.restorePending txs).state ∧
      (m.restorePending txs).poppedTx = [] ∧ (m.restorePending txs).fork = m.fork ∧
      (m.restorePending txs).blockIds = m.blockIds ∧
      (m.restorePending txs).undoMaxSize = m.undoMaxSize := by
  obtain ⟨j, kept, hpooled, hsame, hkept, hqueue⟩ :=
    (Pooled.of_empty hsession hpending hsize).requeue m.poppedTx
  obtain ⟨m₁, hm₁⟩ : ∃ m₁, m₁ = m.requeue m.poppedTx := ⟨_, rfl⟩
  rw [← hm₁] at hpooled hsame hkept hqueue
  have hpooled' : Pooled { m₁ with poppedTx := [] } m.state (m.undoStack.take j) :=
    ⟨hpooled.session, hpooled.noSession, hpooled.applies, hpooled.one_le⟩
  obtain ⟨k, kept', hpooled₂, hsame₂, hkept₂, hqueue₂⟩ := hpooled'.requeue txs
  have hrestore : m.restorePending txs = Node.requeue { m₁ with poppedTx := [] } txs := by
    rw [restorePending, hm₁]
  rw [← hrestore] at hpooled₂ hsame₂ hkept₂ hqueue₂
  rw [List.take_take] at hpooled₂
  refine ⟨min k j, hpooled₂, ?_, hsame₂.poppedTx, hsame₂.fork.trans hsame.fork,
    hsame₂.blockIds.trans hsame.blockIds, hsame₂.undoMaxSize.trans hsame.undoMaxSize⟩
  rw [hkept₂]
  dsimp only
  rw [hkept, hpending, List.nil_append]
  exact hqueue.append hqueue₂

/-- The session of the assembly lies over the head block. The transactions that are chosen apply one
after the other, and their sizes stay below the maximum. -/
theorem assemble_spec {maximum total : ℕ} {txs included : List (ProcessedTransaction τ ρ)}
    (hstack : n.undoStack = head :: below) (hsize : 1 ≤ n.undoMaxSize)
    (hm : (assemble maximum txs total included n).2 = m) :
    (∃ k, m.undoStack = head :: below.take k) ∧ m.pendingSession = n.pendingSession ∧
      m.pendingTx = n.pendingTx ∧ SameChain n m ∧
      ∃ new, (assemble maximum txs total included n).1 = included ++ new ∧ Applies n.state new m.state ∧
        total + (new.map (TransactionRules.packSize σ)).sum ≤ max total maximum := by
  induction txs generalizing n total included below with
  | nil =>
    obtain rfl : n = m := hm
    refine ⟨⟨below.length, ?_⟩, rfl, rfl, ⟨rfl, rfl, rfl, rfl⟩, [], ?_, rfl, le_max_left _ _⟩
    · rw [List.take_length, hstack]
    · exact (List.append_nil _).symm
  | cons tx txs ih =>
    have hstart := startSession_undoStack hstack hsize
    have hundo := undoSession_eq hstart
    -- the transaction is not taken, and its session is undone
    have hskip : assemble maximum (tx :: txs) total included n =
        assemble maximum txs total included n.startSession.undoSession →
        (∃ k, m.undoStack = head :: below.take k) ∧ m.pendingSession = n.pendingSession ∧
        m.pendingTx = n.pendingTx ∧ SameChain n m ∧
        ∃ new, (assemble maximum (tx :: txs) total included n).1 = included ++ new ∧
          Applies n.state new m.state ∧
          total + (new.map (TransactionRules.packSize σ)).sum ≤ max total maximum := by
      intro heq
      rw [heq] at hm ⊢
      obtain ⟨n₁, hn₁⟩ : ∃ n₁, n₁ = n.startSession.undoSession := ⟨_, rfl⟩
      rw [← hn₁] at hm hundo ⊢
      have hstack₁ : n₁.undoStack = head :: below.take (n.undoMaxSize - 1) := by rw [hundo]
      have hsize₁ : 1 ≤ n₁.undoMaxSize := by rw [hundo]; exact hsize
      have hsame₁ : SameChain n n₁ := by rw [hundo]; exact ⟨rfl, rfl, rfl, rfl⟩
      have hstate₁ : n₁.state = n.state := by rw [hundo]
      obtain ⟨⟨k, hk⟩, hsession, hpending, hsame, hnew⟩ := ih hstack₁ hsize₁ hm
      rw [hundo] at hsession hpending
      rw [hstate₁] at hnew
      exact ⟨⟨_, by rw [hk, List.take_take]⟩, hsession, hpending, hsame₁.trans hsame, hnew⟩
    have happly : n.startSession.state = n.state := rfl
    by_cases hbig : maximum < total + TransactionRules.packSize σ tx
    · rw [assemble, if_pos hbig] at hm ⊢
      exact ih hstack hsize hm
    rcases hresult : TransactionRules.applyTransaction n.state tx.trx with - | ⟨s', r⟩
    · refine hskip ?_
      rw [assemble, if_neg hbig]
      dsimp only
      rw [happly, hresult]
    · by_cases hbig' : maximum < total +
          TransactionRules.packSize σ (⟨tx.trx, r⟩ : ProcessedTransaction τ ρ)
      · refine hskip ?_
        rw [assemble, if_neg hbig]
        dsimp only
        rw [happly, hresult]
        dsimp only
        rw [if_pos hbig']
      · have hcons : assemble maximum (tx :: txs) total included n = assemble maximum txs
            (total + TransactionRules.packSize σ (⟨tx.trx, r⟩ : ProcessedTransaction τ ρ))
            (included ++ [⟨tx.trx, r⟩]) { n.startSession.mergeSession with state := s' } := by
          rw [assemble, if_neg hbig]
          dsimp only
          rw [happly, hresult]
          dsimp only
          rw [if_neg hbig']
        obtain ⟨n₁, hn₁⟩ : ∃ n₁ : Node σ β ι (ProcessedTransaction τ ρ),
            n₁ = { n.startSession.mergeSession with state := s' } := ⟨_, rfl⟩
        rw [← hn₁] at hcons
        have hstack₁ : n₁.undoStack = head :: below.take (n.undoMaxSize - 1) := by
          rw [hn₁, mergeSession, hstart]
          rfl
        have hsize₁ : 1 ≤ n₁.undoMaxSize := by rw [hn₁]; exact hsize
        have hsame₁ : SameChain n n₁ := by rw [hn₁]; exact ⟨rfl, rfl, rfl, rfl⟩
        have hstate₁ : n₁.state = s' := by rw [hn₁]
        rw [hcons] at hm ⊢
        obtain ⟨⟨k, hk⟩, hsession, hpending, hsame, new, hnew, happlies, hsum⟩ := ih hstack₁ hsize₁ hm
        rw [hn₁] at hsession hpending
        rw [hstate₁] at happlies
        refine ⟨⟨_, by rw [hk, List.take_take]⟩, hsession, hpending, hsame₁.trans hsame,
          ⟨tx.trx, r⟩ :: new, ?_, ⟨s', hresult, happlies⟩, ?_⟩
        · rw [hnew, List.append_assoc, List.singleton_append]
        · rw [List.map_cons, List.sum_cons]
          omega

/-- The block is assembled in a session over the head block. -/
theorem assembled_spec (hsize : 1 ≤ n.undoMaxSize) (g : Generation σ β τ ρ)
    (hm : (n.assembled g).2 = m) :
    (∃ k, m.resetPendingSession = { m with
      state := n.state
      undoStack := n.undoStack.take k
      pendingSession := false }) ∧
      m.pendingTx = n.pendingTx ∧ SameChain n m ∧ Applies n.state (n.assembled g).1 m.state ∧
      g.maxBlockHeaderSize + ((n.assembled g).1.map (TransactionRules.packSize σ)).sum ≤
        max g.maxBlockHeaderSize (g.maximumBlockSize n.state) := by
  rw [assembled] at hm ⊢
  obtain ⟨n₁, hn₁⟩ : ∃ n₁ : Node σ β ι (ProcessedTransaction τ ρ),
      n₁ = { n.startSession with pendingSession := true } := ⟨_, rfl⟩
  have hsize₁ : 1 ≤ n₁.undoMaxSize := by rw [hn₁]; exact hsize
  have hstack₁ : n₁.undoStack = n.state :: n.undoStack.take n.undoMaxSize := by rw [hn₁]; rfl
  have hsame₁ : SameChain n n₁ := by rw [hn₁]; exact ⟨rfl, rfl, rfl, rfl⟩
  have hstate₁ : n₁.state = n.state := by rw [hn₁]; rfl
  rw [← hn₁] at hm ⊢
  obtain ⟨⟨k, hk⟩, hsession, hpending, hsame, new, hnew, happlies, hsum⟩ :=
    assemble_spec hstack₁ hsize₁ hm
  rw [hn₁] at hsession hpending
  rw [hnew, List.nil_append, ← hstate₁]
  refine ⟨⟨min k n.undoMaxSize, ?_⟩, hpending, hsame₁.trans hsame, happlies, hstate₁ ▸ hsum⟩
  rw [resetPendingSession, if_pos hsession, undoSession_eq hk, List.take_take, hstate₁]

omit [TransactionRules σ τ ρ κ] in
theorem resetPendingSession_pool (n : Node σ β ι (ProcessedTransaction τ ρ)) :
    n.clearPending = { n.resetPendingSession with pendingTx := [] } ∧
      n.resetPendingSession.pendingTx = n.pendingTx ∧ SameChain n n.resetPendingSession := by
  rcases hsession : n.pendingSession with - | -
  · rw [clearPending_of_false hsession, resetPendingSession, if_neg (hsession ▸ Bool.false_ne_true)]
    exact ⟨rfl, rfl, rfl, rfl, rfl, rfl⟩
  · rw [clearPending_of_true hsession, resetPendingSession, if_pos hsession, undoSession, popUndo]
    cases n.undoStack <;> exact ⟨rfl, rfl, rfl, rfl, rfl, rfl⟩

/-- **The block that is made** lies over the head block, and the list of pending transactions is not
touched before the block is pushed. -/
theorem makeBlock_spec (hsize : 1 ≤ n.undoMaxSize) {g : Generation σ β τ ρ} {b : β}
    (hmake : n.makeBlock g = some (b, m)) :
    g.scheduled n.state = true ∧ b = g.block n.headState (n.resetPendingSession.assembled g).1 ∧
      m.pendingTx = n.pendingTx ∧ m.pendingSession = false ∧ m.state = n.headState ∧
      (∃ k, m.undoStack = n.clearPending.undoStack.take k) ∧ SameChain n m := by
  rw [Node.makeBlock] at hmake
  split_ifs at hmake with hscheduled
  dsimp only at hmake
  split_ifs at hmake with hsigns
  obtain ⟨hclear, hpending, hsame⟩ := resetPendingSession_pool n
  have hstate : n.headState = n.resetPendingSession.state := by rw [headState, hclear]
  have hstack : n.clearPending.undoStack = n.resetPendingSession.undoStack := by rw [hclear]
  obtain ⟨m₁, hm₁⟩ : ∃ m₁, (n.resetPendingSession.assembled g).2 = m₁ := ⟨_, rfl⟩
  obtain ⟨⟨k, hreset⟩, hpending₁, hsame₁, -⟩ := assembled_spec (hsame.undoMaxSize ▸ hsize) g hm₁
  rw [hm₁, hreset] at hmake
  obtain ⟨rfl, rfl⟩ := Prod.mk.inj (Option.some.inj hmake)
  refine ⟨hscheduled, by rw [hstate], hpending₁.trans hpending, rfl, hstate.symm, ⟨k, by rw [hstack]⟩,
    ?_⟩
  obtain ⟨hfork, hids, hpopped, hmax⟩ := hsame.trans hsame₁
  exact ⟨hfork, hids, hpopped, hmax⟩

/-! ### Runs -/

/-- What a node is called for. -/
inductive Event (σ β τ ρ : Type*)
  | transaction (t : τ)
  | block (b : β)
  | generate (g : Generation σ β τ ρ)

variable [Blocks β ι (ProcessedTransaction τ ρ)] [ChainRules σ β ι (ProcessedTransaction τ ρ)]
  {n₀ n' : Node σ β ι (ProcessedTransaction τ ρ)} {b : β}

/-- The node after a call; a call of `generate_block` has to succeed. -/
def next [DecidableEq ι] (n : Node σ β ι (ProcessedTransaction τ ρ)) :
    Event σ β τ ρ → Option (Node σ β ι (ProcessedTransaction τ ρ))
  | .transaction t => some (left (n.pushTransaction t))
  | .block b => some (pushLeft (n.pushBlock b))
  | .generate g => (n.generateBlock g).map Prod.snd

/-- The nodes that calls lead to. -/
inductive Reachable [DecidableEq ι] (n₀ : Node σ β ι (ProcessedTransaction τ ρ)) :
    Node σ β ι (ProcessedTransaction τ ρ) → Prop
  | refl : Reachable n₀ n₀
  | step {n n' : Node σ β ι (ProcessedTransaction τ ρ)} {e : Event σ β τ ρ} (h : Reachable n₀ n)
    (he : n.next e = some n') : Reachable n₀ n'

/-- Blocks are pushed one after the other, accepted or not. -/
def pushAll [DecidableEq ι] (n : Node σ β ι (ProcessedTransaction τ ρ)) (bs : List β) :
    Node σ β ι (ProcessedTransaction τ ρ) :=
  bs.foldl (fun n b ↦ pushLeft (n.pushBlock b)) n

theorem Reachable.pushAll [DecidableEq ι] (h : Reachable n₀ n) (bs : List β) :
    Reachable n₀ (n.pushAll bs) := by
  induction bs generalizing n with
  | nil => exact h
  | cons b bs ih => exact ih (.step (e := .block b) h rfl)

/-- The invariant between calls. -/
structure Regular (s₀ : σ) (n : Node σ β ι (ProcessedTransaction τ ρ)) : Prop where
  pooled : Pooled n n.headState n.clearPending.undoStack
  traced : n.clearPending.Traced
  reached : n.clearPending.ReachedFrom s₀
  tied : n.fork.Tied
  poppedTx : n.poppedTx = []

/-- The pool over the state of the head block is restored after a push of a block. -/
def Restored (n n' : Node σ β ι (ProcessedTransaction τ ρ)) : Prop :=
  ∃ popped, Requeued n'.headState (popped ++ n.pendingTx) n'.pendingTx n'.state ∧
    ∀ b : β, Ancestor β (ChainRules.headId n.headState) (Blocks.id b) →
      Ancestor β (ChainRules.headId n'.headState) (Blocks.id b) ∨ Blocks.transactions b ⊆ popped

theorem Started.regular (h : n.Started) : n.Regular n.state := by
  have hclear := clearPending_of_false h.pendingSession
  have hstate : n.headState = n.state := by rw [headState, hclear]
  have hstack : n.clearPending.undoStack = [] := by rw [hclear, ← h.undoStack]
  refine ⟨?_, ⟨n.state, [], ?_⟩, fun s hs ↦ ?_, h.linked.tied, h.poppedTx⟩
  · rw [hstate, hstack, ← h.undoStack]
    exact .of_empty h.pendingSession h.pendingTx h.undoMaxSize
  · rw [hstack, ← headState, hstate]
    exact .nil
  · rw [hstack, ← headState, hstate, List.mem_singleton] at hs
    exact hs ▸ ⟨[], [], .nil⟩

/-- The oldest records may be dropped. -/
theorem Regular.of_take {s₀ : σ} {k : ℕ} (h : n.Regular s₀)
    (hpooled : Pooled m n.headState (n.clearPending.undoStack.take k)) (hsame : SameChain n m) :
    m.Regular s₀ ∧ m.headState = n.headState ∧
      m.clearPending.undoStack = n.clearPending.undoStack.take k := by
  obtain ⟨hstate, hstack⟩ := hpooled.clearPending
  refine ⟨⟨?_, ?_, fun s hs ↦ ?_, hsame.fork ▸ h.tied, hsame.poppedTx.trans h.poppedTx⟩, hstate, hstack⟩
  · rw [hstack, headState, hstate]
    exact hpooled
  · rw [Traced, hstate, hstack]
    exact h.traced.take k
  · rw [hstate, hstack] at hs
    rcases List.mem_cons.1 hs with rfl | hs
    · exact h.reached _ List.mem_cons_self
    · exact h.reached s (List.mem_cons_of_mem _ (List.mem_of_mem_take hs))

/-- **A rejected transaction** leaves the state, the pool, the head block and the fork database. -/
theorem Regular.pushTransaction_error {s₀ : σ} (h : n.Regular s₀) (hpush : n.pushTransaction t = .error m) :
    m.state = n.state ∧ m.pendingTx = n.pendingTx ∧ SameChain n m ∧ m.Regular s₀ ∧
      m.headState = n.headState ∧ ∃ k, m.clearPending.undoStack = n.clearPending.undoStack.take k := by
  rw [pushTransaction] at hpush
  split_ifs at hpush with hsmall
  · rcases happly : TransactionRules.applyTransaction n.state t with - | ⟨s', r⟩
    · obtain ⟨m', k, hm', hstate, hpending, hsame, hpooled⟩ := h.pooled.pushTransactionImpl_none happly
      obtain rfl : m' = m := Except.error.inj (hm'.symm.trans hpush)
      obtain ⟨hregular, hhead, hstack⟩ := h.of_take hpooled hsame
      exact ⟨hstate, hpending, hsame, hregular, hhead, k, hstack⟩
    · obtain ⟨m', k, hm', -⟩ := h.pooled.pushTransactionImpl_some happly
      cases hm'.symm.trans hpush
  · obtain rfl : n = m := Except.error.inj hpush
    exact ⟨rfl, rfl, ⟨rfl, rfl, rfl, rfl⟩, h, rfl, n.clearPending.undoStack.length,
      List.take_length.symm⟩

theorem Regular.pushTransaction_ok {s₀ : σ} (h : n.Regular s₀) (hpush : n.pushTransaction t = .ok m) :
    m.Regular s₀ := by
  rw [pushTransaction] at hpush
  split_ifs at hpush with hsmall
  rcases happly : TransactionRules.applyTransaction n.state t with - | ⟨s', r⟩
  · obtain ⟨m', k, hm', -⟩ := h.pooled.pushTransactionImpl_none happly
    cases hm'.symm.trans hpush
  · obtain ⟨m', k, hm', -, -, hsame, hpooled⟩ := h.pooled.pushTransactionImpl_some happly
    obtain rfl : m' = m := Except.ok.inj (hm'.symm.trans hpush)
    exact (h.of_take hpooled hsame).1

section PushBlock

variable [DecidableEq ι]

/-- What a push of a block leaves below the pool: the node of `_push_block`, with the oldest undo records
dropped. -/
theorem pushBlock_below (hsession : m.pendingSession = false) (hpending : m.pendingTx = [])
    (hsize : 1 ≤ m.undoMaxSize) (hm : pushLeft (n.clearPending.pushBlockImpl b) = m)
    (hn' : pushLeft (n.pushBlock b) = n') :
    n'.headState = m.state ∧ (∃ k, n'.clearPending.undoStack = m.undoStack.take k) ∧
      n'.clearPending.fork = m.fork ∧ n'.clearPending.blockIds = m.blockIds ∧
      n'.clearPending.undoMaxSize = m.undoMaxSize := by
  obtain ⟨j, hpooled, hsame⟩ := (Pooled.of_empty hsession hpending hsize).requeue_pooled m.poppedTx
  obtain ⟨m₁, hm₁⟩ : ∃ m₁, m₁ = m.requeue m.poppedTx := ⟨_, rfl⟩
  rw [← hm₁] at hpooled hsame
  have hpooled' : Pooled { m₁ with poppedTx := [] } m.state (m.undoStack.take j) :=
    ⟨hpooled.session, hpooled.noSession, hpooled.applies, hpooled.one_le⟩
  obtain ⟨k, hpooled₂, hsame₂⟩ := hpooled'.requeue_pooled n.pendingTx
  have hresult : Node.requeue { m₁ with poppedTx := [] } n.pendingTx = n' := by
    rw [← hn', pushBlock]
    rcases hpush : n.clearPending.pushBlockImpl b with ⟨e, m'⟩ | m'
    all_goals
      rw [hpush] at hm
      obtain rfl : m' = m := hm
      rw [hm₁]
      rfl
  rw [hresult] at hpooled₂ hsame₂
  obtain ⟨hstate, hstack⟩ := hpooled₂.clearPending
  obtain ⟨-, -, hclear⟩ := clearPending_pool n'
  rw [List.take_take] at hstack
  exact ⟨hstate, ⟨_, hstack⟩, hclear.fork.trans (hsame₂.fork.trans hsame.fork),
    hclear.blockIds.trans (hsame₂.blockIds.trans hsame.blockIds),
    hclear.undoMaxSize.trans (hsame₂.undoMaxSize.trans hsame.undoMaxSize)⟩

end PushBlock

variable [RejectsKnown σ] [DecidableEq ι]

/-- **A push of a block**, accepted or not, restores the pool. -/
theorem pushBlock_restored {s₀ : σ} (hsize : 1 ≤ n.undoMaxSize) (htied : n.fork.Tied)
    (htraced : n.clearPending.Traced) (hreached : n.clearPending.ReachedFrom s₀)
    (hn' : pushLeft (n.pushBlock b) = n') : n'.Regular s₀ ∧ Restored n n' := by
  obtain ⟨hsession, hpending, hsame⟩ := clearPending_pool n
  obtain ⟨m, hm⟩ : ∃ m, pushLeft (n.clearPending.pushBlockImpl b) = m := ⟨_, rfl⟩
  obtain ⟨hsession', hpending', htied', hsize', -, htraced', hreached', hpopped⟩ :=
    pushBlockImpl_kept hsession (hsame.fork ▸ htied) (hsame.undoMaxSize ▸ hsize) htraced b m hm
  obtain ⟨k, hpooled, hqueue, hnone, hfork, -, -⟩ :=
    restorePending_pooled hsession' (hpending'.trans hpending) hsize' n.pendingTx
  have hresult : m.restorePending n.pendingTx = n' := by
    rw [← hn', ← hm, pushBlock]
    rcases n.clearPending.pushBlockImpl b with ⟨e, m'⟩ | m' <;> rfl
  rw [hresult] at hpooled hqueue hnone hfork
  obtain ⟨hstate, hstack⟩ := hpooled.clearPending
  refine ⟨⟨?_, ?_, fun s hs ↦ ?_, hfork ▸ htied', hnone⟩, m.poppedTx, ?_, fun b' hb' ↦ ?_⟩
  · rw [hstack, headState, hstate]
    exact hpooled
  · rw [Traced, hstate, hstack]
    exact htraced'.take k
  · rw [hstate, hstack] at hs
    rcases List.mem_cons.1 hs with rfl | hs
    · exact hreached' s₀ hreached _ List.mem_cons_self
    · exact hreached' s₀ hreached s (List.mem_cons_of_mem _ (List.mem_of_mem_take hs))
  · rw [headState, hstate]
    exact hqueue
  · rw [headState, hstate]
    exact hpopped b' hb'

/-- **A block that is made and pushed** restores the pool. -/
theorem Regular.generateBlock {s₀ : σ} (h : n.Regular s₀) {g : Generation σ β τ ρ}
    (hgenerate : n.generateBlock g = some (b, n')) : n'.Regular s₀ ∧ Restored n n' := by
  rw [Node.generateBlock] at hgenerate
  rcases hmake : n.makeBlock g with - | ⟨b', m⟩
  · rw [hmake] at hgenerate
    cases hgenerate
  rw [hmake] at hgenerate
  dsimp only at hgenerate
  rcases hpush : m.pushBlock b' with e | m'
  · rw [hpush] at hgenerate
    cases hgenerate
  rw [hpush] at hgenerate
  obtain ⟨rfl, rfl⟩ := Prod.mk.inj (Option.some.inj hgenerate)
  obtain ⟨-, -, hpending, hsession, hstate, ⟨k, hstack⟩, hsame⟩ := makeBlock_spec h.pooled.one_le hmake
  have hclear := clearPending_of_false hsession
  have hhead : m.headState = n.headState := by rw [headState, hclear, hstate]
  have htraced : m.clearPending.Traced := by
    rw [hclear, Traced]
    dsimp only
    rw [hstate, hstack]
    exact h.traced.take k
  have hreached : m.clearPending.ReachedFrom s₀ := by
    intro s hs
    rw [hclear] at hs
    dsimp only at hs
    rw [hstate, hstack] at hs
    rcases List.mem_cons.1 hs with rfl | hs
    · exact h.reached _ List.mem_cons_self
    · exact h.reached s (List.mem_cons_of_mem _ (List.mem_of_mem_take hs))
  have hleft : pushLeft (m.pushBlock b') = m' := by rw [hpush]; rfl
  obtain ⟨hregular, popped, hqueue, hlost⟩ := pushBlock_restored
    (hsame.undoMaxSize ▸ h.pooled.one_le) (hsame.fork ▸ h.tied) htraced hreached hleft
  rw [hpending] at hqueue
  rw [hhead] at hlost
  exact ⟨hregular, popped, hqueue, hlost⟩

theorem Regular.pushBlock {s₀ : σ} (h : n.Regular s₀) (hn' : pushLeft (n.pushBlock b) = n') :
    n'.Regular s₀ ∧ Restored n n' :=
  pushBlock_restored h.pooled.one_le h.tied h.traced h.reached hn'

/-- **Every run keeps the pool regular.** -/
theorem Reachable.regular (h₀ : n₀.Started) (h : Reachable n₀ n) : n.Regular n₀.state := by
  induction h with
  | refl => exact h₀.regular
  | @step n n' e h he ih =>
    cases e with
    | transaction t =>
      rcases hpush : n.pushTransaction t with m | m
      · rw [next, hpush] at he
        obtain rfl := Option.some.inj he
        exact (ih.pushTransaction_error hpush).2.2.2.1
      · rw [next, hpush] at he
        obtain rfl := Option.some.inj he
        exact ih.pushTransaction_ok hpush
    | block b => exact (ih.pushBlock (Option.some.inj he)).1
    | generate g =>
      obtain ⟨⟨b, m⟩, hgenerate, rfl⟩ := Option.map_eq_some_iff.1 he
      exact (ih.generateBlock hgenerate).1

/-- The state of the head block is reached by blocks. -/
theorem Reachable.exists_replay (h₀ : n₀.Started) (h : Reachable n₀ n) :
    ∃ trail bs, Replay n₀.state n.headState trail (bs : List β) :=
  (h.regular h₀).reached _ List.mem_cons_self

/-- **Pending transactions are neither lost nor duplicated.** After every run of calls the state is the
one of the head block, which is reached by blocks, with the pending transactions applied in order; no
transaction is pending twice or known to the head block; a rejected transaction leaves the state, the
pool, the head block and the fork database, and of the undo records all but the oldest; and after a push
of a block or a block that is made, what was popped and what was pending is dropped only if it fails
after the transactions before it. -/
theorem pool_restored (h₀ : n₀.Started) (h : Reachable n₀ n) :
    (∃ trail bs, Replay n₀.state n.headState trail (bs : List β)) ∧
      Applies n.headState n.pendingTx n.state ∧
      (n.pendingTx.map fun tx ↦ TransactionRules.txId σ tx.trx).Nodup ∧
      (∀ tx ∈ n.pendingTx,
        TransactionRules.isKnown n.headState (TransactionRules.txId σ tx.trx) = false) ∧
      (∀ t m, n.pushTransaction t = .error m → m.state = n.state ∧ m.pendingTx = n.pendingTx ∧
        m.headState = n.headState ∧ SameChain n m ∧
        ∃ k, m.clearPending.undoStack = n.clearPending.undoStack.take k) ∧
      (∀ b, Restored n (pushLeft (n.pushBlock b))) ∧
      ∀ g b n', n.generateBlock g = some (b, n') → Restored n n' := by
  have hregular := h.regular h₀
  obtain ⟨hnodup, hunknown⟩ := hregular.pooled.applies.ids
  refine ⟨h.exists_replay h₀, hregular.pooled.applies, hnodup, hunknown,
    fun t m hpush ↦ ?_, fun b ↦ (hregular.pushBlock rfl).2,
    fun g b n' hgenerate ↦ (hregular.generateBlock hgenerate).2⟩
  obtain ⟨hstate, hpending, hsame, -, hhead, hstack⟩ := hregular.pushTransaction_error hpush
  exact ⟨hstate, hpending, hhead, hsame, hstack⟩

end Node

namespace WitnessChain

theorem genesis_started (witnesses : ℕ) : (genesis witnesses).Started :=
  ⟨rfl, Nat.le_add_left 1 255, Nat.le_add_left 1 1023, rfl, rfl, rfl, .inl ⟨rfl, rfl, rfl⟩⟩

/-- A chain of three blocks, the first with a transaction. -/
def threeBlocks : List Block :=
  [⟨⟨1, 0, true, [⟨7, ()⟩]⟩, []⟩, ⟨⟨2, 0, true, []⟩, [⟨1, 0, true, [⟨7, ()⟩]⟩]⟩,
    ⟨⟨3, 0, true, []⟩, [⟨2, 0, true, []⟩, ⟨1, 0, true, [⟨7, ()⟩]⟩]⟩]

/-- A node with a pending transaction. It has rejected the same transaction and accepted a block with
another one. -/
def pooledNode : Node :=
  Node.pushLeft ((Node.left ((Node.left ((genesis 1).pushTransaction 7)).pushTransaction 7)).pushBlock
    ⟨⟨1, 0, true, [⟨8, ()⟩]⟩, []⟩)

/-- The node after two blocks of another branch, which take the place of the one that it has. -/
def switchedNode : Node :=
  pooledNode.pushAll [⟨⟨2, 0, true, []⟩, []⟩, ⟨⟨3, 0, true, []⟩, [⟨2, 0, true, []⟩]⟩]

theorem reachable_pooledNode : Node.Reachable (genesis 1) pooledNode :=
  .step (.step (.step .refl (e := .transaction 7) rfl) (e := .transaction 7) rfl) (e := .block _) rfl

/-- The transaction of the popped block is pending before the one that was pending. -/
theorem pool_restored_switched :
    (genesis 1).Started ∧ Node.Reachable (genesis 1) switchedNode ∧
      pooledNode.pendingTx = [⟨7, ()⟩] ∧ pooledNode.headState.known = [8] ∧
      switchedNode.headState.head.map Entry.tag = [3, 2] ∧ switchedNode.pendingTx = [⟨8, ()⟩, ⟨7, ()⟩] ∧
      (∃ trail bs, Replay (genesis 1).state switchedNode.headState trail (bs : List Block)) ∧
      Applies switchedNode.headState switchedNode.pendingTx switchedNode.state ∧
      (switchedNode.pendingTx.map fun tx ↦ tx.trx).Nodup ∧
      (∀ tx ∈ switchedNode.pendingTx, tx.trx ∉ switchedNode.headState.known) ∧
      (∃ m, switchedNode.pushTransaction 8 = .error m ∧ m.state = switchedNode.state ∧
        m.pendingTx = [⟨8, ()⟩, ⟨7, ()⟩] ∧ m.headState = switchedNode.headState ∧ Node.SameChain switchedNode m) ∧
      (∀ b, Node.Restored switchedNode (Node.pushLeft (switchedNode.pushBlock b))) ∧
      ∀ g b n', switchedNode.generateBlock g = some (b, n') → Node.Restored switchedNode n' := by
  have hreachable : Node.Reachable (genesis 1) switchedNode := reachable_pooledNode.pushAll _
  have hpending : switchedNode.pendingTx = [⟨8, ()⟩, ⟨7, ()⟩] := by decide
  obtain ⟨hreplay, happlies, hnodup, hunknown, hrejected, hblock, hgenerate⟩ :=
    Node.pool_restored (genesis_started 1) hreachable
  refine ⟨genesis_started 1, hreachable, by decide, by decide, by decide, hpending, hreplay, happlies, hnodup,
    fun tx htx ↦ of_decide_eq_false (hunknown tx htx), ?_, hblock, hgenerate⟩
  have hfails : (switchedNode.pushTransaction 8).isOk = false := by decide
  rcases hpush : switchedNode.pushTransaction 8 with m | m
  · obtain ⟨hstate, hsame, hhead, hchain, -⟩ := hrejected 8 m hpush
    exact ⟨m, rfl, hstate, hsame.trans hpending, hhead, hchain⟩
  · rw [hpush] at hfails
    cases hfails

/-- A transaction that is rejected makes the node forget two of the three blocks that it could undo. -/
theorem pushTransaction_rejected_records :
    ∃ n m : Node, Node.Reachable (genesis 1) n ∧ n.pushTransaction 7 = .error m ∧
      n.clearPending.undoStack.length = 3 ∧ m.clearPending.undoStack.length = 1 := by
  refine ⟨(genesis 1).pushAll threeBlocks, Node.left (((genesis 1).pushAll threeBlocks).pushTransaction 7),
    Node.Reachable.refl.pushAll threeBlocks, ?_, by decide, by decide⟩
  have hrejected : (((genesis 1).pushAll threeBlocks).pushTransaction 7).isOk = false := by
    decide
  rcases hpush : ((genesis 1).pushAll threeBlocks).pushTransaction 7 with m | m
  · rfl
  · rw [hpush] at hrejected
    cases hrejected

end WitnessChain

end Playchain
