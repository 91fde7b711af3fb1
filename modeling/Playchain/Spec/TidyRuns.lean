import Playchain.Spec.ForkHeads
import Playchain.Spec.Synopsis

/-!
# Which nodes are tidy

A push stores the id of each block that it applies, and never takes one away: the entries of popped blocks are
overwritten by those of the blocks that take their places. While blocks are pushed that are ready, the block log
therefore holds the preferred chain (`ReadyRun.tidy`). A switch that fails has overwritten the log as well, up to the
height of the old head; the blocks of the old branch are then stored again.
-/

namespace Playchain

namespace Node

section Log

variable {σ β ι τ : Type} [Blocks β ι τ] [ChainRules σ β ι τ] {n m : Node σ β ι τ} {chain : List β} {top : ℕ} {b : β}

/-- The log holds the chain of the head block, and no entry above a number. -/
structure Logs (n : Node σ β ι τ) (chain : List β) (top : ℕ) : Prop where
  linked : LinkedChain chain
  head : n.headId = idAt chain chain.length
  log : ∀ k, 1 ≤ k → k ≤ chain.length → n.blockIds k = some (idAt chain k)
  above : ∀ k, k = 0 ∨ top < k → n.blockIds k = none

namespace Logs

theorem mono (h : n.Logs chain top) {top' : ℕ} (hle : top ≤ top') : n.Logs chain top' :=
  ⟨h.linked, h.head, h.log, fun k hk ↦ h.above k (hk.imp id hle.trans_lt)⟩

theorem congr (h : n.Logs chain top) (hhead : m.headId = n.headId) (hids : m.blockIds = n.blockIds) :
    m.Logs chain top :=
  ⟨h.linked, hhead.trans h.head, fun k h₁ hk ↦ hids ▸ h.log k h₁ hk, fun k hk ↦ hids ▸ h.above k hk⟩

theorem headNum_eq (h : n.Logs chain top) : n.headNum = chain.length := by
  rw [headNum, h.head, h.linked.num_idAt le_rfl]

/-- The last blocks are popped; their entries stay. -/
theorem take (h : n.Logs chain top) {j : ℕ} (hj : j ≤ chain.length) (hhead : m.headId = idAt chain j)
    (hids : m.blockIds = n.blockIds) : m.Logs (chain.take j) top := by
  have hlength : (chain.take j).length = j := List.length_take_of_le hj
  refine ⟨h.linked.take j, ?_, fun k h₁ hk ↦ ?_, fun k hk ↦ hids ▸ h.above k hk⟩
  · rw [hhead, hlength, idAt_take chain le_rfl]
  · rw [hlength] at hk
    rw [hids, h.log k h₁ (hk.trans hj), idAt_take chain hk]

/-- A block is applied and stored. -/
theorem applyInSession (h : n.Logs chain top) (hok : n.applyInSession b = .ok m) :
    m.Logs (chain ++ [b]) (max top (chain.length + 1)) := by
  rcases happly : ChainRules.applyBlock n.state b with sized | s
  · rw [applyInSession_error happly] at hok
    cases hok
  rw [applyInSession_ok happly] at hok
  obtain rfl := Except.ok.inj hok
  have hprevious : Blocks.previous b = n.headId := ChainRules.previous_of_applyBlock happly
  have hnum : blockNum b = chain.length + 1 := by
    rw [blockNum, hprevious, ← headNum, h.headNum_eq]
  have hlast : idAt (chain ++ [b]) (chain.length + 1) = Blocks.id b :=
    idAt_succ_of_getElem? List.getElem?_concat_length
  have hlength : (chain ++ [b]).length = chain.length + 1 := List.length_append
  refine ⟨h.linked.append_singleton (hprevious.trans h.head), ?_, fun k h₁ hk ↦ ?_, fun k hk ↦ ?_⟩
  · rw [hlength, hlast]
    exact ChainRules.headId_of_applyBlock happly
  · rw [hlength] at hk
    dsimp only
    rw [hnum]
    obtain rfl | hlt := Nat.eq_or_lt_of_le hk
    · rw [Function.update_self, hlast]
    · rw [Function.update_of_ne hlt.ne, h.log k h₁ (Nat.le_of_lt_succ hlt),
        idAt_append_of_le chain [b] (Nat.le_of_lt_succ hlt)]
  · dsimp only
    rw [hnum, Function.update_of_ne (by omega)]
    exact h.above k (hk.imp id fun hlt ↦ (le_max_left _ _).trans_lt hlt)

/-- A failing block leaves the log. -/
theorem applyInSession_error (h : n.Logs chain top) (herror : n.applyInSession b = .error m) : m.Logs chain top := by
  rcases happly : ChainRules.applyBlock n.state b with sized | s
  · rw [Node.applyInSession_error happly] at herror
    obtain rfl := Except.error.inj herror
    exact h.congr rfl rfl
  · rw [applyInSession_ok happly] at herror
    cases herror

/-- The blocks of a branch are applied one after the other. -/
theorem restoreBranch (h : n.Logs chain top) {its : List (ForkItem β)} (hok : restoreBranch its n = .ok m) :
    m.Logs (chain ++ its.map ForkItem.data) (max top (chain.length + its.length)) := by
  induction its generalizing n chain top with
  | nil =>
    obtain rfl := Except.pure_eq_ok.1 hok
    rw [List.map_nil, List.append_nil]
    exact h.mono (le_max_left _ _)
  | cons it its ih =>
    rw [Node.restoreBranch, Except.bind_eq_ok] at hok
    obtain ⟨n', hn', hok⟩ := hok
    have hrest := ih (h.applyInSession hn') hok
    have hlength : (chain ++ [it.data]).length + its.length = chain.length + (it :: its).length := by
      rw [List.length_append, List.length_singleton, List.length_cons]
      omega
    have hmax : max (max top (chain.length + 1)) (chain.length + (it :: its).length) =
        max top (chain.length + (it :: its).length) := by
      rw [max_assoc, max_eq_right (a := chain.length + 1) (by rw [List.length_cons]; omega)]
    rw [hlength, hmax, List.append_assoc] at hrest
    exact hrest

end Logs

/-! ### Switches -/

variable [DecidableEq ι] {second its : List (ForkItem β)} {root : ι}

/-- Popping takes no entry away. -/
theorem blockIds_popBlock (hpop : n.popBlock = .ok m) : m.blockIds = n.blockIds := by
  have hundo : ∀ {n m : Node σ β ι τ}, n.popUndo = some m → m.blockIds = n.blockIds := by
    intro n m h
    obtain ⟨s, rest, -, rfl⟩ := popUndo_eq h
    rfl
  have hundone : n.undoSession.blockIds = n.blockIds := by
    rw [undoSession]
    rcases h : n.popUndo with - | n'
    · rfl
    · exact hundo h
  have hreset : n.resetPendingSession.blockIds = n.blockIds := by
    rw [resetPendingSession]
    split_ifs
    · exact hundone
    · rfl
  rw [popBlock] at hpop
  rcases hhead : n.resetPendingSession.fork.head with - | h
  · rw [hhead] at hpop
    cases hpop
  rw [hhead] at hpop
  dsimp only at hpop
  split at hpop
  · cases hpop
  · split at hpop
    · cases hpop
    · next hn =>
      obtain rfl := Except.ok.inj hpop
      exact (hundo hn).trans hreset

theorem popUntil_ok {fuel : ℕ} (hpop : popUntil root fuel n = .ok m) : m.headId = root ∧ m.blockIds = n.blockIds := by
  induction fuel generalizing n with
  | zero => cases hpop
  | succ fuel ih =>
    rw [popUntil] at hpop
    split_ifs at hpop with hroot
    · obtain rfl := Except.ok.inj hpop
      exact ⟨hroot, rfl⟩
    · rcases hn : n.popBlock with n' | n'
      · rw [hn] at hpop
        cases hpop
      · rw [hn] at hpop
        obtain ⟨hhead, hids⟩ := ih hpop
        exact ⟨hhead, hids.trans (blockIds_popBlock hn)⟩

/-- A branch that is pushed is applied. -/
theorem restoreBranch_of_pushBranch (hok : pushBranch second its n = .ok m) : restoreBranch its n = .ok m := by
  induction its generalizing n with
  | nil =>
    obtain rfl := Except.ok.inj hok
    rfl
  | cons it its ih =>
    rw [pushBranch] at hok
    rcases hn : n.applyInSession it.data with n' | n'
    · rw [hn] at hok
      dsimp only at hok
      split at hok <;> cases hok
    · rw [hn] at hok
      rw [restoreBranch, hn]
      exact ih hok

/-- **A switch that is taken back** has stored no more than the blocks before the failing one and those of the old
branch. -/
theorem Logs.pushBranch_error (h : n.Logs chain top) {failed : ι}
    (herror : pushBranch second its n = .error (.apply failed, m)) {j : ℕ} (hj : j ≤ chain.length)
    (hroot : branchRoot second = idAt chain j) :
    m.Logs (chain.take j ++ branchBlocks second)
      (max (max top (chain.length + its.length - 1)) (j + second.length)) := by
  induction its generalizing n chain top with
  | nil => cases herror
  | cons it its ih =>
    rw [pushBranch] at herror
    rcases hn : n.applyInSession it.data with n' | n'
    · rw [hn] at herror
      dsimp only at herror
      rcases hback : n'.switchBack (it :: its) second with m' | m'
      · rw [hback] at herror
        cases herror
      rw [hback] at herror
      obtain rfl : m' = m := (Prod.mk.inj (Except.error.inj herror)).2
      rw [switchBack, Except.bind_eq_ok] at hback
      obtain ⟨n₁, hpop, hrestore⟩ := hback
      obtain ⟨hhead, hids⟩ := popUntil_ok hpop
      have hpopped : n₁.Logs (chain.take j) top :=
        (h.applyInSession_error hn).take hj (hhead.trans hroot) hids
      have hrestored := hpopped.restoreBranch hrestore
      rw [List.map_reverse, List.length_reverse, List.length_take_of_le hj] at hrestored
      exact hrestored.mono (max_le_max_right _ (le_max_left _ _))
    · rw [hn] at herror
      have hrest := ih (h.applyInSession hn) herror
        (by rw [List.length_append]; exact Nat.le_add_right_of_le hj)
        (by rw [idAt_append_of_le chain [it.data] hj]; exact hroot)
      rw [List.take_append_of_le_length hj, List.length_append, List.length_singleton] at hrest
      -- a block of the rest fails
      have hpos : 0 < its.length := by
        rcases its with - | ⟨it', its⟩
        · cases herror
        · exact Nat.succ_pos _
      refine hrest.mono (max_le_max_right _ ?_)
      rw [List.length_cons]
      omega

/-! ### Pushes -/

variable {f₀ : ForkDatabase β} {newHead : ForkItem β}

/-- A block that extends the head block is stored, or it fails. -/
theorem Logs.extend (h : n.Logs chain chain.length) (hpush : n.fork.pushBlock b = .ok f₀)
    (hhead : f₀.head = some newHead) (hprev : newHead.previousId = n.headId) :
    ∃ chain', (pushLeft (n.pushBlockImpl b)).Logs chain' chain'.length := by
  have hn : Logs { n with fork := f₀ } chain chain.length := h.congr rfl rfl
  rw [pushBlockImpl_extend hpush hhead hprev]
  rcases happly : Node.applyInSession { n with fork := f₀ } b with m | m
  · exact ⟨chain, (hn.applyInSession_error happly).congr rfl rfl⟩
  · refine ⟨chain ++ [b], ?_⟩
    have hm := hn.applyInSession happly
    rw [max_eq_right (Nat.le_succ _)] at hm
    rw [List.length_append, List.length_singleton]
    exact hm

/-- **The log after a push**, accepted or not: it holds the chain of the head block, which may be another one. -/
theorem Sound.logs (hn : n.Sound) (hready : n.Ready b) (h : n.Logs chain chain.length) :
    ∃ chain', (pushLeft (n.pushBlockImpl b)).Logs chain' chain'.length := by
  rcases hpush : n.fork.pushBlock b with e | f₀
  · have hsame : n.pushBlockImpl b = .error (.fork e, n) := by rw [Node.pushBlockImpl, hpush]
    rw [hsame]
    exact ⟨chain, h⟩
  rcases hold : n.fork.head with - | hd
  · have hpush' := hpush
    rw [ForkDatabase.pushBlock, hold] at hpush'
    obtain rfl := Except.ok.inj hpush'
    exact h.extend hpush rfl ((hready.1 hold).trans (hn.index_eq_nil hold).2.symm)
  obtain ⟨hlinked, ⟨hhead, -⟩ | ⟨item, hhead, -, hnum, -⟩⟩ := hn.pushBlock_cases hold hpush
  · rw [hn.pushBlockImpl_stay hold hpush hhead]
    exact ⟨chain, h.congr rfl rfl⟩
  by_cases hprev : item.previousId = n.headId
  · exact h.extend hpush hhead hprev
  -- a switch: both branches start from a block of the chain
  have hlt : n.headNum < item.num := by omega
  obtain ⟨first, second, mid, hfetch, hmid, hfails⟩ := hready.2 f₀ item hpush hhead hprev hlt
  obtain ⟨⟨hfirst, -⟩, -, as, bs, x, y, has, hbs, hxy⟩ := ForkDatabase.fetchBranchFrom_branch hlinked hfetch
  have hroots : branchRoot first = branchRoot second := by
    rw [has, hbs, branchRoot_append, branchRoot_append, hxy]
  obtain ⟨-, first', recent, older, rfl, hswitch⟩ := hn.switching hpush hhead hprev hlt hfetch hmid
  obtain ⟨j, hj, hroot⟩ := h.linked.branchRoot_eq hswitch.second_ne_nil le_rfl (h.head ▸ hswitch.second_branch)
  obtain ⟨hfirstLinked, hfirstLast⟩ :=
    h.linked.append_branch (List.cons_ne_nil item first') hj hfirst (hroots.trans hroot)
  have hjfirst : j + (item :: first').length = chain.length + 1 := by
    have hlength : (chain.take j ++ branchBlocks (item :: first')).length = j + (item :: first').length := by
      rw [List.length_append, List.length_take_of_le hj, branchBlocks, List.length_reverse, List.length_map]
    rw [← hfirstLinked.num_idAt hlength.ge, hfirstLast, ← item.num_eq, hnum, h.headNum_eq]
  obtain ⟨m₁, hpop, hstate, -, -, -, hids, -⟩ := hswitch.popTo_eq
  have hm₁ : m₁.Logs (chain.take j) chain.length := by
    refine h.take hj ?_ hids
    rw [headId, hstate, hswitch.headId_mid, hroot]
  rcases replay_or_fails mid (item :: first').reverse with
    ⟨s, trail, hreplay⟩ | ⟨front, bad, rest, s, trail, sized, hsplit, hreplay, hbad⟩
  · rw [List.map_reverse, List.reverse_reverse] at hreplay
    obtain ⟨m₁', m, hpop', hok, -⟩ := hswitch.pushBranch_ok hreplay
    obtain rfl := Except.ok.inj (hpop.symm.trans hpop')
    rw [pushBlockImpl_switch hpush hhead hprev hlt hfetch hpop, hok]
    have hm := hm₁.restoreBranch (restoreBranch_of_pushBranch hok)
    refine ⟨_, hm.mono ?_⟩
    rw [List.length_append, List.length_take_of_le hj, List.length_map, List.length_reverse]
    omega
  · obtain ⟨m₁', m, h₀, hpop', herror, hstate', -⟩ := hswitch.pushBranch_error hsplit hreplay hbad fun hne ↦
      hfails front bad rest s trail sized hsplit hne hreplay hbad
    obtain rfl := Except.ok.inj (hpop.symm.trans hpop')
    rw [pushBlockImpl_switch hpush hhead hprev hlt hfetch hpop, herror]
    have hm := hm₁.pushBranch_error herror (List.length_take_of_le hj).ge
      (hroot.trans (idAt_take chain le_rfl).symm)
    refine ⟨_, hm.mono ?_⟩
    -- the old branch is stored again up to the old head
    have hhead' : m.headNum = n.headNum := by
      rw [headNum, headId, hstate']
      rfl
    rw [← hm.headNum_eq, hhead', h.headNum_eq, List.length_reverse, List.length_take_of_le hj]
    have hsecond := hm.headNum_eq
    rw [hhead', h.headNum_eq, List.length_append, List.take_take, min_self, List.length_take_of_le hj, branchBlocks,
      List.length_reverse, List.length_map] at hsecond
    omega

omit [DecidableEq ι] in
/-- A sound node is tidy when its log holds its chain. -/
theorem Sound.tidy (hn : n.Sound) (h : n.Logs chain chain.length) (hsmall : chain.length < 2 ^ 32) :
    n.Tidy chain where
  linked := h.linked
  head := h.head
  log k := by
    split_ifs with hk
    · exact h.log k hk.1 hk.2
    · exact h.above k (by omega)
  tied := hn.linked.tied
  forkNum it hit := h.headNum_eq ▸ hn.num_le it hit
  undo := by
    obtain ⟨base, bs, hreplay⟩ := hn.traced
    have hnum := hreplay.numFromId_headId
    rw [← headId, ← headNum, h.headNum_eq] at hnum
    omega
  small := hsmall

omit [DecidableEq ι] in
theorem Tidy.logs (h : n.Tidy chain) : n.Logs chain chain.length where
  linked := h.linked
  head := h.head
  log k h₁ hk := by rw [h.log, if_pos ⟨h₁, hk⟩]
  above k hk := by rw [h.log, if_neg (by omega)]

end Log

/-! ### Runs -/

section Runs

variable {σ β ι τ ρ κ : Type} [TransactionRules σ τ ρ κ] [DecidableEq ι] [Blocks β ι (ProcessedTransaction τ ρ)]
  [ChainRules σ β ι (ProcessedTransaction τ ρ)] {n₀ n : Node σ β ι (ProcessedTransaction τ ρ)} {chain₀ : List β}

theorem ReadyRun.logs (h₀ : n₀.Started) (hlog : n₀.Logs chain₀ chain₀.length) (h : ReadyRun n₀ n) :
    ∃ chain, n.clearPending.Logs chain chain.length := by
  induction h with
  | refl =>
    rw [clearPending_of_false h₀.pendingSession]
    exact ⟨chain₀, hlog.congr rfl rfl⟩
  | @push n b h hready ih =>
    obtain ⟨chain, hchain⟩ := ih
    have hsound := h.sound h₀
    obtain ⟨chain', hchain'⟩ := hsound.logs hready hchain
    obtain ⟨-, hpending, -⟩ := clearPending_pool n
    obtain ⟨hsession', hpending', -, hsize, -⟩ :=
      pushBlockImpl_kept hsound.pendingSession hsound.linked.tied hsound.one_le hsound.traced b _ rfl
    obtain ⟨hstate, -, -, hids, -⟩ :=
      pushBlock_below hsession' (hpending'.trans hpending) hsize rfl (rfl : pushLeft (n.pushBlock b) = _)
    exact ⟨chain', hchain'.congr (congrArg ChainRules.headId hstate) hids⟩

/-- Below the pool, a node that starts tidy stays tidy, as long as the numbers fit in 32 bits. -/
theorem ReadyRun.tidy_clearPending (h₀ : n₀.Started) (ht : n₀.Tidy chain₀) (h : ReadyRun n₀ n)
    (hsmall : n.clearPending.headNum < 2 ^ 32) : ∃ chain, n.clearPending.Tidy chain := by
  obtain ⟨chain, hlog⟩ := h.logs h₀ ht.logs
  exact ⟨chain, (h.sound h₀).tidy hlog (hlog.headNum_eq ▸ hsmall)⟩

theorem ReadyRun.reachable (h : ReadyRun n₀ n) : Reachable n₀ n := by
  induction h with
  | refl => exact .refl
  | @push n b h hready ih => exact .step (e := .block b) ih rfl

omit [DecidableEq ι] in
theorem headId_of_applies {s s' : σ} {txs : List (ProcessedTransaction τ ρ)}
    (hkeep : ∀ {s : σ} {t : τ} {s' : σ} {r : ρ}, TransactionRules.applyTransaction s t = some (s', r) →
      ChainRules.headId s' = ChainRules.headId s)
    (h : Applies s txs s') : ChainRules.headId s' = ChainRules.headId s := by
  induction txs generalizing s with
  | nil =>
    obtain rfl : s' = s := h
    rfl
  | cons tx txs ih =>
    obtain ⟨s₁, happly, h⟩ := h
    exact (ih h).trans (hkeep happly)

/-- **Runs keep a node tidy**, with its pool: a node that starts tidy is tidy after every run of calls of `push_block`
that are ready, whether they succeed or not, when no transaction touches the id of the head block and the numbers fit in
32 bits. -/
theorem ReadyRun.tidy [RejectsKnown σ]
    (hkeep : ∀ {s : σ} {t : τ} {s' : σ} {r : ρ}, TransactionRules.applyTransaction s t = some (s', r) →
      ChainRules.headId s' = ChainRules.headId s)
    (h₀ : n₀.Started) (ht : n₀.Tidy chain₀) (h : ReadyRun n₀ n) (hsmall : n.headNum < 2 ^ 32) :
    ∃ chain, n.Tidy chain := by
  have hpooled := (h.reachable.regular h₀).pooled
  obtain ⟨hsession, -, hsame⟩ := clearPending_pool n
  have hhead : n.headId = n.clearPending.headId := headId_of_applies hkeep hpooled.applies
  obtain ⟨chain, htidy⟩ := h.tidy_clearPending h₀ ht (by rwa [headNum, ← hhead])
  refine ⟨chain, htidy.linked, hhead.trans htidy.head, fun k ↦ hsame.blockIds ▸ htidy.log k, hsame.fork ▸ htidy.tied,
    fun it hit ↦ htidy.forkNum it (hsame.fork ▸ hit), ?_, htidy.small⟩
  have hundo := htidy.undo
  rw [hsession, if_neg Bool.false_ne_true] at hundo
  rcases hpending : n.pendingSession with - | -
  · rw [(hpooled.noSession hpending).2.1]
    exact hundo
  -- the session of the pool is no block
  · rw [hpooled.session hpending, List.length_cons]
    exact hundo

end Runs

end Node

end Playchain
