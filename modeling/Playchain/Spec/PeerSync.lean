import Playchain.Net.PeerSync
import Playchain.Spec.Synopsis

/-!
# Fetching ids from an honest peer

Two tidy nodes, the one asks and the other answers. After the first round, what the asking node knows of the peer's chain is
a stretch of it (`Stretch`): it starts above a block that the node has, and each round makes it longer at the end. The peer
is never disconnected for its answers, and after enough rounds the stretch reaches the head of the peer (`ids_fetched`).
There is no request when the last block of the peer that the node has is on a fork that it cannot go back to (`NoRequest`).
-/

namespace Playchain

variable {σ β ι τ : Type} [DecidableEq ι] [Blocks β ι τ] [ChainRules σ β ι τ]

variable {n m : Node σ β ι τ} {chain chain' : List β} {blockTime : ι → TimePointSec} {now : TimePointSec}
  {limit : ℕ} {peer peer' : PeerConnection ι}

/-! ### Stretches of a chain -/

/-- The ids of a chain from a number on. -/
def idsFrom (chain : List β) (start count : ℕ) : List ι := (List.range' start count).map (idAt chain)

section Stretches

omit [DecidableEq ι]

theorem length_idsFrom (chain : List β) (start count : ℕ) : (idsFrom chain start count).length = count := by
  rw [idsFrom, List.length_map, List.length_range']

theorem idsFrom_succ (chain : List β) (start count : ℕ) :
    idsFrom chain start (count + 1) = idAt chain start :: idsFrom chain (start + 1) count := by
  rw [idsFrom, List.range'_succ, List.map_cons]
  rfl

theorem idsFrom_succ_last (chain : List β) (start count : ℕ) :
    idsFrom chain start (count + 1) = idsFrom chain start count ++ [idAt chain (start + count)] := by
  rw [idsFrom, List.range'_concat, List.map_append, Nat.one_mul]
  rfl

theorem idsFrom_append (chain : List β) (start count count' : ℕ) :
    idsFrom chain start count ++ idsFrom chain (start + count) count' = idsFrom chain start (count + count') := by
  rw [idsFrom, idsFrom, idsFrom, ← List.map_append, ← List.range'_append_1]

theorem getElem?_idsFrom (chain : List β) {start count k : ℕ} (h : k < count) :
    (idsFrom chain start count)[k]? = some (idAt chain (start + k)) := by
  rw [idsFrom, List.getElem?_map, List.getElem?_range' h, Option.map_some, Nat.one_mul]

theorem isSequential_idsFrom (hc : LinkedChain chain) (hsmall : chain.length < 2 ^ 32) {start count : ℕ}
    (hle : start + count ≤ chain.length + 1) :
    PeerConnection.isSequential β start (idsFrom chain start count) = true := by
  induction count generalizing start with
  | zero => rfl
  | succ count ih =>
    rw [idsFrom_succ, PeerConnection.isSequential, hc.num_idAt (by omega), ih (by omega), Nat.mod_eq_of_lt (by omega)]
    simp

end Stretches

/-! ### The request -/

/-- What the node knows of the chain of the peer: a stretch of it that starts above a block of the node. -/
structure Stretch (n : Node σ β ι τ) (chain chain' : List β) (peer : PeerConnection ι) (seen got : ℕ) : Prop where
  seen_le : seen ≤ got
  got_le : got ≤ chain'.length
  ids : peer.idsOfItemsToGet = idsFrom chain' (seen + 1) (got - seen)
  last : peer.lastBlockDelegateHasSeen = idAt chain' seen
  unfetched : peer.numberOfUnfetchedItemIds = chain'.length - got
  /-- Only a node without blocks has seen none of the peer's. -/
  empty : seen = 0 → chain = []
  known : 1 ≤ seen → n.isKnownBlock (idAt chain' seen) = true

/-- The loop takes the points in the stretch. -/
theorem appendLoop_eq {seen got : ℕ} (hfit : got + 2 < 2 ^ 32) {fuel low : ℕ} (hle : low ≤ got)
    (hfuel : got < fuel + low) :
    appendLoop (idsFrom chain' (seen + 1) (got - seen)) (seen + 1) got fuel low =
      .ok (((Halving.points got low).filter (seen < ·)).map (idAt chain')) := by
  induction fuel generalizing low with
  | zero => omega
  | succ fuel ih =>
    have hnext := Node.nextLowBlockNum_eq hle hfit
    have hlt := Halving.lt_next got low
    have hitem : knownItem (idsFrom chain' (seen + 1) (got - seen)) (seen + 1) low =
        .ok (([low].filter (seen < ·)).map (idAt chain')) := by
      rw [knownItem]
      by_cases hseen : seen + 1 ≤ low
      · rw [if_pos hseen, getElem?_idsFrom chain' (by omega), List.filter_cons_of_pos (by simpa using hseen),
          Nat.add_sub_cancel' hseen]
        rfl
      · rw [if_neg hseen, List.filter_cons_of_neg (by simp; omega)]
        rfl
    rw [appendLoop, hitem, Except.ok_bind, hnext]
    by_cases hend : low < got
    · have hnextLe := Halving.next_le hend
      have hpoints : Halving.points got low = [low] ++ Halving.points got (Halving.next got low) :=
        Halving.points_of_lt hend
      rw [if_pos hnextLe, ih hnextLe (by omega), Except.ok_bind, hpoints, List.filter_append, List.map_append]
      rfl
    · rw [if_neg (by omega), Halving.points_of_le (not_lt.1 hend)]
      rfl

/-- Why there is no request: the last block that the peer is known to have is on a fork that the fork database does not
connect with the head, or on an old one. -/
inductive NoRequest (n : Node σ β ι τ) (chain : List β) (id : ι) : SyncError → Prop
  | branch (hnone : n.fork.fetchBranchFrom n.headId id = none) : NoRequest n chain id .branch
  | tooOld (hold : n.OnOldFork chain id) : NoRequest n chain id .tooOld

/-- The part of the request that the delegate makes: the points up to the last block that the node has. -/
theorem Stretch.delegate (h : n.Tidy chain) (h' : m.Tidy chain') (hfit : chain.length + chain'.length + 2 < 2 ^ 32)
    {seen got : ℕ} (hs : Stretch n chain chain' peer seen got) :
    (∃ e, n.getBlockchainSynopsis peer.lastBlockDelegateHasSeen (peer.idsOfItemsToGet.length % 2 ^ 32) = .error e ∧
      idAt chain' seen ≠ idAt chain seen ∧ NoRequest n chain (idAt chain' seen) e) ∨
    ∃ base low, n.getBlockchainSynopsis peer.lastBlockDelegateHasSeen (peer.idsOfItemsToGet.length % 2 ^ 32) = .ok base ∧
      1 ≤ low ∧ (seen < got → low ≤ got) ∧ (1 ≤ seen → low ≤ seen) ∧
      base = ((Halving.points got low).filter (· ≤ seen)).map (idAt chain') ∧
      (base.head?.map (Blocks.numFromId β)).getD 1 = low := by
  have hle := hs.seen_le
  have hgot := hs.got_le
  have hlength : peer.idsOfItemsToGet.length = got - seen := by
    rw [hs.ids, length_idsFrom]
  rw [hs.last, hlength, Nat.mod_eq_of_lt (by omega)]
  by_cases hseen : seen = 0
  · subst hseen
    have hempty : n.getBlockchainSynopsis (idAt chain' 0) (got - 0) = .ok [] := by
      rw [Node.getBlockchainSynopsis, if_neg (not_not.2 (idAt_zero chain')), h.headNum_eq, hs.empty rfl]
      rfl
    refine .inr ⟨[], 1, hempty, le_rfl, fun hlt ↦ hlt, fun hle ↦ absurd hle (by omega), ?_, rfl⟩
    rw [Node.points_filter_eq_nil Nat.one_pos]
    rfl
  · have hpos := Nat.one_le_iff_ne_zero.2 hseen
    have hne := h'.linked.idAt_ne_noBlock hpos (hle.trans hgot)
    have hend : n.synopsisEnd (idAt chain' seen) = idAt chain' seen := if_neg hne
    have hnumEnd := h'.linked.num_idAt (hle.trans hgot)
    have hresult : n.SynopsisResult chain (idAt chain' seen) (got - seen) _ :=
      h.getBlockchainSynopsis_result (by rw [hend, hnumEnd]; omega)
    generalize n.getBlockchainSynopsis (idAt chain' seen) (got - seen) = result at hresult
    cases hresult with
    | empty hno => exact absurd hno hne
    | unknown hout => exact absurd (h.num_of_isKnownBlock (hs.known hpos)) hout
    | branch hoff hnone => exact .inl ⟨_, rfl, by rwa [hnumEnd] at hoff, .branch hnone⟩
    | tooOld hoff hold => exact .inl ⟨_, rfl, by rwa [hnumEnd] at hoff, .tooOld hold⟩
    | @ids base branch low hsum =>
      have hlast := hsum.last
      rw [hend] at hlast
      have hbranch : branch.length = seen := by
        rw [← hsum.linked.num_idAt le_rfl, hlast, hnumEnd]
      rw [hbranch] at hlast
      have hlow : low ≤ seen := hbranch ▸ hsum.low_le
      -- the branch is the beginning of the peer's chain
      have hsame : ∀ k ≤ seen, idAt branch k = idAt chain' k := fun k hk ↦
        hsum.linked.idAt_eq_of_le h'.linked hbranch.ge (hle.trans hgot) hlast hk
      have hnums : base = (Node.synopsisNums seen (got - seen) low).map (idAt chain') := by
        rw [hsum.ids_eq, hbranch]
        exact List.map_congr_left fun k hk ↦ hsame k (Node.mem_synopsisNums hk).2
      refine .inr ⟨base, low, rfl, hsum.one_le, fun hlt ↦ hlow.trans hlt.le, fun _ ↦ hlow, ?_, ?_⟩
      · rw [hnums, Node.synopsisNums, Nat.add_sub_cancel' hle]
      · rw [hnums, List.head?_map, Node.head?_synopsisNums hlow]
        exact h'.linked.num_idAt (hlow.trans (hle.trans hgot))

/-- **The request mentions points up to the last id that is known of the peer.** -/
theorem Stretch.request (h : n.Tidy chain) (h' : m.Tidy chain') (hfit : chain.length + chain'.length + 2 < 2 ^ 32)
    {seen got : ℕ} (hs : Stretch n chain chain' peer seen got) :
    (∃ e, peer.createBlockchainSynopsis n = .error e ∧ idAt chain' seen ≠ idAt chain seen ∧
      NoRequest n chain (idAt chain' seen) e) ∨
    ∃ synopsis, peer.createBlockchainSynopsis n = .ok synopsis ∧ ((got = 0 ∧ synopsis = []) ∨
      ∃ low, 1 ≤ low ∧ low ≤ got ∧ synopsis = (Halving.points got low).map (idAt chain')) := by
  have hle := hs.seen_le
  have hgot := hs.got_le
  have hlength : peer.idsOfItemsToGet.length = got - seen := by
    rw [hs.ids, length_idsFrom]
  obtain ⟨e, herr, hwhy⟩ | ⟨base, low, hbase, hone, hlowGot, hlowSeen, hbaseEq, hhead⟩ := hs.delegate h h' hfit
  · refine .inl ⟨e, ?_, hwhy⟩
    rw [PeerConnection.createBlockchainSynopsis, herr]
    rfl
  right
  rw [PeerConnection.createBlockchainSynopsis, hbase, Except.ok_bind]
  obtain rfl | hlt := Nat.eq_or_lt_of_le hle
  -- nothing is known beyond what the node has seen
  · rw [hs.ids, Nat.sub_self]
    refine ⟨base, rfl, ?_⟩
    by_cases hseen : seen = 0
    · refine .inl ⟨hseen, ?_⟩
      rw [hbaseEq, hseen, Node.points_filter_eq_nil (by omega)]
      rfl
    · have hlow := hlowSeen (Nat.one_le_iff_ne_zero.2 hseen)
      refine .inr ⟨low, hone, hlow, ?_⟩
      rw [hbaseEq, List.filter_eq_self.2 fun k hk ↦ decide_eq_true (Halving.le_high_of_mem hlow hk)]
  · obtain ⟨count, hcount⟩ : ∃ count, got - seen = count + 1 := ⟨got - seen - 1, by omega⟩
    have hcons : peer.idsOfItemsToGet = idAt chain' (seen + 1) :: idsFrom chain' (seen + 2) count := by
      rw [hs.ids, hcount, idsFrom_succ]
    rw [hcons]
    dsimp only
    rw [← hcons, hlength, hhead, h'.linked.num_idAt (by omega), show seen + 1 + (got - seen) - 1 = got by omega,
      Nat.mod_eq_of_lt (by omega), hs.ids, appendLoop_eq (by omega) (hlowGot hlt) (by omega), Except.ok_bind]
    refine ⟨_, rfl, .inr ⟨low, hone, hlowGot hlt, ?_⟩⟩
    rw [hbaseEq, ← List.map_append, Halving.filter_append_filter (Halving.pairwise_points _ _)]

/-! ### The answer -/

/-- The answer to a synopsis whose latest common block is known. -/
theorem Node.Tidy.answer_eq (h' : m.Tidy chain') (hne : chain' ≠ []) (hlimit : 1 ≤ limit) {synopsis : List ι} {num : ℕ}
    (hnum : num ≤ chain'.length) (hstart : m.answerStart synopsis = .ok (idAt chain' num)) :
    m.answer synopsis limit = .ok (idsFrom chain' (max 1 num) (min (chain'.length + 1 - max 1 num) limit),
      chain'.length + 1 - max 1 num - limit) := by
  rw [Node.answer, h'.getBlockIds_eq hnum (List.length_pos_iff.2 hne) hstart, if_neg (by omega)]
  rfl

theorem Node.Tidy.answer_nil (h' : m.Tidy chain') (hnil : chain' = []) (synopsis : List ι) :
    m.answer synopsis limit = .ok ([], 0) := by
  rw [Node.answer, Node.getBlockIds, h'.headNum_eq, hnil]
  rfl

/-- A synopsis that ends with a block of the chain. -/
theorem Node.Tidy.answerStart_of_getLast? (h' : m.Tidy chain') {synopsis : List ι} {num : ℕ} (h₁ : 1 ≤ num)
    (hnum : num ≤ chain'.length) (hlast : synopsis.getLast? = some (idAt chain' num)) :
    m.answerStart synopsis = .ok (idAt chain' num) := by
  have hne := h'.linked.idAt_ne_noBlock h₁ hnum
  obtain ⟨ids, rfl⟩ := List.getLast?_eq_some_iff.1 hlast
  have hsome : ¬(ids ++ [idAt chain' num] = [] ∨ ids ++ [idAt chain' num] = [Blocks.noBlock β]) := by
    rintro (hnil | hno)
    · simp at hnil
    · rw [hno, List.getLast?_singleton] at hlast
      exact hne (Option.some.inj hlast).symm
  rw [Node.answerStart, if_neg hsome, h'.lastKnownBlockId_eq, List.reverse_append, List.reverse_singleton,
    List.singleton_append, List.find?_cons_of_pos (by simp [h'.linked.num_idAt hnum])]
  rfl

/-- A stretch of a chain that starts with a block of the synopsis is a possible answer. -/
theorem checkAnswer_idsFrom (hc : LinkedChain chain') (hsmall : chain'.length < 2 ^ 32) {synopsis : List ι}
    {start count : ℕ} (hle : start + count ≤ chain'.length + 1) (hnil : synopsis = [] → start = 1)
    (hmem : synopsis ≠ [] → idAt chain' start ∈ synopsis) :
    PeerConnection.checkAnswer β synopsis (idsFrom chain' start count) = none := by
  cases count with
  | zero => rfl
  | succ count =>
    have hnum := hc.num_idAt (show start ≤ chain'.length by omega)
    have hseq := isSequential_idsFrom hc hsmall (show start + 1 + count ≤ chain'.length + 1 by omega)
    rw [idsFrom_succ, PeerConnection.checkAnswer, hnum, hseq, if_neg Bool.false_ne_true.symm]
    by_cases hempty : synopsis = []
    · rw [if_pos hempty, if_neg (not_not.2 (hnil hempty))]
    · rw [if_neg hempty, if_neg (not_not.2 (hmem hempty))]

/-! ### What is new -/

omit [ChainRules σ β ι τ] in
/-- **Blocks that the node has are not fetched.** -/
theorem popSeen_idsFrom (n : Node σ β ι τ) (chain' : List β) (blockTime : ι → TimePointSec)
    (start count : ℕ) (peer : PeerConnection ι) :
    ∃ popped, popped ≤ count ∧
      (PeerConnection.popSeen n blockTime (idsFrom chain' start count) peer).1 =
        idsFrom chain' (start + popped) (count - popped) ∧
      (PeerConnection.popSeen n blockTime (idsFrom chain' start count) peer).2.idsOfItemsToGet =
        peer.idsOfItemsToGet ∧
      (PeerConnection.popSeen n blockTime (idsFrom chain' start count) peer).2.numberOfUnfetchedItemIds =
        peer.numberOfUnfetchedItemIds ∧
      (popped = 0 →
        (PeerConnection.popSeen n blockTime (idsFrom chain' start count) peer).2.lastBlockDelegateHasSeen =
          peer.lastBlockDelegateHasSeen) ∧
      (1 ≤ popped →
        (PeerConnection.popSeen n blockTime (idsFrom chain' start count) peer).2.lastBlockDelegateHasSeen =
          idAt chain' (start + popped - 1) ∧ n.isKnownBlock (idAt chain' (start + popped - 1)) = true) ∧
      (1 ≤ count → n.isKnownBlock (idAt chain' start) = true → 1 ≤ popped) := by
  induction count generalizing start peer with
  | zero => exact ⟨0, le_rfl, rfl, rfl, rfl, fun _ ↦ rfl, fun h ↦ absurd h (by omega), fun h ↦ absurd h (by omega)⟩
  | succ count ih =>
    rw [idsFrom_succ]
    by_cases hknown : n.isKnownBlock (idAt chain' start) = true
    · obtain ⟨popped, hle, hids, hold, hunfetched, hzero, hpos, -⟩ := ih (start + 1) { peer with
        lastBlockDelegateHasSeen := idAt chain' start
        lastBlockTimeDelegateHasSeen := blockTime (idAt chain' start) }
      rw [PeerConnection.popSeen, if_pos hknown]
      refine ⟨popped + 1, by omega, ?_, hold, hunfetched, fun h ↦ absurd h (by omega), fun _ ↦ ?_, fun _ _ ↦ by omega⟩
      · rw [hids, Nat.add_sub_add_right, Nat.add_assoc, Nat.add_comm 1]
      · cases popped with
        | zero => exact ⟨hzero rfl, hknown⟩
        | succ popped =>
          have hlast := hpos (by omega)
          rw [show start + 1 + (popped + 1) - 1 = start + (popped + 1 + 1) - 1 by omega] at hlast
          exact hlast
    · rw [PeerConnection.popSeen, if_neg hknown]
      refine ⟨0, Nat.zero_le _, (idsFrom_succ chain' start count).symm, rfl, rfl, fun _ ↦ rfl, fun h ↦ absurd h (by omega),
        fun _ h ↦ absurd h hknown⟩

/-- The new list starts with the last id of the existing one. -/
theorem joinLists_idsFrom {start count : ℕ} (hids : peer.idsOfItemsToGet = idsFrom chain' start (count + 1))
    (hashes : List ι) :
    PeerConnection.joinLists blockTime (idAt chain' (start + count)) hashes peer =
      (hashes, { peer with idsOfItemsToGet := idsFrom chain' start count }) := by
  have hdrop : ((peer.idsOfItemsToGet.reverse.dropWhile (· ≠ idAt chain' (start + count))).reverse) =
      idsFrom chain' start (count + 1) := by
    rw [hids, idsFrom_succ_last, List.reverse_append, List.reverse_singleton, List.singleton_append,
      List.dropWhile_cons_of_neg (by simp), List.reverse_cons, List.reverse_reverse]
  rw [PeerConnection.joinLists, hdrop, idsFrom_succ]
  dsimp only
  rw [← idsFrom_succ, idsFrom_succ_last, List.dropLast_concat]

/-- How an answer starts: with a block that the node has, or with the first one if the node has none, and if there are ids
to get already with the last of them. -/
inductive Continues (n : Node σ β ι τ) (chain chain' : List β) (peer : PeerConnection ι) (start : ℕ) : Prop
  | extends {seen : ℕ} (h : Stretch n chain chain' peer seen start) (hlt : seen < start)
  | fresh (hids : peer.idsOfItemsToGet = []) (hknown : n.isKnownBlock (idAt chain' start) = true)
  | first (hids : peer.idsOfItemsToGet = []) (hone : start = 1) (hnil : chain = [])
      (hlast : peer.lastBlockDelegateHasSeen = Blocks.noBlock β)

omit [ChainRules σ β ι τ] in
/-- **The answer makes the stretch longer.** -/
theorem Continues.takeNew {start count : ℕ} (h : Continues n chain chain' peer start) (h₁ : 1 ≤ start)
    (hcount : 1 ≤ count) (hle : start + count ≤ chain'.length + 1) {q : PeerConnection ι}
    (hids : q.idsOfItemsToGet = peer.idsOfItemsToGet)
    (hlast : q.lastBlockDelegateHasSeen = peer.lastBlockDelegateHasSeen)
    (hunfetched : q.numberOfUnfetchedItemIds = chain'.length + 1 - start - count)
    {new : List ι} {r : PeerConnection ι} (htake : q.takeNew n blockTime (idsFrom chain' start count) = (new, r)) :
    ∃ seen, Stretch n chain chain' { r with idsOfItemsToGet := r.idsOfItemsToGet ++ new } seen (start + count - 1) := by
  obtain ⟨count, rfl⟩ := Nat.exists_eq_succ_of_ne_zero (Nat.ne_of_gt hcount)
  have hcons : PeerConnection.takeNew n blockTime (idsFrom chain' start (count + 1)) q =
      if q.idsOfItemsToGet = [] then PeerConnection.popSeen n blockTime (idsFrom chain' start (count + 1)) q
      else PeerConnection.joinLists blockTime (idAt chain' start) (idsFrom chain' start (count + 1)) q := by
    rw [idsFrom_succ]
    rfl
  rw [hcons] at htake
  -- without ids to get, those that the node has blocks for are dropped
  have hpop (hnil : peer.idsOfItemsToGet = [])
      (hstart : n.isKnownBlock (idAt chain' start) = true ∨
        (start = 1 ∧ chain = [] ∧ peer.lastBlockDelegateHasSeen = Blocks.noBlock β)) :
      ∃ seen, Stretch n chain chain' { r with idsOfItemsToGet := r.idsOfItemsToGet ++ new } seen
        (start + (count + 1) - 1) := by
    rw [if_pos (hids.trans hnil)] at htake
    obtain ⟨popped, hpopped, hnew, hold, hrest, hzero, hpos, hsome⟩ :=
      popSeen_idsFrom n chain' blockTime start (count + 1) q
    rw [htake] at hnew hold hrest hzero hpos
    dsimp only at hnew hold hrest hzero hpos
    refine ⟨start + popped - 1, ⟨by omega, by omega, ?_, ?_, by dsimp only; omega, fun hseen ↦ ?_, fun hseen ↦ ?_⟩⟩
    · dsimp only
      rw [hold, hids, hnil, hnew, List.nil_append, show start + popped - 1 + 1 = start + popped by omega,
        show start + (count + 1) - 1 - (start + popped - 1) = count + 1 - popped by omega]
    · cases popped with
      | zero =>
        obtain hknown | ⟨rfl, -, hno⟩ := hstart
        · exact absurd (hsome (by omega) hknown) (by omega)
        · exact (hzero rfl).trans (hlast.trans hno)
      | succ popped => exact (hpos (by omega)).1
    · obtain hknown | ⟨-, hnil', -⟩ := hstart
      · have := hsome (by omega) hknown
        omega
      · exact hnil'
    · obtain hknown | ⟨rfl, -, -⟩ := hstart
      · exact (hpos (hsome (by omega) hknown)).2
      · exact (hpos (by omega)).2
  cases h with
  | @«extends» seen hs hlt =>
    obtain ⟨c, hc⟩ : ∃ c, start - seen = c + 1 := ⟨start - seen - 1, by omega⟩
    have hold : q.idsOfItemsToGet = idsFrom chain' (seen + 1) (c + 1) := by
      rw [hids, hs.ids, hc]
    have hne : q.idsOfItemsToGet ≠ [] := by
      rw [hold, idsFrom_succ]
      exact List.cons_ne_nil _ _
    rw [if_neg hne, show start = seen + 1 + c by omega, joinLists_idsFrom hold] at htake
    obtain ⟨rfl, rfl⟩ := Prod.mk.inj htake
    refine ⟨seen, ⟨by omega, by omega, ?_, hlast.trans hs.last, by dsimp only; omega, hs.empty, hs.known⟩⟩
    dsimp only
    rw [idsFrom_append]
    congr 1
    omega
  | fresh hnil hknown => exact hpop hnil (.inl hknown)
  | first hnil hone hempty hno => exact hpop hnil (.inr ⟨hone, hempty, hno⟩)

/-! ### Rounds -/

omit [ChainRules σ β ι τ] in
/-- What an answer that passes the checks leads to. -/
theorem onInventory_cases (peer : PeerConnection ι) {synopsis hashes : List ι} {remaining : ℕ}
    (hrequest : peer.itemIdsRequestedFromPeer = some synopsis)
    (hcheck : PeerConnection.checkAnswer β synopsis hashes = none) {q r : PeerConnection ι} {new : List ι}
    (hq : q = { peer with itemIdsRequestedFromPeer := none, numberOfUnfetchedItemIds := remaining })
    (htake : q.takeNew n blockTime hashes = (new, r)) {outcome : InventoryOutcome ι}
    (houtcome : peer.onInventory n blockTime now hashes remaining = outcome) :
    ((∃ p, outcome = .upToDate p) ∧ remaining = 0 ∧ (hashes = [] ∨ ∃ id, hashes = [id] ∧ n.isKnownBlock id = true)) ∨
      outcome = .disconnected .tooManyBlocks ∨
      (outcome.next? = some { r with idsOfItemsToGet := r.idsOfItemsToGet ++ new } ∧ ∀ p, outcome ≠ .upToDate p) := by
  rw [PeerConnection.onInventory, hrequest] at houtcome
  dsimp only at houtcome
  rw [hcheck] at houtcome
  dsimp only at houtcome
  rw [← hq, htake] at houtcome
  dsimp only at houtcome
  split at houtcome
  · next hdone =>
    obtain ⟨hremaining, hhashes, -⟩ := hdone
    refine .inl ⟨⟨_, houtcome.symm⟩, hremaining, hhashes.imp_right ?_⟩
    rintro ⟨hlength, hall⟩
    obtain ⟨id, rfl⟩ := List.length_eq_one_iff.1 hlength
    exact ⟨id, rfl, by simpa using hall⟩
  · right
    split at houtcome
    · exact .inl houtcome.symm
    · right
      subst houtcome
      split <;> split <;> exact ⟨rfl, fun p h ↦ by cases h⟩

/-- What a round makes of a request whose latest common block has the number `num`. -/
structure RoundResult (n : Node σ β ι τ) (chain chain' : List β) (limit num : ℕ) (outcome : InventoryOutcome ι) :
    Prop where
  asked : outcome ≠ .ignored
  disconnected : ∀ reason, outcome = .disconnected reason → reason = .tooManyBlocks
  upToDate : ∀ p, outcome = .upToDate p → n.isKnownBlock (idAt chain' chain'.length) = true
  next : ∀ p, outcome.next? = some p →
    ∃ seen, Stretch n chain chain' p seen (min chain'.length (max 1 num + limit - 1))

/-- A round with a request and an answer. -/
theorem syncRound_eq {synopsis hashes : List ι} {remaining : ℕ} (hrequest : peer.createBlockchainSynopsis n = .ok synopsis)
    (hanswer : m.answer synopsis limit = .ok (hashes, remaining)) :
    syncRound n m blockTime now limit peer =
      .ok ({ peer with itemIdsRequestedFromPeer := some synopsis }.onInventory n blockTime now hashes remaining) := by
  rw [syncRound, PeerConnection.fetchNextBatch, hrequest, Except.ok_bind]
  dsimp only
  rw [hanswer, Except.ok_bind]
  rfl

/-- **A round with a request that the peer can answer.** -/
theorem Continues.syncRound (h' : m.Tidy chain') (hne : chain' ≠ []) (hlimit : 1 ≤ limit) {num : ℕ}
    (hnum : num ≤ chain'.length) (h : Continues n chain chain' peer (max 1 num)) {synopsis : List ι}
    (hrequest : peer.createBlockchainSynopsis n = .ok synopsis) (hstart : m.answerStart synopsis = .ok (idAt chain' num))
    (hnil : synopsis = [] → max 1 num = 1) (hmem : synopsis ≠ [] → idAt chain' (max 1 num) ∈ synopsis)
    (blockTime : ι → TimePointSec) (now : TimePointSec) :
    ∃ outcome, Playchain.syncRound n m blockTime now limit peer = .ok outcome ∧
      RoundResult n chain chain' limit num outcome := by
  have hpos := List.length_pos_iff.2 hne
  set start := max 1 num with hstartEq
  have h₁ : 1 ≤ start := le_max_left _ _
  have hstartLe : start ≤ chain'.length := max_le hpos hnum
  obtain ⟨count, hcountEq⟩ : ∃ count, count = min (chain'.length + 1 - start) limit := ⟨_, rfl⟩
  have hcount : 1 ≤ count := by omega
  have hle : start + count ≤ chain'.length + 1 := by omega
  have hrest : chain'.length + 1 - start - limit = chain'.length + 1 - start - count := by omega
  have hanswer := h'.answer_eq hne hlimit hnum hstart
  rw [← hstartEq, ← hcountEq, hrest] at hanswer
  obtain ⟨outcome, houtcome⟩ : ∃ outcome, { peer with itemIdsRequestedFromPeer := some synopsis }.onInventory n
      blockTime now (idsFrom chain' start count) (chain'.length + 1 - start - count) = outcome := ⟨_, rfl⟩
  refine ⟨outcome, (syncRound_eq hrequest hanswer).trans (congrArg Except.ok houtcome), ?_⟩
  obtain ⟨⟨new, r⟩, htake⟩ : ∃ result, PeerConnection.takeNew n blockTime (idsFrom chain' start count)
      { peer with
        itemIdsRequestedFromPeer := none
        numberOfUnfetchedItemIds := chain'.length + 1 - start - count } = result := ⟨_, rfl⟩
  obtain ⟨seen, hstretch⟩ := h.takeNew (q := { peer with
      itemIdsRequestedFromPeer := none
      numberOfUnfetchedItemIds := chain'.length + 1 - start - count }) h₁ hcount hle rfl rfl rfl htake
  have hend : start + count - 1 = min chain'.length (start + limit - 1) := by omega
  rw [hend] at hstretch
  have hcheck := checkAnswer_idsFrom h'.linked h'.small hle hnil hmem
  obtain ⟨⟨p, rfl⟩, hremaining, hhashes⟩ | rfl | ⟨hnext, hup⟩ :=
    onInventory_cases { peer with itemIdsRequestedFromPeer := some synopsis } rfl hcheck rfl htake
      houtcome
  · refine ⟨nofun, nofun, fun _ _ ↦ ?_, nofun⟩
    obtain hempty | ⟨id, hid, hknown⟩ := hhashes
    · have hlength := congrArg List.length hempty
      rw [length_idsFrom, List.length_nil] at hlength
      omega
    -- the only id is that of the head
    · have hlength := congrArg List.length hid
      rw [length_idsFrom, List.length_singleton] at hlength
      rw [hlength] at hid
      rwa [show chain'.length = start by omega, (List.cons.inj hid).1]
  · exact ⟨nofun, fun reason h ↦ (InventoryOutcome.disconnected.inj h).symm, nofun, nofun⟩
  · refine ⟨fun h ↦ ?_, fun reason h ↦ ?_, fun p h ↦ absurd h (hup p), fun p h ↦ ⟨seen, ?_⟩⟩
    · rw [h] at hnext
      cases hnext
    · rw [h] at hnext
      cases hnext
    · rw [hnext] at h
      exact Option.some.inj h ▸ hstretch

omit [ChainRules σ β ι τ] in
/-- An empty answer, and nothing is left to get. -/
theorem onInventory_nil (hids : peer.idsOfItemsToGet = []) (hunfetched : peer.numberOfUnfetchedItemIds = 0)
    (synopsis : List ι) :
    ∃ p, { peer with itemIdsRequestedFromPeer := some synopsis }.onInventory n blockTime now [] 0 = .upToDate p :=
  ⟨_, if_pos ⟨rfl, .inl rfl, hids, hunfetched⟩⟩

/-- A peer that has no blocks is left alone. -/
theorem syncRound_nil (h' : m.Tidy chain') (hnil : chain' = []) (hids : peer.idsOfItemsToGet = [])
    (hunfetched : peer.numberOfUnfetchedItemIds = 0) {synopsis : List ι}
    (hrequest : peer.createBlockchainSynopsis n = .ok synopsis) (blockTime : ι → TimePointSec) (now : TimePointSec) :
    ∃ p, syncRound n m blockTime now limit peer = .ok (.upToDate p) := by
  rw [syncRound_eq hrequest (h'.answer_nil hnil synopsis)]
  obtain ⟨p, hp⟩ : ∃ p, { peer with itemIdsRequestedFromPeer := some synopsis }.onInventory n blockTime now [] 0 =
      .upToDate p := onInventory_nil hids hunfetched synopsis
  exact ⟨p, congrArg Except.ok hp⟩

/-- **A round in which the stretch gets longer**, unless there is no request. -/
theorem Stretch.syncRound (h : n.Tidy chain) (h' : m.Tidy chain') (hfit : chain.length + chain'.length + 2 < 2 ^ 32)
    (hlimit : 1 ≤ limit) (hne : chain' ≠ []) {seen got : ℕ} (hs : Stretch n chain chain' peer seen got)
    (blockTime : ι → TimePointSec) (now : TimePointSec) :
    (∃ e, Playchain.syncRound n m blockTime now limit peer =
        (if e = .tooOld then .ok (.disconnected .unableToSwitch) else .error e) ∧
      idAt chain' seen ≠ idAt chain seen ∧ NoRequest n chain (idAt chain' seen) e) ∨
    ∃ outcome, Playchain.syncRound n m blockTime now limit peer = .ok outcome ∧
      RoundResult n chain chain' limit got outcome := by
  have hseen := hs.seen_le
  obtain ⟨e, herr, hwhy⟩ | ⟨synopsis, hrequest, hform⟩ := hs.request h h' hfit
  · refine .inl ⟨e, ?_, hwhy⟩
    rw [Playchain.syncRound, PeerConnection.fetchNextBatch, herr]
    dsimp only
    split <;> rfl
  right
  obtain ⟨rfl, rfl⟩ | ⟨low, hlow₁, hlow, hsynopsis⟩ := hform
  · obtain rfl : seen = 0 := Nat.le_zero.1 hseen
    exact Continues.syncRound h' hne hlimit hs.got_le
      (.first (by rw [hs.ids]; rfl) rfl (hs.empty rfl) (hs.last.trans (idAt_zero _))) hrequest (if_pos (.inl rfl))
      (fun _ ↦ rfl) (absurd rfl) blockTime now
  · have hgot₁ : 1 ≤ got := hlow₁.trans hlow
    have hlast : synopsis.getLast? = some (idAt chain' got) := by
      rw [hsynopsis, List.getLast?_map, Halving.getLast?_points hlow]
      rfl
    have hmem : idAt chain' got ∈ synopsis := List.mem_of_mem_getLast? hlast
    have hcontinues : Continues n chain chain' peer (max 1 got) := by
      rw [max_eq_right hgot₁]
      obtain rfl | hlt := Nat.eq_or_lt_of_le hseen
      · refine .fresh ?_ (hs.known hgot₁)
        rw [hs.ids, Nat.sub_self]
        rfl
      · exact .extends hs hlt
    refine hcontinues.syncRound h' hne hlimit hs.got_le hrequest (h'.answerStart_of_getLast? hgot₁ hs.got_le hlast)
      (fun hnil ↦ ?_) (fun _ ↦ ?_) blockTime now
    · rw [hnil] at hmem
      cases hmem
    · rwa [max_eq_right hgot₁]

/-- The blocks of its chain are known to a node. -/
theorem Node.Tidy.isKnownBlock_idAt (h : n.Tidy chain) {k : ℕ} (h₁ : 1 ≤ k) (hk : k ≤ chain.length) :
    n.isKnownBlock (idAt chain k) = true := by
  have hne := h.linked.idAt_ne_noBlock h₁ hk
  have hlog : n.blockIds (Blocks.numFromId β (idAt chain k)) = some (idAt chain k) := by
    rw [h.linked.num_idAt hk, h.log, if_pos ⟨h₁, hk⟩]
  simp [Node.isKnownBlock, hne, hlog]

/-- The first request is the synopsis of the whole chain. -/
theorem createBlockchainSynopsis_start {synopsis : List ι}
    (hbase : n.getBlockchainSynopsis (Blocks.noBlock β) 0 = .ok synopsis) (genesisTime : TimePointSec) :
    (PeerConnection.start β genesisTime).createBlockchainSynopsis n = .ok synopsis := by
  rw [PeerConnection.createBlockchainSynopsis, PeerConnection.start, List.length_nil, Nat.zero_mod, hbase]
  rfl

/-- **The first round.** The request mentions blocks of the node's own chain, and if the peer has none of them, it is taken
to be up to date. -/
theorem syncRound_start (h : n.Tidy chain) (h' : m.Tidy chain') (hfit : chain.length + chain'.length + 2 < 2 ^ 32)
    (hlimit : 1 ≤ limit) (hne : chain' ≠ []) (genesisTime : TimePointSec) (blockTime : ι → TimePointSec)
    (now : TimePointSec) :
    (∃ num outcome, num ≤ chain'.length ∧ syncRound n m blockTime now limit (.start β genesisTime) = .ok outcome ∧
      RoundResult n chain chain' limit num outcome) ∨
    ((∃ p, syncRound n m blockTime now limit (.start β genesisTime) = .ok (.upToDate p)) ∧
      ∃ ids, n.getBlockchainSynopsis (Blocks.noBlock β) 0 = .ok ids ∧ ids ≠ [] ∧
        ∀ id ∈ ids, ∀ k, id ≠ idAt chain' k) := by
  obtain ⟨synopsis, hbase, hform⟩ := h.getBlockchainSynopsis_noBlock 0 (by omega)
  have hrequest := createBlockchainSynopsis_start hbase genesisTime
  have hend : n.synopsisEnd (Blocks.noBlock β) = idAt chain chain.length := by
    rw [Node.synopsisEnd, if_pos rfl, h.head]
  obtain ⟨rfl, hnil⟩ | ⟨branch, low, hsum⟩ := hform
  · obtain ⟨outcome, hround⟩ := Continues.syncRound h' hne hlimit (Nat.zero_le _) (.first rfl rfl hnil rfl) hrequest
      (if_pos (.inl rfl)) (fun _ ↦ rfl) (absurd rfl) blockTime now
    exact .inl ⟨0, outcome, Nat.zero_le _, hround⟩
  · have hlast := hsum.last.trans hend
    have hlength : branch.length = chain.length := by
      rw [← hsum.linked.num_idAt le_rfl, hlast, h.linked.num_idAt le_rfl]
    rw [hlength] at hlast
    have hsame : ∀ k ≤ chain.length, idAt branch k = idAt chain k := fun k hk ↦
      hsum.linked.idAt_eq_of_le h.linked hlength.ge le_rfl hlast hk
    have hne' (k : ℕ) (hk : k ∈ Node.synopsisNums branch.length 0 low) : idAt branch k ≠ Blocks.noBlock β :=
      hsum.linked.idAt_ne_noBlock (hsum.one_le.trans (Node.mem_synopsisNums hk).1) (Node.mem_synopsisNums hk).2
    by_cases hcommon : ∃ k ∈ Node.synopsisNums branch.length 0 low, idAt branch k = idAt chain' k
    · obtain ⟨num, hmem, hnum, hon, -, hstart⟩ := hsum.lastKnown h' hcommon
      obtain ⟨hlow, hle⟩ := Node.mem_synopsisNums hmem
      have hnum₁ := hsum.one_le.trans hlow
      have hin : idAt chain' num ∈ synopsis := by
        rw [← hon, hsum.ids_eq]
        exact List.mem_map_of_mem hmem
      have hknown : n.isKnownBlock (idAt chain' num) = true := by
        rw [← hon, hsame num (hlength ▸ hle)]
        exact h.isKnownBlock_idAt hnum₁ (hlength ▸ hle)
      have hcontinues : Continues n chain chain' (.start β genesisTime) (max 1 num) := by
        rw [max_eq_right hnum₁]
        exact .fresh rfl hknown
      obtain ⟨outcome, hround⟩ := hcontinues.syncRound h' hne hlimit hnum hrequest hstart
        (fun hnil ↦ absurd (hnil ▸ hin) List.not_mem_nil) (fun _ ↦ by rwa [max_eq_right hnum₁]) blockTime now
      exact .inl ⟨num, outcome, hnum, hround⟩
    -- the peer has none of the blocks that are mentioned
    · have hnone : ∀ id ∈ synopsis, ∀ k, id ≠ idAt chain' k := by
        intro id hid k hk
        rw [hsum.ids_eq] at hid
        obtain ⟨j, hj, rfl⟩ := List.mem_map.1 hid
        have hnum : j = k := by
          by_cases hkLe : k ≤ chain'.length
          · rw [← hsum.linked.num_idAt (Node.mem_synopsisNums hj).2, hk, h'.linked.num_idAt hkLe]
          · obtain ⟨i, rfl⟩ : ∃ i, k = i + 1 := ⟨k - 1, by omega⟩
            refine absurd ?_ (hne' j hj)
            rw [hk, idAt, List.getElem?_eq_none (by omega)]
            rfl
        exact hcommon ⟨j, hj, hnum ▸ hk⟩
      have hstart : m.answerStart synopsis = .error .unreachableFork := by
        rw [hsum.answerStart_eq h', List.find?_eq_none.2 fun id hid ↦ ?_]
        · rfl
        · simpa using hnone id (List.mem_reverse.1 hid) _
      have hempty : m.answer synopsis limit = .ok ([], 0) := by
        rw [Node.answer, Node.getBlockIds, if_neg (by rw [h'.headNum_eq]; exact fun h ↦ hne (List.length_eq_zero_iff.1 h)),
          hstart]
        rfl
      obtain ⟨p, hp⟩ : ∃ p, { PeerConnection.start β genesisTime with
          itemIdsRequestedFromPeer := some synopsis }.onInventory n blockTime now [] 0 = .upToDate p :=
        onInventory_nil rfl rfl synopsis
      refine .inr ⟨⟨p, (syncRound_eq hrequest hempty).trans (congrArg Except.ok hp)⟩, synopsis, hbase, ?_, hnone⟩
      rw [hsum.ids_eq]
      exact List.ne_nil_of_mem (List.mem_map_of_mem (List.mem_of_mem_head? (Node.head?_synopsisNums hsum.low_le)))

/-! ### Runs -/

/-- **What is known of the peer after a number of rounds.** -/
theorem Syncing.stretch (h : n.Tidy chain) (h' : m.Tidy chain') (hfit : chain.length + chain'.length + 2 < 2 ^ 32)
    (hlimit : 1 ≤ limit) {k : ℕ} (hs : Syncing n m blockTime limit k peer) (hk : 1 ≤ k) :
    chain' ≠ [] ∧ ∃ seen got, Stretch n chain chain' peer seen got ∧ min chain'.length (k * (limit - 1) + 1) ≤ got := by
  induction hs with
  | start => omega
  | @round k peer peer' now outcome hs hround hnext ih =>
    obtain rfl | hpos := Nat.eq_zero_or_pos k
    -- the first round
    · cases hs
      have hne : chain' ≠ [] := by
        intro hnil
        obtain ⟨synopsis, hbase, -⟩ := h.getBlockchainSynopsis_noBlock 0 (by omega)
        obtain ⟨p, hp⟩ := syncRound_nil h' hnil rfl rfl (createBlockchainSynopsis_start hbase _) blockTime now
        rw [hp] at hround
        rw [← Except.ok.inj hround] at hnext
        cases hnext
      obtain ⟨num, outcome', -, hround', hresult⟩ | ⟨⟨p, hp⟩, -⟩ :=
        syncRound_start h h' hfit hlimit hne (blockTime (Blocks.noBlock β)) blockTime now
      · obtain rfl := Except.ok.inj (hround'.symm.trans hround)
        obtain ⟨seen, hstretch⟩ := hresult.next _ hnext
        exact ⟨hne, seen, _, hstretch, by omega⟩
      · rw [hp] at hround
        rw [← Except.ok.inj hround] at hnext
        cases hnext
    · obtain ⟨hne, seen, got, hstretch, hgot⟩ := ih hpos
      obtain ⟨e, hstop, -⟩ | ⟨outcome', hround', hresult⟩ := hstretch.syncRound h h' hfit hlimit hne blockTime now
      -- without a request there is no next round
      · rw [hstop] at hround
        split at hround
        · rw [← Except.ok.inj hround] at hnext
          cases hnext
        · cases hround
      · obtain rfl := Except.ok.inj (hround'.symm.trans hround)
        obtain ⟨seen', hstretch'⟩ := hresult.next _ hnext
        refine ⟨hne, seen', _, hstretch', ?_⟩
        have := hstretch.got_le
        rw [Nat.succ_mul]
        omega

/-- What comes of a round after `k` others, when the ids up to the number `got` are known and the node has the block `seen`
of the peer. -/
inductive RoundOf (n : Node σ β ι τ) (chain chain' : List β) (limit k seen got : ℕ) :
    Except SyncError (InventoryOutcome ι) → Prop
  /-- The connection goes on, and the peer is asked again. -/
  | next {outcome : InventoryOutcome ι} {p : PeerConnection ι} {seen' got' : ℕ} (hnext : outcome.next? = some p)
      (hstretch : Stretch n chain chain' p seen' got') (hfirst : k = 0 → min chain'.length limit ≤ got')
      (hlater : 1 ≤ k → got' = min chain'.length (got + limit - 1)) : RoundOf n chain chain' limit k seen got (.ok outcome)
  /-- The peer has nothing new. -/
  | upToDate {p : PeerConnection ι} (h : chain' = [] ∨ n.isKnownBlock (idAt chain' chain'.length) = true ∨
      k = 0 ∧ ∃ ids, n.getBlockchainSynopsis (Blocks.noBlock β) 0 = .ok ids ∧ ids ≠ [] ∧
        ∀ id ∈ ids, ∀ j, id ≠ idAt chain' j) : RoundOf n chain chain' limit k seen got (.ok (.upToDate p))
  | tooManyBlocks : RoundOf n chain chain' limit k seen got (.ok (.disconnected .tooManyBlocks))
  /-- The last block that the peer is known to have is on an old fork. -/
  | unableToSwitch (hk : 1 ≤ k) (hoff : idAt chain' seen ≠ idAt chain seen) (hold : n.OnOldFork chain (idAt chain' seen)) :
      RoundOf n chain chain' limit k seen got (.ok (.disconnected .unableToSwitch))
  /-- The fork database does not connect this block with the head. -/
  | branch (hk : 1 ≤ k) (hoff : idAt chain' seen ≠ idAt chain seen)
      (hnone : n.fork.fetchBranchFrom n.headId (idAt chain' seen) = none) :
      RoundOf n chain chain' limit k seen got (.error .branch)

/-- A round with an answer, as what comes of it. -/
theorem RoundResult.roundOf {num k seen got : ℕ} {outcome : InventoryOutcome ι}
    (h : RoundResult n chain chain' limit num outcome)
    (hfirst : k = 0 → min chain'.length limit ≤ min chain'.length (max 1 num + limit - 1))
    (hlater : 1 ≤ k → min chain'.length (max 1 num + limit - 1) = min chain'.length (got + limit - 1)) :
    RoundOf n chain chain' limit k seen got (.ok outcome) := by
  have hnext {p : PeerConnection ι} (hp : outcome.next? = some p) :
      RoundOf n chain chain' limit k seen got (.ok outcome) := by
    obtain ⟨seen', hstretch⟩ := h.next p hp
    exact .next hp hstretch hfirst hlater
  cases outcome with
  | ignored => exact absurd rfl h.asked
  | disconnected reason =>
    obtain rfl := h.disconnected reason rfl
    exact .tooManyBlocks
  | upToDate p => exact .upToDate (.inr (.inl (h.upToDate p rfl)))
  | fetchSyncItems p => exact hnext rfl
  | fetchNextBatch p => exact hnext rfl

/-- **The ids of an honest peer's blocks are fetched.** Of two tidy nodes, the one asks the other for ids. After each round,
the ids that wait to be fetched are those of a stretch of the peer's chain, which starts right above a block that the node
has, or with the first block if it has none. Each round makes the stretch longer by `limit - 1` ids, or up to the head of the
peer, unless it is the last one: the peer is up to date, it offers too many blocks for the time, or the last block that it
is known to have is on a fork that the node cannot go back to. -/
theorem ids_fetched (h : n.Tidy chain) (h' : m.Tidy chain') (hfit : chain.length + chain'.length + 2 < 2 ^ 32)
    (hlimit : 1 ≤ limit) {k : ℕ} (hs : Syncing n m blockTime limit k peer) :
    ∃ seen got, (1 ≤ k → Stretch n chain chain' peer seen got ∧ min chain'.length (k * (limit - 1) + 1) ≤ got) ∧
      ∀ now, RoundOf n chain chain' limit k seen got (syncRound n m blockTime now limit peer) := by
  obtain rfl | hk := Nat.eq_zero_or_pos k
  · refine ⟨0, 0, fun hk ↦ absurd hk (by omega), fun now ↦ ?_⟩
    cases hs
    by_cases hnil : chain' = []
    · obtain ⟨synopsis, hbase, -⟩ := h.getBlockchainSynopsis_noBlock 0 (by omega)
      obtain ⟨p, hp⟩ := syncRound_nil h' hnil rfl rfl (createBlockchainSynopsis_start hbase _) blockTime now
      exact hp ▸ .upToDate (.inl hnil)
    · obtain ⟨num, outcome, -, hround, hresult⟩ | ⟨⟨p, hp⟩, hnone⟩ :=
        syncRound_start h h' hfit hlimit hnil (blockTime (Blocks.noBlock β)) blockTime now
      · exact hround ▸ hresult.roundOf (fun _ ↦ by omega) nofun
      · exact hp ▸ .upToDate (.inr (.inr ⟨rfl, hnone⟩))
  · obtain ⟨hne, seen, got, hstretch, hgot⟩ := hs.stretch h h' hfit hlimit hk
    refine ⟨seen, got, fun _ ↦ ⟨hstretch, hgot⟩, fun now ↦ ?_⟩
    obtain ⟨e, hstop, hoff, hwhy⟩ | ⟨outcome, hround, hresult⟩ :=
      hstretch.syncRound h h' hfit hlimit hne blockTime now
    · rw [hstop]
      cases hwhy with
      | branch hnone => exact .branch hk hoff hnone
      | tooOld hold => exact .unableToSwitch hk hoff hold
    · have hpos := List.length_pos_iff.2 hne
      exact hround ▸ hresult.roundOf (fun hzero ↦ absurd hzero (by omega)) fun _ ↦ by
        rw [max_eq_right (by omega)]

namespace WitnessChain

/-- The node on the shorter branch, which asks. -/
def askingNode : Node := nodeOn shortChain {} 2

/-- The node on the longer branch, which answers. -/
def answeringNode : Node := nodeOn longChain ForkDatabase.twoBranches 2

/-- What the asking node knows after one round with two ids. -/
def peerAfterRound : PeerConnection (List Entry) where
  idsOfItemsToGet := [idAt longChain 2]
  numberOfUnfetchedItemIds := 1
  lastBlockDelegateHasSeen := idAt longChain 1
  lastBlockTimeDelegateHasSeen := 0

theorem syncing_peerAfterRound : Syncing askingNode answeringNode (fun _ ↦ 0) 2 1 peerAfterRound :=
  .round .start (show syncRound askingNode answeringNode (fun _ ↦ 0) 0 2 _ =
    .ok (.fetchNextBatch peerAfterRound) by decide) rfl

theorem ids_fetched_longChain :
    ∃ seen got, 2 ≤ got ∧ Stretch askingNode shortChain longChain peerAfterRound seen got ∧
      RoundOf askingNode shortChain longChain 2 1 seen got
        (syncRound askingNode answeringNode (fun _ ↦ 0) 0 2 peerAfterRound) := by
  obtain ⟨seen, got, hlast, hround⟩ := ids_fetched tidy_shortNode tidy_longNode (by decide) (show 1 ≤ 2 by decide)
    syncing_peerAfterRound
  obtain ⟨hstretch, hgot⟩ := hlast le_rfl
  exact ⟨seen, got, hgot, hstretch, hround 0⟩

end WitnessChain

end Playchain
