import Playchain.Lib.Control
import Playchain.Lib.Halving
import Playchain.Blocks.Synopsis
import Playchain.Spec.ForkBranches

/-!
# What a synopsis says about a chain

A node is `Tidy` when its block log holds the preferred chain, as it does along runs (`ReadyRun.tidy`). Its synopses
list blocks of one branch, at the points of `Halving.points` (`synopsis_summarises`). A tidy node that is asked with a
synopsis answers with its own blocks, from the latest block of the synopsis on that lies on its chain
(`synopsis_answered`).
-/

namespace Playchain

variable {σ β ι τ : Type} [Blocks β ι τ]

/-! ### Chains of blocks -/

/-- The id of the block with a number. The first block of a chain has number one. -/
def idAt (chain : List β) : ℕ → ι
  | 0 => Blocks.noBlock β
  | k + 1 => ((chain[k]?).map Blocks.id).getD (Blocks.noBlock β)

/-- The chain starts with the first block, and each block names the one before it. -/
structure LinkedChain (chain : List β) : Prop where
  previous : ∀ k b, chain[k]? = some b → Blocks.previous b = idAt chain k

section Chains

variable {chain chain' : List β} {k j : ℕ} {b : β}

@[simp] theorem idAt_zero (chain : List β) : idAt chain 0 = Blocks.noBlock β := rfl

theorem idAt_succ_of_getElem? (h : chain[k]? = some b) : idAt chain (k + 1) = Blocks.id b := by
  rw [idAt, h]
  rfl

theorem idAt_append_of_le (chain rest : List β) (h : k ≤ chain.length) : idAt (chain ++ rest) k = idAt chain k := by
  cases k with
  | zero => rfl
  | succ k => rw [idAt, idAt, List.getElem?_append_left h]

theorem idAt_take (chain : List β) (h : j ≤ k) : idAt (chain.take k) j = idAt chain j := by
  cases j with
  | zero => rfl
  | succ j => rw [idAt, idAt, List.getElem?_take_of_lt h]

namespace LinkedChain

/-- The number of a block is its place. -/
theorem num_idAt (hc : LinkedChain chain) (hk : k ≤ chain.length) : Blocks.numFromId β (idAt chain k) = k := by
  induction k with
  | zero => exact Blocks.numFromId_noBlock
  | succ k ih =>
    have hget := List.getElem?_eq_getElem hk
    rw [idAt_succ_of_getElem? hget, Blocks.numFromId_id, hc.previous k _ hget, ih (Nat.le_of_succ_le hk)]

theorem idAt_ne_noBlock (hc : LinkedChain chain) (h₁ : 1 ≤ k) (hk : k ≤ chain.length) :
    idAt chain k ≠ Blocks.noBlock β := by
  intro h
  have hnum := hc.num_idAt hk
  rw [h, Blocks.numFromId_noBlock] at hnum
  omega

/-- An id on a chain determines the block. -/
theorem getElem?_of_idAt (hc : LinkedChain chain) (hk : k ≤ chain.length) (h : Blocks.id b = idAt chain k) :
    ∃ j, k = j + 1 ∧ chain[j]? = some b := by
  have hnum : k = Blocks.numFromId β (Blocks.previous b) + 1 := by
    rw [← Blocks.numFromId_id, h, hc.num_idAt hk]
  refine ⟨_, hnum, ?_⟩
  have hget := List.getElem?_eq_getElem (show Blocks.numFromId β (Blocks.previous b) < chain.length by omega)
  rw [hnum, idAt_succ_of_getElem? hget] at h
  rw [hget]
  exact congrArg some (Blocks.id_inj h).symm

/-- **Chains that agree at a block agree below it.** -/
theorem idAt_eq_of_le (hc : LinkedChain chain) (hc' : LinkedChain chain') (hk : k ≤ chain.length)
    (hk' : k ≤ chain'.length) (h : idAt chain k = idAt chain' k) (hj : j ≤ k) : idAt chain j = idAt chain' j := by
  induction k with
  | zero => rw [Nat.le_zero.1 hj, idAt_zero, idAt_zero]
  | succ k ih =>
    obtain rfl | hlt := Nat.eq_or_lt_of_le hj
    · exact h
    · have hget := List.getElem?_eq_getElem hk
      have hget' := List.getElem?_eq_getElem hk'
      rw [idAt_succ_of_getElem? hget, idAt_succ_of_getElem? hget'] at h
      have hprev := hc.previous k _ hget
      rw [Blocks.id_inj h, hc'.previous k _ hget'] at hprev
      exact ih (Nat.le_of_succ_le hk) (Nat.le_of_succ_le hk') hprev.symm (Nat.lt_succ_iff.1 hlt)

theorem take (hc : LinkedChain chain) (k : ℕ) : LinkedChain (chain.take k) where
  previous j b h := by
    have hlt : j < k := by
      by_contra hle
      rw [List.getElem?_take_eq_none (not_lt.1 hle)] at h
      cases h
    rw [List.getElem?_take_of_lt hlt] at h
    rw [idAt_take chain hlt.le]
    exact hc.previous j b h

/-- A chain goes on with a block that names its last one. -/
theorem append_singleton (hc : LinkedChain chain) (h : Blocks.previous b = idAt chain chain.length) :
    LinkedChain (chain ++ [b]) where
  previous j x hx := by
    have hlt : j < (chain ++ [b]).length := (List.getElem?_eq_some_iff.1 hx).1
    rw [List.length_append, List.length_singleton] at hlt
    rw [idAt_append_of_le chain [b] (by omega)]
    by_cases hj : j < chain.length
    · rw [List.getElem?_append_left hj] at hx
      exact hc.previous j x hx
    · obtain rfl : j = chain.length := by omega
      rw [List.getElem?_concat_length] at hx
      rw [← Option.some.inj hx, h]

end LinkedChain

/-! ### Branches of the fork database -/

/-- The blocks of a branch, the earliest one first. -/
def branchBlocks (its : List (ForkItem β)) : List β := (its.map ForkItem.data).reverse

theorem branchRoot_cons (it : ForkItem β) (it' : ForkItem β) (its : List (ForkItem β)) :
    Node.branchRoot (it :: it' :: its) = Node.branchRoot (it' :: its) := by
  rw [Node.branchRoot, Node.branchRoot, List.getLast?_cons_cons]

/-- A branch that starts on a chain goes down this chain. -/
theorem LinkedChain.branchRoot_eq (hc : LinkedChain chain) {its : List (ForkItem β)} (hne : its ≠ [])
    (hk : k ≤ chain.length) (hb : Branch (idAt chain k) its) :
    ∃ j, j ≤ chain.length ∧ Node.branchRoot its = idAt chain j := by
  induction its generalizing k with
  | nil => exact absurd rfl hne
  | cons it its ih =>
    obtain ⟨hid, hrest⟩ := hb
    obtain ⟨j, rfl, hget⟩ := hc.getElem?_of_idAt hk hid
    have hprev : it.previousId = idAt chain j := hc.previous j _ hget
    cases its with
    | nil => exact ⟨j, Nat.le_of_succ_le hk, hprev⟩
    | cons it' its =>
      rw [hprev] at hrest
      obtain ⟨i, hi, hroot⟩ := ih (List.cons_ne_nil _ _) (Nat.le_of_succ_le hk) hrest
      exact ⟨i, hi, (branchRoot_cons it it' its).trans hroot⟩

/-- **A branch whose root is on a chain makes another chain.** -/
theorem LinkedChain.append_branch (hc : LinkedChain chain) {its : List (ForkItem β)} (hne : its ≠ []) {id : ι}
    (hk : k ≤ chain.length) (hb : Branch id its) (hroot : Node.branchRoot its = idAt chain k) :
    LinkedChain (chain.take k ++ branchBlocks its) ∧ idAt (chain.take k ++ branchBlocks its) (k + its.length) = id := by
  have htake : (chain.take k).length = k := List.length_take_of_le hk
  induction its generalizing id with
  | nil => exact absurd rfl hne
  | cons it its ih =>
    obtain ⟨rfl, hrest⟩ := hb
    have hblocks : chain.take k ++ branchBlocks (it :: its) = (chain.take k ++ branchBlocks its) ++ [it.data] := by
      rw [branchBlocks, List.map_cons, List.reverse_cons, branchBlocks, List.append_assoc]
    have hlength : (chain.take k ++ branchBlocks its).length = k + its.length := by
      rw [List.length_append, htake, branchBlocks, List.length_reverse, List.length_map]
    rw [hblocks, List.length_cons]
    have hlast : (chain.take k ++ branchBlocks its ++ [it.data])[k + its.length]? = some it.data := by
      rw [← hlength, List.getElem?_concat_length]
    refine ⟨?_, idAt_succ_of_getElem? hlast⟩
    cases its with
    | nil =>
      have hprev : it.previousId = idAt (chain.take k) k := by
        rw [idAt_take chain le_rfl, ← hroot]
        rfl
      refine LinkedChain.append_singleton ?_ ?_
      · rw [branchBlocks, List.map_nil, List.reverse_nil, List.append_nil]
        exact hc.take k
      · rw [hlength, List.length_nil, Nat.add_zero, idAt_append_of_le _ _ htake.ge]
        exact hprev
    | cons it' its =>
      obtain ⟨hlinked, hid⟩ := ih (List.cons_ne_nil _ _) hrest ((branchRoot_cons it it' its).symm.trans hroot)
      refine hlinked.append_singleton ?_
      rw [hlength, hid]
      rfl

end Chains

/-! ### Tidy nodes -/

variable [DecidableEq ι] [ChainRules σ β ι τ]

namespace Node

variable {n : Node σ β ι τ} {chain : List β} {k : ℕ} {id : ι}

/-- **The block log holds exactly the preferred chain**, and the fork database no block that is higher than the head. -/
structure Tidy (n : Node σ β ι τ) (chain : List β) : Prop where
  linked : LinkedChain chain
  head : n.headId = idAt chain chain.length
  log : ∀ k, n.blockIds k = if 1 ≤ k ∧ k ≤ chain.length then some (idAt chain k) else none
  tied : n.fork.Tied
  forkNum : ∀ it ∈ n.fork.index, it.num ≤ chain.length
  /-- There is a record for each block that can be undone. -/
  undo : (n.undoStack.length - if n.pendingSession then 1 else 0) ≤ chain.length
  small : chain.length < 2 ^ 32

namespace Tidy

omit [DecidableEq ι] in
theorem headNum_eq (h : n.Tidy chain) : n.headNum = chain.length := by
  rw [headNum, h.head, h.linked.num_idAt le_rfl]

omit [DecidableEq ι] in
theorem lastNonUndoable_le (h : n.Tidy chain) : n.lastNonUndoableBlockNum ≤ chain.length := by
  have hundo := h.undo
  have hsmall := h.small
  rw [lastNonUndoableBlockNum, h.headNum_eq]
  omega

omit [DecidableEq ι] in
theorem getBlockIdForNum_eq (h : n.Tidy chain) (h₁ : 1 ≤ k) (hk : k ≤ chain.length) :
    n.getBlockIdForNum k = .ok (idAt chain k) := by
  rw [getBlockIdForNum, h.log, if_pos ⟨h₁, hk⟩]

/-- A block is included when it is on the preferred chain. -/
theorem isIncludedBlock_eq (h : n.Tidy chain) (h₁ : 1 ≤ Blocks.numFromId β id)
    (hk : Blocks.numFromId β id ≤ chain.length) :
    n.isIncludedBlock id = .ok (decide (id = idAt chain (Blocks.numFromId β id))) := by
  rw [isIncludedBlock, h.getBlockIdForNum_eq h₁ hk]
  rfl

/-- A known block, of any branch, is not higher than the head. -/
theorem num_of_isKnownBlock (h : n.Tidy chain) (hknown : n.isKnownBlock id = true) :
    1 ≤ Blocks.numFromId β id ∧ Blocks.numFromId β id ≤ chain.length := by
  rw [isKnownBlock, Bool.or_eq_true, Option.isSome_iff_exists] at hknown
  obtain ⟨it, hit⟩ | hlog := hknown
  · obtain ⟨hmem, rfl⟩ := ForkDatabase.mem_of_fetchBlock hit
    rw [← it.num_eq]
    exact ⟨Nat.le_add_left 1 _, h.forkNum it hmem⟩
  · by_contra hout
    have hnone := h.log (Blocks.numFromId β id)
    rw [if_neg hout] at hnone
    simp [hnone] at hlog

/-- The latest block of a synopsis that is on the chain. -/
theorem lastKnownBlockId_eq (h : n.Tidy chain) (ids : List ι) :
    n.lastKnownBlockId ids =
      (ids.find? fun id ↦ id = idAt chain (Blocks.numFromId β id)).elim (.error .unreachableFork) .ok := by
  induction ids with
  | nil => rfl
  | cons id ids ih =>
    rw [lastKnownBlockId]
    by_cases hno : id = Blocks.noBlock β
    · have hon : id = idAt chain (Blocks.numFromId β id) := by
        rw [hno, Blocks.numFromId_noBlock, idAt_zero]
      rw [if_pos hno, List.find?_cons_of_pos (by simpa using hon)]
      rfl
    · rw [if_neg hno]
      by_cases hon : id = idAt chain (Blocks.numFromId β id)
      -- a block of the chain has a number that is in the log
      · have hnum : 1 ≤ Blocks.numFromId β id ∧ Blocks.numFromId β id ≤ chain.length := by
          by_contra hout
          refine hno (hon.trans ?_)
          rcases hn : Blocks.numFromId β id with - | k
          · rfl
          · rw [idAt, List.getElem?_eq_none (by omega)]
            rfl
        have hknown : n.isKnownBlock id = true := by
          have hlog := h.log (Blocks.numFromId β id)
          rw [if_pos hnum, ← hon] at hlog
          simp [isKnownBlock, hno, hlog]
        rw [if_pos hknown, h.isIncludedBlock_eq hnum.1 hnum.2, List.find?_cons_of_pos (by simpa using hon),
          decide_eq_true hon]
        rfl
      · rw [List.find?_cons_of_neg (by simpa using hon)]
        by_cases hknown : n.isKnownBlock id = true
        -- a known block of another branch is not higher than the chain
        · have hnum := h.num_of_isKnownBlock hknown
          rw [if_pos hknown, h.isIncludedBlock_eq hnum.1 hnum.2, decide_eq_false hon]
          exact ih
        · rw [if_neg hknown]
          exact ih

omit [DecidableEq ι] in
/-- The ids of a stretch of the chain. -/
theorem collectBlockIds_eq (h : n.Tidy chain) (limit : ℕ) {num left : ℕ} (h₁ : 1 ≤ num)
    (hleft : num + left = chain.length + 1) :
    n.collectBlockIds left num limit = .ok ((List.range' num (min left limit)).map (idAt chain)) := by
  induction left generalizing num limit with
  | zero => rw [collectBlockIds, Nat.zero_min]; rfl
  | succ left ih =>
    rw [collectBlockIds]
    cases limit with
    | zero => rfl
    | succ limit =>
      rw [if_neg (Nat.succ_ne_zero _), if_neg (Nat.ne_of_gt h₁), h.getBlockIdForNum_eq h₁ (by omega), Except.ok_bind,
        Nat.succ_sub_one, ih limit (by omega) (by omega), Except.ok_bind, Nat.succ_min_succ, List.range'_succ,
        List.map_cons]
      rfl

/-- **The answer to a synopsis**: the ids from a block of the chain on, and the number of those that follow. -/
theorem getBlockIds_eq (h : n.Tidy chain) {synopsis : List ι} {limit : ℕ} {num : ℕ} (hnum : num ≤ chain.length)
    (hne : 1 ≤ chain.length)
    (hstart : n.answerStart synopsis = .ok (idAt chain num)) :
    n.getBlockIds synopsis limit = .ok ((List.range' (max 1 num) (min (chain.length + 1 - max 1 num) limit)).map
      (idAt chain), if limit = 0 then 0 else chain.length + 1 - max 1 num - limit) := by
  have hcollect : n.collectBlockIds (chain.length + 1 - num) num limit =
      .ok ((List.range' (max 1 num) (min (chain.length + 1 - max 1 num) limit)).map (idAt chain)) := by
    cases num with
    | succ num =>
      rw [show max 1 (num + 1) = num + 1 by omega]
      exact h.collectBlockIds_eq limit (by omega) (by omega)
    | zero =>
      rw [Nat.sub_zero, collectBlockIds, show max 1 0 = 1 from rfl, Nat.add_sub_cancel]
      split
      · next hlimit => rw [hlimit, Nat.min_zero]; rfl
      · rw [if_pos rfl, h.collectBlockIds_eq limit le_rfl (by omega)]
  rw [getBlockIds, h.headNum_eq, if_neg (by omega), hstart, Except.ok_bind, h.linked.num_idAt hnum]
  dsimp only
  rw [hcollect, Except.ok_bind]
  congr 2
  rcases hcount : min (chain.length + 1 - max 1 num) limit with - | count
  · rw [if_pos (by omega)]
    simp
  · have hlastNum : Blocks.numFromId β (idAt chain (max 1 num + count)) = max 1 num + count :=
      h.linked.num_idAt (by omega)
    rw [List.range'_concat, List.map_append, List.map_singleton, List.getLast?_concat, Option.map_some,
      Option.getD_some, Nat.one_mul, hlastNum, if_neg (by omega)]
    omega

end Tidy

/-! ### The loop of the synopsis -/

theorem nextLowBlockNum_eq {trueHigh low : ℕ} (hle : low ≤ trueHigh) (hfit : trueHigh + 2 < 2 ^ 32) :
    nextLowBlockNum trueHigh low = Halving.next trueHigh low := by
  rw [nextLowBlockNum, Halving.next]
  omega

theorem points_filter_eq_nil {trueHigh low high : ℕ} (h : high < low) :
    (Halving.points trueHigh low).filter (· ≤ high) = [] := by
  refine List.filter_eq_nil_iff.2 fun k hk ↦ ?_
  have hle := Halving.low_le_of_mem hk
  simp only [decide_eq_true_eq]
  omega

/-- **The loop takes the points up to the end of the branch.** -/
theorem synopsisLoop_eq {pick : ℕ → Except SyncError ι} {f : ℕ → ι} {low₀ high trueHigh : ℕ} (hhigh : high ≤ trueHigh)
    (hfit : trueHigh + 2 < 2 ^ 32) (hpick : ∀ k, low₀ ≤ k → k ≤ high → pick k = .ok (f k)) {fuel low : ℕ}
    (h₀ : low₀ ≤ low) (hle : low ≤ high) (hfuel : high < fuel + low) :
    synopsisLoop pick high trueHigh fuel low =
      .ok (((Halving.points trueHigh low).filter (· ≤ high)).map f) := by
  induction fuel generalizing low with
  | zero => omega
  | succ fuel ih =>
    have hnext := nextLowBlockNum_eq (hle.trans hhigh) hfit
    have hlt := Halving.lt_next trueHigh low
    rw [synopsisLoop, hpick low h₀ hle, Except.ok_bind, hnext]
    by_cases hmore : Halving.next trueHigh low ≤ high
    · have hpoints : Halving.points trueHigh low = low :: Halving.points trueHigh (Halving.next trueHigh low) :=
        Halving.points_of_lt (by omega)
      rw [if_pos hmore, ih (h₀.trans hlt.le) hmore (by omega), hpoints, List.filter_cons_of_pos (by simpa using hle),
        List.map_cons, Except.ok_bind]
      rfl
    · rw [if_neg hmore]
      have hpoints : (Halving.points trueHigh low).filter (· ≤ high) = [low] := by
        by_cases hend : low < trueHigh
        · rw [Halving.points_of_lt hend, List.filter_cons_of_pos (by simpa using hle),
            points_filter_eq_nil (not_le.1 hmore)]
        · rw [Halving.points_of_le (not_lt.1 hend), List.filter_cons_of_pos (by simpa using hle), List.filter_nil]
      rw [hpoints]
      rfl

/-- The numbers of the blocks in a synopsis of a branch of some length. -/
def synopsisNums (length after low : ℕ) : List ℕ := (Halving.points (length + after) low).filter (· ≤ length)

omit [ChainRules σ β ι τ] in
/-- The last part of the function, on a branch of known ids. -/
theorem synopsisBetween_eq {low nonForkHigh : ℕ} {forkHistory : List ι} {after : ℕ} {branch : List β}
    (hfit : branch.length + after + 2 < 2 ^ 32) (hlow : low ≤ branch.length) (hne : 1 ≤ branch.length)
    (hmain : ∀ k, 1 ≤ k → k ≤ nonForkHigh → n.getBlockIdForNum k = .ok (idAt branch k))
    (hfork : ∀ k, nonForkHigh < k → k ≤ branch.length → forkHistory[k - nonForkHigh - 1]? = some (idAt branch k)) :
    n.synopsisBetween low nonForkHigh branch.length forkHistory after =
      .ok ((synopsisNums branch.length after (max 1 low)).map (idAt branch)) := by
  have hstart : (if low = 0 then 1 else low) = max 1 low := by
    split <;> omega
  rw [synopsisBetween, hstart, Nat.mod_eq_of_lt (by omega)]
  refine synopsisLoop_eq (Nat.le_add_right _ _) hfit (fun k (h₁ : 1 ≤ k) hk ↦ ?_) (le_max_left _ _)
    (max_le hne hlow) (by omega)
  by_cases hmainNum : k ≤ nonForkHigh
  · rw [if_pos hmainNum, hmain k h₁ hmainNum]
  · rw [if_neg hmainNum, hfork k (not_le.1 hmainNum) hk]
    rfl

/-! ### The synopsis -/

/-- The block that a synopsis leads up to. -/
def synopsisEnd (n : Node σ β ι τ) (referencePoint : ι) : ι :=
  if referencePoint = Blocks.noBlock β then n.headId else referencePoint

/-- The ids are those of the points of a branch that ends with the reference point. -/
structure Summarises (n : Node σ β ι τ) (referencePoint : ι) (after : ℕ) (ids : List ι) (branch : List β) (low : ℕ) :
    Prop where
  linked : LinkedChain branch
  last : idAt branch branch.length = n.synopsisEnd referencePoint
  one_le : 1 ≤ low
  low_le : low ≤ branch.length
  floor : low ≤ max 1 n.lastNonUndoableBlockNum
  ids_eq : ids = (synopsisNums branch.length after low).map (idAt branch)

/-- **The node cannot switch to the fork**: the block is on a branch that leaves the chain below the last block that cannot
be undone. -/
def OnOldFork (n : Node σ β ι τ) (chain : List β) (id : ι) : Prop :=
  ∃ (j : ℕ) (its : List (ForkItem β)), j ≤ chain.length ∧ its ≠ [] ∧ Branch id its ∧ branchRoot its = idAt chain j ∧
    j < n.lastNonUndoableBlockNum

/-- The results of `get_blockchain_synopsis`. -/
inductive SynopsisResult (n : Node σ β ι τ) (chain : List β) (referencePoint : ι) (after : ℕ) :
    Except SyncError (List ι) → Prop
  | empty (href : referencePoint = Blocks.noBlock β) (hnil : chain = []) :
      SynopsisResult n chain referencePoint after (.ok [])
  | ids {ids : List ι} {branch : List β} {low : ℕ} (h : n.Summarises referencePoint after ids branch low) :
      SynopsisResult n chain referencePoint after (.ok ids)
  | unknown (hout : ¬(1 ≤ Blocks.numFromId β referencePoint ∧ Blocks.numFromId β referencePoint ≤ chain.length)) :
      SynopsisResult n chain referencePoint after (.error .keyNotFound)
  | branch (hoff : referencePoint ≠ idAt chain (Blocks.numFromId β referencePoint))
      (hnone : n.fork.fetchBranchFrom n.headId referencePoint = none) :
      SynopsisResult n chain referencePoint after (.error .branch)
  | tooOld (hoff : referencePoint ≠ idAt chain (Blocks.numFromId β referencePoint))
      (hold : n.OnOldFork chain referencePoint) : SynopsisResult n chain referencePoint after (.error .tooOld)

namespace Tidy

variable {referencePoint : ι} {after : ℕ} {ids : List ι}

/-- A synopsis up to a block of the preferred chain. -/
theorem summarises_included (h : n.Tidy chain) {num : ℕ} (h₁ : 1 ≤ num) (hnum : num ≤ chain.length) {low : ℕ}
    (hlow : low ≤ num) (hfloor : low ≤ n.lastNonUndoableBlockNum) (hend : n.synopsisEnd referencePoint = idAt chain num)
    (hfit : num + after + 2 < 2 ^ 32) :
    ∃ ids, n.synopsisBetween low num num [] after = .ok ids ∧
      n.Summarises referencePoint after ids (chain.take num) (max 1 low) := by
  have hlength : (chain.take num).length = num := List.length_take_of_le hnum
  have hids : n.synopsisBetween low num (chain.take num).length [] after =
      .ok ((synopsisNums (chain.take num).length after (max 1 low)).map (idAt (chain.take num))) :=
    synopsisBetween_eq (by rwa [hlength]) (by rwa [hlength]) (by rwa [hlength])
    (fun k h₁ hk ↦ by rw [idAt_take chain hk, h.getBlockIdForNum_eq h₁ (hk.trans hnum)])
    (fun k hk hk' ↦ by rw [hlength] at hk'; omega)
  rw [hlength] at hids
  refine ⟨_, hids, h.linked.take num, ?_, le_max_left _ _, ?_, max_le_max_left 1 hfloor, ?_⟩
  · rw [hlength, idAt_take chain le_rfl, hend]
  · rw [hlength]
    exact max_le h₁ hlow
  · rw [hlength]

/-- A synopsis up to a block of another branch. -/
theorem summarises_fork (h : n.Tidy chain) {j : ℕ} (hj : j ≤ chain.length) {its : List (ForkItem β)} (hne : its ≠ [])
    (hb : Branch referencePoint its) (hroot : branchRoot its = idAt chain j) (hfloor : n.lastNonUndoableBlockNum ≤ j)
    (href : referencePoint ≠ Blocks.noBlock β) (hfit : Blocks.numFromId β referencePoint + after + 2 < 2 ^ 32) :
    ∃ ids, n.synopsisBetween n.lastNonUndoableBlockNum j (j + its.length) (its.map ForkItem.id).reverse after =
        .ok ids ∧
      n.Summarises referencePoint after ids (chain.take j ++ branchBlocks its) (max 1 n.lastNonUndoableBlockNum) := by
  obtain ⟨hlinked, hend⟩ := h.linked.append_branch hne hj hb hroot
  have hits : 1 ≤ its.length := List.length_pos_iff.2 hne
  have htake : (chain.take j).length = j := List.length_take_of_le hj
  have hblocks : (branchBlocks its).length = its.length := by
    rw [branchBlocks, List.length_reverse, List.length_map]
  have hlength : (chain.take j ++ branchBlocks its).length = j + its.length := by
    rw [List.length_append, htake, hblocks]
  have hnumEnd : Blocks.numFromId β referencePoint = j + its.length := by
    rw [← hend, hlinked.num_idAt hlength.ge]
  let branch := chain.take j ++ branchBlocks its
  have hids : n.synopsisBetween n.lastNonUndoableBlockNum j branch.length
      (its.map ForkItem.id).reverse after = .ok ((synopsisNums branch.length after
        (max 1 n.lastNonUndoableBlockNum)).map (idAt branch)) :=
    synopsisBetween_eq (by rw [hlength, ← hnumEnd]; exact hfit) (by rw [hlength]; omega)
    (by rw [hlength]; omega)
    (fun k h₁ hk ↦ by
      rw [idAt_append_of_le _ _ (htake.symm ▸ hk), idAt_take chain hk, h.getBlockIdForNum_eq h₁ (hk.trans hj)])
    (fun k hk hk' ↦ by
      obtain ⟨i, rfl⟩ : ∃ i, k = j + i + 1 := ⟨k - j - 1, by omega⟩
      have hi : i < (branchBlocks its).length := by
        rw [hlength] at hk'
        omega
      have hget : (chain.take j ++ branchBlocks its)[j + i]? = (branchBlocks its)[i]? := by
        rw [List.getElem?_append_right (by rw [htake]; omega), htake, Nat.add_sub_cancel_left]
      have hmap : (its.map ForkItem.id).reverse = (branchBlocks its).map Blocks.id := by
        rw [branchBlocks, List.map_reverse, List.map_map]
        rfl
      rw [show j + i + 1 - j - 1 = i by omega, idAt, hget, hmap, List.getElem?_map, List.getElem?_eq_getElem hi,
        Option.map_some, Option.getD_some])
  rw [hlength] at hids
  refine ⟨_, hids, hlinked, ?_, le_max_left _ _, ?_, le_rfl, ?_⟩
  · rw [hlength, hend, synopsisEnd, if_neg href]
  · rw [hlength]
    omega
  · rw [hlength]

theorem getBlockIdsOnFork_error {e : SyncError} (herr : n.getBlockIdsOnFork referencePoint = .error e) :
    e = .branch ∧ n.fork.fetchBranchFrom n.headId referencePoint = none := by
  rw [getBlockIdsOnFork] at herr
  split at herr
  · next hnone => exact ⟨(Except.error.inj herr).symm, hnone⟩
  · cases herr

/-- What `get_block_ids_on_fork` returns are the ids of a branch that starts from the preferred chain. -/
theorem getBlockIdsOnFork_ok (h : n.Tidy chain) {forkIds : List ι} {root : ι}
    (hok : n.getBlockIdsOnFork referencePoint = .ok (forkIds, root)) :
    ∃ (j : ℕ) (its : List (ForkItem β)), j ≤ chain.length ∧ its ≠ [] ∧ Branch referencePoint its ∧ branchRoot its = idAt chain j ∧
      root = idAt chain j ∧ forkIds = its.map ForkItem.id := by
  rw [getBlockIdsOnFork] at hok
  cases hfetch : n.fork.fetchBranchFrom n.headId referencePoint with
  | none =>
    rw [hfetch] at hok
    cases hok
  | some branches =>
    obtain ⟨first, second⟩ := branches
    rw [hfetch] at hok
    obtain ⟨rfl, rfl⟩ := Prod.mk.inj (Except.ok.inj hok)
    obtain ⟨⟨hfirst, -⟩, ⟨hsecond, -⟩, as, bs, x, y, rfl, rfl, hroot⟩ := h.tied.fetchBranchFrom_branch hfetch
    rw [h.head] at hfirst
    obtain ⟨j, hj, hrootFirst⟩ := h.linked.branchRoot_eq (by simp) le_rfl hfirst
    refine ⟨j, bs ++ [y], hj, by simp, hsecond, ?_, hrootFirst, rfl⟩
    rw [← hrootFirst, branchRoot, branchRoot, List.getLast?_concat, List.getLast?_concat, Option.map_some,
      Option.map_some, hroot]

/-- Without a reference point the synopsis is that of the whole chain. -/
theorem getBlockchainSynopsis_noBlock (h : n.Tidy chain) (after : ℕ) (hfit : chain.length + after + 2 < 2 ^ 32) :
    ∃ ids, n.getBlockchainSynopsis (Blocks.noBlock β) after = .ok ids ∧
      ((ids = [] ∧ chain = []) ∨ ∃ branch low, n.Summarises (Blocks.noBlock β) after ids branch low) := by
  rw [getBlockchainSynopsis, if_neg (not_not.2 rfl), h.headNum_eq]
  split
  · next hempty => exact ⟨[], rfl, .inl ⟨rfl, List.length_eq_zero_iff.1 hempty⟩⟩
  · next hne =>
    have hend : n.synopsisEnd (Blocks.noBlock β) = idAt chain chain.length := by
      rw [synopsisEnd, if_pos rfl, h.head]
    obtain ⟨ids, hids, hsum⟩ := h.summarises_included (Nat.one_le_iff_ne_zero.2 hne) le_rfl h.lastNonUndoable_le le_rfl
      hend hfit
    exact ⟨ids, hids, .inr ⟨_, _, hsum⟩⟩

/-- **A synopsis lists blocks of one branch**, and there is none of a block that is not known, of one that the fork database
does not connect with the head, and of one on an old fork. -/
theorem getBlockchainSynopsis_result (h : n.Tidy chain)
    (hfit : Blocks.numFromId β (n.synopsisEnd referencePoint) + after + 2 < 2 ^ 32) :
    n.SynopsisResult chain referencePoint after (n.getBlockchainSynopsis referencePoint after) := by
  by_cases href : referencePoint = Blocks.noBlock β
  · subst href
    rw [synopsisEnd, if_pos rfl, h.head, h.linked.num_idAt le_rfl] at hfit
    obtain ⟨ids, hids, ⟨rfl, hnil⟩ | ⟨branch, low, hsum⟩⟩ := h.getBlockchainSynopsis_noBlock after hfit
    · exact hids ▸ .empty rfl hnil
    · exact hids ▸ .ids hsum
  · have hend : n.synopsisEnd referencePoint = referencePoint := if_neg href
    rw [getBlockchainSynopsis, if_pos href]
    rw [hend] at hfit
    by_cases hnum : 1 ≤ Blocks.numFromId β referencePoint ∧ Blocks.numFromId β referencePoint ≤ chain.length
    · rw [h.isIncludedBlock_eq hnum.1 hnum.2, Except.ok_bind]
      by_cases hon : referencePoint = idAt chain (Blocks.numFromId β referencePoint)
      · obtain ⟨ids, hids, hsum⟩ := h.summarises_included hnum.1 hnum.2 (min_le_left _ _) (min_le_right _ _)
          (hend.trans hon) hfit
        rw [decide_eq_true hon, if_pos rfl, hids]
        exact .ids hsum
      · rw [decide_eq_false hon, if_neg Bool.false_ne_true]
        cases hfork : n.getBlockIdsOnFork referencePoint with
        | error e =>
          obtain ⟨rfl, hnone⟩ := getBlockIdsOnFork_error hfork
          exact .branch hon hnone
        | ok result =>
          obtain ⟨forkIds, root⟩ := result
          obtain ⟨j, its, hj, hne, hb, hroot, rfl, rfl⟩ := h.getBlockIdsOnFork_ok hfork
          rw [Except.ok_bind]
          dsimp only
          rw [h.linked.num_idAt hj, List.length_map]
          split
          · next hold => exact .tooOld hon ⟨j, its, hj, hne, hb, hroot, hold⟩
          · next hnew =>
            obtain ⟨ids, hids, hsum⟩ := h.summarises_fork hj hne hb hroot (not_lt.1 hnew) href hfit
            rw [hids]
            exact .ids hsum
    · have hmissing : n.isIncludedBlock referencePoint = .error .keyNotFound := by
        rw [isIncludedBlock, getBlockIdForNum, h.log, if_neg hnum]
        rfl
      rw [hmissing]
      exact .unknown hnum

/-- A synopsis that is returned. -/
theorem getBlockchainSynopsis_ok (h : n.Tidy chain) (hok : n.getBlockchainSynopsis referencePoint after = .ok ids)
    (hfit : Blocks.numFromId β (n.synopsisEnd referencePoint) + after + 2 < 2 ^ 32) :
    (ids = [] ∧ referencePoint = Blocks.noBlock β ∧ chain = []) ∨
      ∃ branch low, n.Summarises referencePoint after ids branch low := by
  have hresult := h.getBlockchainSynopsis_result hfit
  rw [hok] at hresult
  cases hresult with
  | empty href hnil => exact .inl ⟨rfl, href, hnil⟩
  | ids hsum => exact .inr ⟨_, _, hsum⟩

end Tidy

/-! ### The guarantees -/

variable {referencePoint : ι} {after low : ℕ} {ids : List ι} {branch : List β}

omit [DecidableEq ι] in
theorem mem_synopsisNums {length k : ℕ} (hk : k ∈ synopsisNums length after low) : low ≤ k ∧ k ≤ length := by
  obtain ⟨hmem, hle⟩ := List.mem_filter.1 hk
  exact ⟨Halving.low_le_of_mem hmem, of_decide_eq_true hle⟩

omit [DecidableEq ι] in
theorem pairwise_synopsisNums (length after low : ℕ) : (synopsisNums length after low).Pairwise (· < ·) :=
  (Halving.pairwise_points _ _).filter _

omit [DecidableEq ι] in
theorem head?_synopsisNums {length : ℕ} (h : low ≤ length) : (synopsisNums length after low).head? = some low := by
  rw [synopsisNums, Halving.points, List.filter_cons_of_pos (by simpa using h)]
  rfl

omit [DecidableEq ι] in
/-- Without blocks after the reference point, nothing is left out at the end. -/
theorem synopsisNums_zero {length : ℕ} (h : low ≤ length) : synopsisNums length 0 low = Halving.points length low :=
  List.filter_eq_self.2 fun _ hk ↦ decide_eq_true (Halving.le_high_of_mem h hk)

/-- **A synopsis summarises a branch.** It lists blocks of the branch that ends with the reference point, or with the head
if there is none, with increasing numbers; it starts at the last block that cannot be undone, or below, and leads up to the
end of the branch if no blocks are to follow. It has at most 33 entries. -/
theorem Tidy.synopsis_summarises (h : n.Tidy chain) (hne : chain ≠ [])
    (hok : n.getBlockchainSynopsis referencePoint after = .ok ids)
    (hfit : Blocks.numFromId β (n.synopsisEnd referencePoint) + after + 2 < 2 ^ 32) :
    ∃ (branch : List β) (nums : List ℕ), LinkedChain branch ∧ idAt branch branch.length = n.synopsisEnd referencePoint ∧
      ids = nums.map (idAt branch) ∧ nums.Pairwise (· < ·) ∧ (∀ k ∈ nums, 1 ≤ k ∧ k ≤ branch.length) ∧
      (∃ low, nums.head? = some low ∧ low ≤ max 1 n.lastNonUndoableBlockNum) ∧
      (after = 0 → ids.getLast? = some (n.synopsisEnd referencePoint)) ∧ ids.length ≤ 33 := by
  obtain ⟨-, -, hnil⟩ | ⟨branch, low, hs⟩ := h.getBlockchainSynopsis_ok hok hfit
  · exact absurd hnil hne
  · have hlength : branch.length = Blocks.numFromId β (n.synopsisEnd referencePoint) := by
      rw [← hs.last, hs.linked.num_idAt le_rfl]
    refine ⟨branch, _, hs.linked, hs.last, hs.ids_eq, pairwise_synopsisNums _ _ _, fun k hk ↦ ?_,
      ⟨low, head?_synopsisNums hs.low_le, hs.floor⟩, fun hafter ↦ ?_, ?_⟩
    · have hmem := mem_synopsisNums hk
      exact ⟨hs.one_le.trans hmem.1, hmem.2⟩
    · rw [hs.ids_eq, hafter, synopsisNums_zero hs.low_le, List.getLast?_map, Halving.getLast?_points hs.low_le,
        Option.map_some, hs.last]
    · rw [hs.ids_eq, List.length_map]
      exact (List.length_filter_le _ _).trans (Halving.length_points_le (by omega))

/-- The block that the answer to a synopsis starts with is looked for on the chain. -/
theorem Summarises.answerStart_eq {m : Node σ β ι τ} {chain' : List β}
    (hs : n.Summarises referencePoint after ids branch low) (hm : m.Tidy chain') :
    m.answerStart ids =
      (ids.reverse.find? fun id ↦ id = idAt chain' (Blocks.numFromId β id)).elim (.error .unreachableFork) .ok := by
  have hmem : idAt branch low ∈ ids := by
    rw [hs.ids_eq]
    exact List.mem_map_of_mem (List.mem_of_mem_head? (head?_synopsisNums hs.low_le))
  rw [← hm.lastKnownBlockId_eq]
  refine if_neg ?_
  rintro (hnil | hno)
  · rw [hnil] at hmem
    cases hmem
  · rw [hno] at hmem
    exact hs.linked.idAt_ne_noBlock hs.one_le hs.low_le (List.mem_singleton.1 hmem)

/-- The latest block of a synopsis that lies on a chain, and those before it. -/
theorem Summarises.lastKnown {m : Node σ β ι τ} {chain' : List β} (hs : n.Summarises referencePoint after ids branch low)
    (hm : m.Tidy chain')
    (hcommon : ∃ k ∈ synopsisNums branch.length after low, idAt branch k = idAt chain' k) :
    ∃ k ∈ synopsisNums branch.length after low, k ≤ chain'.length ∧ idAt branch k = idAt chain' k ∧
      (∀ j ∈ synopsisNums branch.length after low, idAt branch j = idAt chain' j → j ≤ k) ∧
      m.answerStart ids = .ok (idAt chain' k) := by
  have hnum {k : ℕ} (hk : k ∈ synopsisNums branch.length after low) : Blocks.numFromId β (idAt branch k) = k :=
    hs.linked.num_idAt (mem_synopsisNums hk).2
  rw [hs.answerStart_eq hm]
  cases hfind : ids.reverse.find? fun id ↦ id = idAt chain' (Blocks.numFromId β id) with
  | none =>
    obtain ⟨k, hk, hon⟩ := hcommon
    have hmem : idAt branch k ∈ ids := by
      rw [hs.ids_eq]
      exact List.mem_map_of_mem hk
    have hnone := List.find?_eq_none.1 hfind _ (List.mem_reverse.2 hmem)
    rw [hnum hk, hon] at hnone
    simp at hnone
  | some id =>
    obtain ⟨hon, as, bs, hsplit, hbefore⟩ := List.find?_eq_some_iff_append.1 hfind
    rw [hs.ids_eq, ← List.map_reverse, List.map_eq_append_iff] at hsplit
    obtain ⟨ks, ks', hks, rfl, hks'⟩ := hsplit
    obtain ⟨k, js, rfl, rfl, -⟩ := List.map_eq_cons_iff.1 hks'
    have hsorted : (ks ++ k :: js).Pairwise (· > ·) := by
      rw [← hks, List.pairwise_reverse]
      exact pairwise_synopsisNums _ _ _
    have hk : k ∈ synopsisNums branch.length after low := by
      rw [← List.mem_reverse, hks]
      simp
    have hon : idAt branch k = idAt chain' k := by
      have := of_decide_eq_true hon
      rwa [hnum hk] at this
    refine ⟨k, hk, ?_, hon, fun j hj hjon ↦ ?_, congrArg Except.ok hon⟩
    -- beyond the chain there is no block
    · by_contra hlt
      refine hs.linked.idAt_ne_noBlock (hs.one_le.trans (mem_synopsisNums hk).1) (mem_synopsisNums hk).2 ?_
      obtain ⟨i, rfl⟩ : ∃ i, k = i + 1 := ⟨k - 1, by have := hs.one_le.trans (mem_synopsisNums hk).1; omega⟩
      rw [hon, idAt, List.getElem?_eq_none (by omega)]
      rfl
    · rw [← List.mem_reverse, hks, List.mem_append, List.mem_cons] at hj
      obtain hjks | rfl | hjjs := hj
      -- the later ones are not on the chain
      · have hnot := hbefore _ (List.mem_map_of_mem hjks)
        have hjmem : j ∈ synopsisNums branch.length after low := by
          rw [← List.mem_reverse, hks]
          exact List.mem_append_left _ hjks
        rw [hnum hjmem, hjon] at hnot
        simp at hnot
      · exact le_rfl
      · exact (List.pairwise_cons.1 (List.pairwise_append.1 hsorted).2.1).1 j hjjs |>.le

/-- **A synopsis is answered.** Let the first block of a synopsis of a node be on the chain of another one. Then that one
answers without an exception, from the latest block of the synopsis on that lies on its chain: up to this block, the two
chains agree. The answer lists the blocks of its chain one after the other, and counts those that follow. -/
theorem synopsis_answered {m : Node σ β ι τ} {chain' : List β} {limit : ℕ} (h : n.Tidy chain) (hm : m.Tidy chain')
    (hok : n.getBlockchainSynopsis referencePoint after = .ok ids)
    (hfit : Blocks.numFromId β (n.synopsisEnd referencePoint) + after + 2 < 2 ^ 32)
    (hcommon : ∃ k, 1 ≤ k ∧ k ≤ chain'.length ∧ ids.head? = some (idAt chain' k)) (hlimit : 1 ≤ limit) :
    ∃ (branch : List β) (nums : List ℕ) (start : ℕ), LinkedChain branch ∧
      idAt branch branch.length = n.synopsisEnd referencePoint ∧ ids = nums.map (idAt branch) ∧ start ∈ nums ∧
      (∀ k ≤ start, idAt branch k = idAt chain' k) ∧ (∀ k ∈ nums, idAt branch k = idAt chain' k → k ≤ start) ∧
      start ≤ chain'.length ∧
      m.getBlockIds ids limit = .ok ((List.range' start (min (chain'.length + 1 - start) limit)).map (idAt chain'),
        chain'.length + 1 - start - limit) := by
  obtain ⟨k, h₁, hk, hhead⟩ := hcommon
  obtain ⟨rfl, -, -⟩ | ⟨branch, low, hs⟩ := h.getBlockchainSynopsis_ok hok hfit
  · cases hhead
  · have hheadLow : idAt branch low = idAt chain' k := by
      rw [hs.ids_eq, List.head?_map, head?_synopsisNums hs.low_le, Option.map_some] at hhead
      exact Option.some.inj hhead
    have hlowEq : low = k := by
      rw [← hs.linked.num_idAt hs.low_le, hheadLow, hm.linked.num_idAt hk]
    subst hlowEq
    obtain ⟨start, hstart, hle, hon, hlatest, hanswer⟩ :=
      hs.lastKnown hm ⟨low, List.mem_of_mem_head? (head?_synopsisNums hs.low_le), hheadLow⟩
    have hone : 1 ≤ start := h₁.trans (mem_synopsisNums hstart).1
    refine ⟨branch, _, start, hs.linked, hs.last, hs.ids_eq, hstart, fun j hj ↦ ?_, hlatest, hle, ?_⟩
    · exact hs.linked.idAt_eq_of_le hm.linked (mem_synopsisNums hstart).2 hle hon hj
    · rw [hm.getBlockIds_eq hle (h₁.trans hk) hanswer, max_eq_right hone, if_neg (by omega)]

end Node

/-! ### Two nodes -/

namespace WitnessChain

/-- The chain of a node that follows the longer branch of `twoBranches`, and that of one on the shorter branch. -/
def longChain : List Block :=
  [⟨{ tag := 1 }, []⟩, ⟨{ tag := 2 }, [{ tag := 1 }]⟩, ⟨{ tag := 4 }, [{ tag := 2 }, { tag := 1 }]⟩]

def shortChain : List Block := [⟨{ tag := 1 }, []⟩, ⟨{ tag := 3 }, [{ tag := 1 }]⟩]

/-- A node with a chain of which some blocks can be undone. -/
def nodeOn (chain : List Block) (fork : ForkDatabase Block) (undoable : ℕ) : Node where
  state := { head := idAt chain chain.length }
  undoStack := List.replicate undoable {}
  fork := fork
  blockIds k := if 1 ≤ k ∧ k ≤ chain.length then some (idAt chain k) else none

theorem tidy_nodeOn {chain : List Block} {fork : ForkDatabase Block} {undoable : ℕ}
    (hlinked : ∀ k ∈ List.range chain.length, ∀ b ∈ chain[k]?, Blocks.previous b = idAt chain k) (htied : fork.Tied)
    (hfork : ∀ it ∈ fork.index, it.num ≤ chain.length) (hundo : undoable ≤ chain.length)
    (hsmall : chain.length < 2 ^ 32) : (nodeOn chain fork undoable).Tidy chain where
  linked := ⟨fun k b hb ↦ hlinked k (List.mem_range.2 (List.getElem?_eq_some_iff.1 hb).1) b hb⟩
  head := rfl
  log _ := rfl
  tied := htied
  forkNum := hfork
  undo := by
    rw [nodeOn, List.length_replicate]
    exact hundo
  small := hsmall

theorem tidy_longNode : (nodeOn longChain ForkDatabase.twoBranches 2).Tidy longChain :=
  tidy_nodeOn (by decide) ForkDatabase.tied_twoBranches (by decide) (by decide) (by decide)

theorem tidy_shortNode : (nodeOn shortChain {} 2).Tidy shortChain :=
  tidy_nodeOn (by decide) ⟨by decide, by simp [ForkDatabase.alive], by decide, by decide⟩ (by decide) (by decide)
    (by decide)

/-- The node on the longer branch mentions its first and its third block. -/
theorem synopsis_longNode : (nodeOn longChain ForkDatabase.twoBranches 2).getBlockchainSynopsis [] 0 =
    .ok [idAt longChain 1, idAt longChain 3] := by
  decide +kernel

theorem lastNonUndoable_longNode :
    (nodeOn longChain ForkDatabase.twoBranches 2).lastNonUndoableBlockNum = 1 := by
  decide

theorem synopsis_summarises_longChain :
    ∃ (branch : List Block) (nums : List ℕ), LinkedChain branch ∧ idAt branch branch.length = idAt longChain 3 ∧
      [idAt longChain 1, idAt longChain 3] = nums.map (idAt branch) ∧ nums.Pairwise (· < ·) ∧
      (∀ k ∈ nums, 1 ≤ k ∧ k ≤ branch.length) ∧ (∃ low, nums.head? = some low ∧ low ≤ 1) ∧
      [idAt longChain 1, idAt longChain 3].getLast? = some (idAt longChain 3) ∧
      [idAt longChain 1, idAt longChain 3].length ≤ 33 := by
  obtain ⟨branch, nums, hlinked, hlast, hids, hsorted, hbounds, hlow, hend, hlength⟩ :=
    tidy_longNode.synopsis_summarises (by decide) synopsis_longNode (by decide)
  rw [lastNonUndoable_longNode, max_self] at hlow
  exact ⟨branch, nums, hlinked, hlast, hids, hsorted, hbounds, hlow, hend rfl, hlength⟩

/-- The node on the shorter branch answers with its two blocks. -/
theorem synopsis_answered_shortChain :
    ∃ (branch : List Block) (nums : List ℕ) (start : ℕ), LinkedChain branch ∧
      idAt branch branch.length = idAt longChain 3 ∧
      [idAt longChain 1, idAt longChain 3] = nums.map (idAt branch) ∧ start ∈ nums ∧
      (∀ k ≤ start, idAt branch k = idAt shortChain k) ∧ (∀ k ∈ nums, idAt branch k = idAt shortChain k → k ≤ start) ∧
      start ≤ 2 ∧ (nodeOn shortChain {} 2).getBlockIds [idAt longChain 1, idAt longChain 3] 10 =
        .ok ((List.range' start (min (3 - start) 10)).map (idAt shortChain), 3 - start - 10) :=
  Node.synopsis_answered tidy_longNode tidy_shortNode synopsis_longNode (by decide) ⟨1, by decide, by decide, by decide⟩
    (show 1 ≤ 10 by decide)

end WitnessChain

end Playchain
