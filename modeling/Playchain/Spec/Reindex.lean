import Playchain.Blocks.Reindex
import Playchain.Spec.BlockLog
import Playchain.Spec.ForkHeads

/-!
# Reindexing over a gap

A block log has the blocks below a gap, and perhaps blocks above it (`GapLog`). When the reader comes to the gap, the
blocks that it has read ahead are still in the queue, and the log is cut at the applier's counter: they are removed from the
log as well. Those that are pushed afterwards are stored again, those that are only applied are lost
(`reindex_gap`). The head is always the block below the gap.
-/

namespace Playchain

/-! ### The log as a map -/

namespace LogMap

variable {β ι τ : Type*} [Blocks β ι τ] {m : FlatMap ℕ β}

/-- Blocks are stored under their numbers. -/
def Keyed (m : FlatMap ℕ β) : Prop := ∀ k b, m.find? k = some b → blockNum b = k

theorem last_eq_none (h : last m = none) (k : ℕ) : m.find? k = none := by
  have hnil : m.toList = [] := List.getLast?_eq_none_iff.1 (Option.map_eq_none_iff.1 h)
  rw [FlatMap.find?_eq_none_iff, hnil]
  exact fun p hp ↦ absurd hp List.not_mem_nil

/-- The last block is the one with the highest number. -/
theorem last_eq_some (hkeyed : Keyed m) {b : β} (h : last m = some b) :
    m.find? (blockNum b) = some b ∧ ∀ k, blockNum b < k → m.find? k = none := by
  obtain ⟨⟨n, b'⟩, hlast, rfl⟩ := Option.map_eq_some_iff.1 h
  obtain ⟨before, hsplit⟩ := List.getLast?_eq_some_iff.1 hlast
  have hmem : (n, b') ∈ m.toList := List.mem_of_getLast? hlast
  have hfind := FlatMap.find?_eq_some_iff.2 hmem
  obtain rfl := hkeyed n b' hfind
  refine ⟨hfind, fun k hk ↦ ?_⟩
  rw [FlatMap.find?_eq_none_iff]
  intro p hp
  rw [hsplit, List.mem_append, List.mem_singleton] at hp
  have hsorted := m.sorted
  rw [hsplit] at hsorted
  rcases hp with hp | hp
  · have hlt := (List.pairwise_append.1 hsorted).2.2 (k, p) hp _ List.mem_cons_self
    dsimp only at hlt hk
    omega
  · obtain ⟨rfl, -⟩ := Prod.mk.inj hp
    exact absurd hk (Nat.lt_irrefl _)

theorem Keyed.erase (h : Keyed m) (n : ℕ) : Keyed (m.erase n) := by
  intro k b hb
  rw [FlatMap.find?_erase] at hb
  split_ifs at hb with hk
  exact h k b hb

theorem Keyed.store (h : Keyed m) (b : β) : Keyed (store m b) := by
  intro k b' hb'
  rw [LogMap.store, FlatMap.find?_insert] at hb'
  split_ifs at hb' with hk
  · rw [hk, Option.some.inj hb']
  · exact h k b' hb'

/-- To store a block again changes nothing. -/
theorem store_of_find? {b : β} (h : m.find? (blockNum b) = some b) : store m b = m := by
  refine FlatMap.ext_find? fun k ↦ ?_
  rw [store, FlatMap.find?_insert]
  split_ifs with hk
  · rw [hk, h]
  · rfl

variable [DecidableEq ι]

/-- What is left when the last blocks are removed. -/
theorem find?_dropAbove {i fuel : ℕ} (hkeyed : Keyed m) (hfuel : m.size < fuel) (k : ℕ) :
    (dropAbove i fuel m).find? k = if k ≤ i then m.find? k else none := by
  induction fuel generalizing m with
  | zero => omega
  | succ fuel ih =>
    rcases hlast : last m with _ | b
    · rw [dropAbove, lastId, hlast, last_eq_none hlast k]
      split_ifs <;> exact last_eq_none hlast k
    · obtain ⟨hfind, habove⟩ := last_eq_some hkeyed hlast
      have hnum : Blocks.numFromId β (Blocks.id b) = blockNum b := Blocks.numFromId_id b
      rw [dropAbove, lastId, hlast]
      dsimp only [Option.map_some]
      rw [hnum]
      by_cases hle : blockNum b ≤ i
      · rw [if_pos hle]
        split_ifs with hk
        · rfl
        · exact habove k (by omega)
      · have hremove : remove m (Blocks.id b) = m.erase (blockNum b) := by
          rw [remove, hnum, hfind, if_pos (by rw [Option.map_some])]
        have hsize : (m.erase (blockNum b)).size < fuel := by
          have hperm := (FlatMap.toList_erase_perm hfind).length_eq
          rw [List.length_cons] at hperm
          unfold FlatMap.size at hfuel ⊢
          omega
        rw [if_neg hle, hremove, ih (hkeyed.erase _) hsize, FlatMap.find?_erase]
        split_ifs with hk hn
        · omega
        · rfl
        · rfl

/-- **The map is what the files of the log stand for**: the calls of the block database act on it in this way. -/
theorem apply_call {B τ : Type} [BlockLog.BlockFormat B] [Blocks B Replay.BlockId τ]
    (hid : ∀ b : B, Blocks.id b = BlockLog.BlockFormat.id b) (hnum : ∀ id : Replay.BlockId, Blocks.numFromId B id = id.num)
    (m : FlatMap ℕ B) :
    (∀ b, (BlockLog.Call.store b).apply m = (.stored, store m b)) ∧
      (∀ id, (BlockLog.Call.remove id).apply m = (.removed, remove m id)) ∧
      (∀ num, (BlockLog.Call.fetchByNumber num).apply m = (.fetched (m.find? num), m)) ∧
      BlockLog.Call.lastId.apply m = (.last (lastId m), m) := by
  refine ⟨fun b ↦ ?_, fun id ↦ ?_, fun num ↦ rfl, ?_⟩
  · have hkey : (BlockLog.BlockFormat.id b).num = blockNum b := by rw [← hid, ← hnum, Blocks.numFromId_id, blockNum]
    rw [BlockLog.Call.apply, store, hkey]
  · have hfound : (BlockLog.lookup m id).isSome = true ↔ (m.find? id.num).map Blocks.id = some id := by
      rw [BlockLog.lookup]
      cases m.find? id.num <;> simp [hid]
    rw [BlockLog.Call.apply, remove, hnum]
    exact congrArg _ (if_congr hfound rfl rfl)
  · rw [BlockLog.Call.apply, BlockLog.lastOf, lastId, last, Option.map_map]
    exact congrArg (fun id ↦ (BlockLog.Result.last id, m)) (Option.map_congr fun p _ ↦ (hid p.2).symm)

end LogMap

variable {σ β ι τ : Type*} [DecidableEq ι] [Blocks β ι τ] [ChainRules σ β ι τ]

/-! ### The fork database follows the head -/

namespace ForkDatabase

variable {f : ForkDatabase β} {b : β} {id : ι}

/-- The head of the fork database is the block with an id, and it is in the index. -/
structure HeadIs (f : ForkDatabase β) (id : ι) : Prop where
  head : ∀ h, f.head = some h → h.id = id
  mem : f.head.isSome = true → ∃ it ∈ f.index, it.id = id

omit [DecidableEq ι] in
theorem HeadIs.of_head_none (h : f.head = none) (id : ι) : f.HeadIs id where
  head := fun hd hhd ↦ by rw [h] at hhd; cases hhd
  mem := fun hsome ↦ by rw [h] at hsome; cases hsome

theorem HeadIs.startBlock (f : ForkDatabase β) (b : β) : (f.startBlock b).HeadIs (Blocks.id b) where
  head := by
    rintro h ⟨⟩
    rfl
  mem := fun _ ↦ by
    unfold ForkDatabase.startBlock
    dsimp only
    by_cases hknown : (f.fetchBlock (Blocks.id b)).isSome = true
    · rw [if_pos hknown]
      obtain ⟨it, hit⟩ := Option.isSome_iff_exists.1 hknown
      exact ⟨it, mem_of_fetchBlock hit⟩
    · rw [if_neg hknown]
      exact ⟨_, List.mem_cons_self, rfl⟩

omit [DecidableEq ι] in
theorem HeadIs.setMaxSize (h : f.HeadIs id) (size : ℕ) : (f.setMaxSize size).HeadIs id where
  head := by
    rw [setMaxSize_head]
    exact h.head
  mem := by
    rw [setMaxSize_head]
    intro hsome
    obtain ⟨it, hit, hid⟩ := h.mem hsome
    refine ⟨it, mem_setMaxSize hit fun hd hhd ↦ ?_, hid⟩
    have hnum : hd.num = it.num := by rw [ForkItem.num_eq, ForkItem.num_eq, h.head hd hhd, hid]
    omega

/-- **A block on top of the head** is taken and becomes the head. -/
theorem HeadIs.pushBlock (h : f.HeadIs (Blocks.previous b)) :
    ∃ f' hd, f.pushBlock b = .ok f' ∧ f'.head = some hd ∧ hd.data = b ∧ f'.HeadIs (Blocks.id b) := by
  rcases hhead : f.head with _ | hd
  · refine ⟨_, _, by rw [ForkDatabase.pushBlock, hhead], rfl, rfl, ?_, fun _ ↦ ⟨_, List.mem_cons_self, rfl⟩⟩
    rintro h ⟨⟩
    rfl
  · obtain ⟨it, hit, hid⟩ := h.mem (by rw [hhead]; rfl)
    have hnum : hd.num + 1 = blockNum b := by rw [ForkItem.num_eq, h.head hd hhead]; rfl
    obtain ⟨p, hp⟩ : ∃ p, f.fetchBlock (Blocks.previous b) = some p := by
      rw [← Option.isSome_iff_exists, fetchBlock, List.find?_isSome]
      exact ⟨it, hit, decide_eq_true hid⟩
    have hprev : ∃ prev, (if Blocks.previous b = Blocks.noBlock β then some none
        else (f.fetchBlock (Blocks.previous b)).map fun p ↦ some p.ref) = some prev := by
      rw [hp]
      split
      · exact ⟨_, rfl⟩
      · exact ⟨_, rfl⟩
    obtain ⟨prev, hprev⟩ := hprev
    have hitem : (⟨f.nextRef, b, prev⟩ : ForkItem β).num = blockNum b := rfl
    unfold ForkDatabase.pushBlock
    rw [hhead]
    dsimp only
    rw [if_neg (by omega), hprev]
    dsimp only
    rw [hitem, if_pos (by omega)]
    refine ⟨_, _, rfl, rfl, rfl, ?_, fun _ ↦ ?_⟩
    · rintro h ⟨⟩
      rfl
    -- the block is in the index, old or new, and is not cut
    · have hmem : ∃ x ∈ (if (f.fetchBlock (Blocks.id b)).isSome then f.index else ⟨f.nextRef, b, prev⟩ :: f.index),
          x.id = Blocks.id b := by
        by_cases hknown : (f.fetchBlock (Blocks.id b)).isSome = true
        · rw [if_pos hknown]
          obtain ⟨x, hx⟩ := Option.isSome_iff_exists.1 hknown
          exact ⟨x, mem_of_fetchBlock hx⟩
        · rw [if_neg hknown]
          exact ⟨_, List.mem_cons_self, rfl⟩
      obtain ⟨x, hx, hxid⟩ := hmem
      refine ⟨x, List.mem_filter.2 ⟨hx, decide_eq_true ?_⟩, hxid⟩
      have hxnum : x.num = blockNum b := by
        rw [ForkItem.num_eq, hxid]
        exact Blocks.numFromId_id b
      omega

end ForkDatabase

/-! ### Applying and pushing the next block -/

namespace LoggedNode

variable {n : LoggedNode σ β ι τ} {b : β} {s : σ}

omit [DecidableEq ι] in
/-- **To apply a block** leaves the log, and does not enter the block into the fork database. -/
theorem applyBlock_ok (happly : ChainRules.applyBlock n.node.state b = .ok s) (hhead : n.node.fork.head = none) :
    ∃ n', n.applyBlock b = .ok n' ∧ n'.node.state = s ∧ n'.node.fork.head = none ∧ n'.log = n.log := by
  refine ⟨⟨{ n.node.setWindows b with state := s }, n.log⟩, ?_, rfl, ?_, rfl⟩
  · rw [applyBlock, Node.applyBlock, happly]
  · exact (ForkDatabase.setMaxSize_head _ _).trans hhead

/-- **To push a block** on top of the head applies and stores it. -/
theorem pushBlock_ok (happly : ChainRules.applyBlock n.node.state b = .ok s)
    (hfork : n.node.fork.HeadIs n.node.headId) :
    ∃ n', n.pushBlock b = .ok n' ∧ n'.node.state = s ∧ n'.node.fork.HeadIs (Blocks.id b) ∧
      n'.log = LogMap.store n.log b := by
  have hprevious : Blocks.previous b = n.node.headId := ChainRules.previous_of_applyBlock happly
  rw [← hprevious] at hfork
  obtain ⟨f, hd, hpush, hhead, hdata, hheadIs⟩ := hfork.pushBlock
  have hstay : ¬(hd.previousId ≠ ({ n.node with fork := f } : Node σ β ι τ).headId) := fun hne ↦ hne (by
    rw [ForkItem.previousId, hdata, hprevious]
    rfl)
  have hsession : ∃ m, ({ n.node with fork := f } : Node σ β ι τ).applyInSession b = .ok m ∧ m.state = s ∧
      m.fork.HeadIs (Blocks.id b) := ⟨_, Node.applyInSession_ok happly, rfl, hheadIs.setMaxSize _⟩
  obtain ⟨m, hm, hstate, hfork'⟩ := hsession
  refine ⟨⟨m, LogMap.store n.log b⟩, ?_, hstate, hfork', rfl⟩
  rw [pushBlock, hpush]
  dsimp only
  rw [hhead]
  dsimp only
  rw [if_neg hstay, applyInSession, hm]

end LoggedNode

/-! ### The blocks up to the gap -/

/-- The blocks of a log from a number up to a gap apply one after another. -/
inductive AppliesUpTo (log : FlatMap ℕ β) (g : ℕ) : ℕ → σ → Prop
  | gap {s : σ} : AppliesUpTo log g g s
  | block {k : ℕ} {s s' : σ} {b : β} : log.find? k = some b → ChainRules.applyBlock s b = .ok s' →
    AppliesUpTo log g (k + 1) s' → AppliesUpTo log g k s

omit [DecidableEq ι] in
theorem AppliesUpTo.next {log : FlatMap ℕ β} {g k : ℕ} {s : σ} (h : AppliesUpTo log g k s) (hk : k < g) :
    ∃ b s', log.find? k = some b ∧ ChainRules.applyBlock s b = .ok s' ∧ AppliesUpTo log g (k + 1) s' := by
  cases h with
  | gap => exact absurd hk (Nat.lt_irrefl _)
  | block hfind happly hrest => exact ⟨_, _, hfind, happly, hrest⟩

omit [DecidableEq ι] in
theorem AppliesUpTo.isSome {log : FlatMap ℕ β} {g k m : ℕ} {s : σ} (h : AppliesUpTo log g k s) (hk : k ≤ m) (hm : m < g) :
    (log.find? m).isSome = true := by
  induction h with
  | gap => omega
  | @block k s s' b hfind happly hrest ih =>
    rcases hk.lt_or_eq with hlt | rfl
    · exact ih hlt
    · rw [hfind]
      rfl

/-- A queue holds the blocks of a log from a number up to another. -/
structure Queued (log : FlatMap ℕ β) (i j : ℕ) (queue : List β) : Prop where
  le : i ≤ j
  length : queue.length = j - i
  find? : ∀ m b, queue[m]? = some b → log.find? (i + m) = some b

namespace Queued

variable {log : FlatMap ℕ β} {i j : ℕ} {queue : List β} {b : β}

theorem nil (log : FlatMap ℕ β) (i : ℕ) : Queued log i i [] where
  le := le_rfl
  length := (Nat.sub_self i).symm
  find? := fun m b h ↦ by rw [List.getElem?_nil] at h; cases h

theorem concat (h : Queued log i j queue) (hb : log.find? j = some b) : Queued log i (j + 1) (queue ++ [b]) where
  le := h.le.trans (Nat.le_succ j)
  length := by
    have hle := h.le
    rw [List.length_append, List.length_singleton, h.length]
    omega
  find? := fun m b' hb' ↦ by
    have hle := h.le
    rcases lt_or_ge m queue.length with hm | hm
    · rw [List.getElem?_append_left hm] at hb'
      exact h.find? m b' hb'
    · rw [List.getElem?_append_right hm, List.getElem?_singleton] at hb'
      split_ifs at hb' with hzero
      have hlength := h.length
      rw [← Option.some.inj hb', show i + m = j by omega, hb]

theorem tail {block : β} {rest : List β} (h : Queued log i j (block :: rest)) :
    i < j ∧ log.find? i = some block ∧ Queued log (i + 1) j rest := by
  have hlength := h.length
  rw [List.length_cons] at hlength
  refine ⟨by omega, h.find? 0 block rfl, by omega, by omega, fun m b hb ↦ ?_⟩
  rw [show i + 1 + m = i + (m + 1) by omega]
  exact h.find? (m + 1) b hb

end Queued

/-! ### The loop -/

namespace LogMap

/-- The log when the applier's counter is at `i`: cut at a number, except for what has been stored since. -/
def CutAt (log₀ : FlatMap ℕ β) (kept undoPoint i : ℕ) (log : FlatMap ℕ β) : Prop :=
  ∀ k, log.find? k = if k ≤ kept ∨ (undoPoint ≤ k ∧ k < i) then log₀.find? k else none

end LogMap

/-- The number of the highest block of a log. -/
def lastBlockNum (log : FlatMap ℕ β) : ℕ := ((LogMap.last log).map blockNum).getD 0

omit [DecidableEq ι] in
theorem find?_of_lastBlockNum_lt {log : FlatMap ℕ β} (hkeyed : LogMap.Keyed log) {k : ℕ} (hk : lastBlockNum log < k) :
    log.find? k = none := by
  unfold lastBlockNum at hk
  rcases hlast : LogMap.last log with _ | b
  · exact LogMap.last_eq_none hlast k
  · rw [hlast] at hk
    exact (LogMap.last_eq_some hkeyed hlast).2 k hk

/-- The block up to which the log is cut: the one after the head, or, if the reader is twenty blocks ahead when it comes to
the gap, the one that the applier is at. -/
def cutPoint (g headNum : ℕ) : ℕ := max (headNum + 1) (g - 19)

namespace Reindexing

/-- **Loop invariant** for a log with a gap at `g` and the head `h` before the loop. -/
structure Inv (log₀ : FlatMap ℕ β) (g h : ℕ) (r : Reindexing σ β ι τ) : Prop where
  applies : AppliesUpTo log₀ g r.i r.chain.node.state
  headNum : r.chain.headNum + 1 = r.i
  fork : r.chain.node.fork.HeadIs r.chain.node.headId
  unstarted : r.i < LoggedNode.undoPoint (lastBlockNum log₀) → r.chain.node.fork.head = none
  /-- Before the reader comes to the gap the log is as it was; then it is cut. -/
  phase : (r.nextBlockNum ≤ g ∧ Queued log₀ r.i r.nextBlockNum r.blocks ∧ r.chain.log = log₀ ∧
      (g ≤ lastBlockNum log₀ → r.i = h + 1 ∨ 19 ≤ r.blocks.length) ∧ h + 1 ≤ r.i ∧ r.blocks.length ≤ 20) ∨
    (lastBlockNum log₀ < r.nextBlockNum ∧ g ≤ lastBlockNum log₀ ∧ Queued log₀ r.i g r.blocks ∧
      LogMap.CutAt log₀ (cutPoint g h) (LoggedNode.undoPoint (lastBlockNum log₀)) r.i r.chain.log)

/-- What is left to read and to apply. -/
def left (log₀ : FlatMap ℕ β) (r : Reindexing σ β ι τ) : ℕ :=
  2 * (lastBlockNum log₀ + 1 - r.nextBlockNum) + r.blocks.length

variable {log₀ : FlatMap ℕ β} {g h : ℕ} {r : Reindexing σ β ι τ}

theorem Inv.read (hr : r.Inv log₀ g h) (hkeyed : LogMap.Keyed log₀) (hgap : log₀.find? g = none)
    (hnext : r.nextBlockNum ≤ lastBlockNum log₀) (hlen : r.blocks.length < 20) :
    (r.read (lastBlockNum log₀)).Inv log₀ g h ∧ (r.read (lastBlockNum log₀)).left log₀ < r.left log₀ := by
  obtain ⟨happlies, hhead, hfork, hunstarted, ⟨hle, hqueue, hlog, hahead, hi, -⟩ | ⟨hlt, -⟩⟩ := hr
  · have hlength := hqueue.length
    have hin := hqueue.le
    rw [Reindexing.read, hlog]
    rcases hfind : log₀.find? r.nextBlockNum with _ | b
    -- the reader has come to the gap
    · have hat : r.nextBlockNum = g := by
        by_contra hne
        have hsome := happlies.isSome hin (by omega)
        rw [hfind] at hsome
        cases hsome
      have hcut : r.i = cutPoint g h := by
        have := hahead (by omega)
        unfold cutPoint
        omega
      refine ⟨⟨happlies, hhead, hfork, hunstarted, Or.inr ⟨Nat.lt_succ_self _, by omega, by rwa [← hat], fun k ↦ ?_⟩⟩, ?_⟩
      · dsimp only
        rw [LogMap.find?_dropAbove hkeyed (Nat.lt_succ_self _), ← hcut]
        refine if_congr ⟨Or.inl, ?_⟩ rfl rfl
        rintro (hk | ⟨-, hk⟩) <;> omega
      · unfold left
        dsimp only
        omega
    · have hne : r.nextBlockNum ≠ g := by
        intro heq
        rw [heq, hgap] at hfind
        cases hfind
      refine ⟨⟨happlies, hhead, hfork, hunstarted, Or.inl ⟨by dsimp only; omega, hqueue.concat hfind, hlog, fun hg ↦ ?_, hi,
        ?_⟩⟩, ?_⟩
      · rw [List.length_append]
        exact (hahead hg).imp id fun h ↦ h.trans (Nat.le_add_right _ _)
      · rw [List.length_append]
        exact hlen
      · unfold left
        dsimp only
        rw [List.length_append, List.length_singleton]
        omega
  · omega

theorem Inv.apply (hr : r.Inv log₀ g h) (hkeyed : LogMap.Keyed log₀) {block : β} {rest : List β}
    (hblocks : r.blocks = block :: rest) (hwait : ¬(r.nextBlockNum ≤ lastBlockNum log₀ ∧ r.blocks.length < 20)) :
    ∃ r', r.apply (LoggedNode.undoPoint (lastBlockNum log₀)) block rest = .ok r' ∧ r'.Inv log₀ g h ∧
      r'.left log₀ < r.left log₀ := by
  obtain ⟨happlies, hhead, hfork, hunstarted, hphase⟩ := hr
  rw [hblocks] at hphase hwait
  have hfront : r.i < g ∧ log₀.find? r.i = some block := by
    rcases hphase with ⟨hle, hqueue, -⟩ | ⟨-, -, hqueue, -⟩
    · obtain ⟨hlt, hfind, -⟩ := hqueue.tail
      exact ⟨by omega, hfind⟩
    · obtain ⟨hlt, hfind, -⟩ := hqueue.tail
      exact ⟨hlt, hfind⟩
  obtain ⟨hig, hfind⟩ := hfront
  obtain ⟨b, s, hb, happly, hrest⟩ := happlies.next hig
  obtain rfl := Option.some.inj (hfind.symm.trans hb)
  have hnum : blockNum block = r.i := hkeyed _ _ hfind
  have hid : ChainRules.headId s = Blocks.id block := ChainRules.headId_of_applyBlock happly
  have hleft (chain : LoggedNode σ β ι τ) :
      left log₀ { r with chain := chain, blocks := rest, i := r.i + 1 } < r.left log₀ := by
    unfold left
    rw [hblocks, List.length_cons]
    exact Nat.lt_succ_self _
  have hheadNum {chain : LoggedNode σ β ι τ} (hstate : chain.node.state = s) : chain.headNum + 1 = r.i + 1 := by
    rw [LoggedNode.headNum, Node.headNum, Node.headId, hstate, hid, Blocks.numFromId_id, ← hnum, blockNum]
  -- what becomes of the log decides which phase is kept
  have hkeep {log : FlatMap ℕ β} (hsame : r.chain.log = log₀ → log = log₀)
      (hcut : LogMap.CutAt log₀ (cutPoint g h) (LoggedNode.undoPoint (lastBlockNum log₀)) r.i r.chain.log →
        LogMap.CutAt log₀ (cutPoint g h) (LoggedNode.undoPoint (lastBlockNum log₀)) (r.i + 1) log) :
      (r.nextBlockNum ≤ g ∧ Queued log₀ (r.i + 1) r.nextBlockNum rest ∧ log = log₀ ∧
          (g ≤ lastBlockNum log₀ → r.i + 1 = h + 1 ∨ 19 ≤ rest.length) ∧ h + 1 ≤ r.i + 1 ∧ rest.length ≤ 20) ∨
        (lastBlockNum log₀ < r.nextBlockNum ∧ g ≤ lastBlockNum log₀ ∧ Queued log₀ (r.i + 1) g rest ∧
          LogMap.CutAt log₀ (cutPoint g h) (LoggedNode.undoPoint (lastBlockNum log₀)) (r.i + 1) log) := by
    rw [List.length_cons] at hwait
    rcases hphase with ⟨hle, hqueue, hlog, -, hi, hlen⟩ | ⟨hlt, hg, hqueue, hcutAt⟩
    · rw [List.length_cons] at hlen
      refine Or.inl ⟨hle, hqueue.tail.2.2, hsame hlog, fun hg ↦ Or.inr ?_, by omega, by omega⟩
      by_contra hshort
      exact hwait ⟨by omega, by omega⟩
    · exact Or.inr ⟨hlt, hg, hqueue.tail.2.2, hcut hcutAt⟩
  unfold Reindexing.apply
  by_cases hundo : r.i < LoggedNode.undoPoint (lastBlockNum log₀)
  · obtain ⟨chain, hchain, hstate, hnone, hlog⟩ := LoggedNode.applyBlock_ok happly (hunstarted hundo)
    rw [if_pos hundo, hchain]
    refine ⟨_, rfl, ⟨by rwa [hstate], hheadNum hstate, ForkDatabase.HeadIs.of_head_none hnone _, fun _ ↦ hnone,
      hkeep (fun h ↦ hlog.trans h) fun hcut k ↦ ?_⟩, hleft chain⟩
    dsimp only
    rw [hlog, hcut k]
    exact if_congr (or_congr_right (by omega)) rfl rfl
  · obtain ⟨chain, hchain, hstate, hheadIs, hlog⟩ := LoggedNode.pushBlock_ok happly hfork
    have hheadId : chain.node.headId = Blocks.id block := by rw [Node.headId, hstate, hid]
    rw [if_neg hundo, hchain]
    refine ⟨_, rfl, ⟨by rwa [hstate], hheadNum hstate, by rwa [hheadId], fun hlt ↦ absurd hlt (by dsimp only; omega),
      hkeep (fun h ↦ ?_) fun hcut k ↦ ?_⟩, hleft chain⟩
    · rw [hlog, h, LogMap.store_of_find?]
      rw [hnum, hfind]
    · dsimp only
      rw [hlog, LogMap.store, FlatMap.find?_insert, hnum, hcut k]
      by_cases hk : k = r.i
      · rw [if_pos hk, if_pos (Or.inr (by omega)), hk, hfind]
      · rw [if_neg hk]
        exact if_congr (or_congr_right (by omega)) rfl rfl

/-- What reindexing leaves: the head is below the gap, and the log is cut but for the blocks that have been pushed. -/
structure Done (log₀ : FlatMap ℕ β) (g h : ℕ) (n : LoggedNode σ β ι τ) : Prop where
  headNum : n.headNum + 1 = g
  log : ∀ k, n.log.find? k =
    if lastBlockNum log₀ < g ∨ k ≤ cutPoint g h ∨ (LoggedNode.undoPoint (lastBlockNum log₀) ≤ k ∧ k < g) then
      log₀.find? k else none

omit [DecidableEq ι] in
theorem Inv.done (hr : r.Inv log₀ g h) (hkeyed : LogMap.Keyed log₀) (hblocks : r.blocks = [])
    (hnext : lastBlockNum log₀ < r.nextBlockNum) : Done log₀ g h r.chain := by
  obtain ⟨happlies, hhead, -, -, ⟨hle, hqueue, hlog, -⟩ | ⟨-, hg, hqueue, hcut⟩⟩ := hr
  · have hlength := hqueue.length
    have hin := hqueue.le
    rw [hblocks, List.length_nil] at hlength
    by_cases hat : r.nextBlockNum = g
    · refine ⟨by omega, fun k ↦ ?_⟩
      rw [if_pos (Or.inl (by omega)), hlog]
    -- the blocks below the gap are all there, so the reader has not stopped before it
    · have hsome := happlies.isSome hin (by omega)
      rw [find?_of_lastBlockNum_lt hkeyed hnext] at hsome
      cases hsome
  · have hlength := hqueue.length
    have hig := hqueue.le
    rw [hblocks, List.length_nil] at hlength
    refine ⟨by omega, fun k ↦ ?_⟩
    rw [hcut k, show r.i = g by omega]
    refine if_congr ⟨Or.inr, ?_⟩ rfl rfl
    rintro (hlast | hk)
    · omega
    · exact hk

theorem Inv.round (hr : r.Inv log₀ g h) (hkeyed : LogMap.Keyed log₀) (hgap : log₀.find? g = none) :
    (∃ r', Reindexing.round (lastBlockNum log₀) (LoggedNode.undoPoint (lastBlockNum log₀)) r = some (.ok (.inl r')) ∧
        r'.Inv log₀ g h ∧ r'.left log₀ < r.left log₀) ∨
      ∃ n, Reindexing.round (lastBlockNum log₀) (LoggedNode.undoPoint (lastBlockNum log₀)) r = some (.ok (.inr n)) ∧
        Done log₀ g h n := by
  unfold Reindexing.round
  by_cases hread : r.nextBlockNum ≤ lastBlockNum log₀ ∧ r.blocks.length < 20
  · rw [if_pos hread]
    exact Or.inl ⟨_, rfl, hr.read hkeyed hgap hread.1 hread.2⟩
  · rw [if_neg hread]
    rcases hblocks : r.blocks with _ | ⟨block, rest⟩
    · rw [hblocks, List.length_nil] at hread
      exact Or.inr ⟨_, rfl, hr.done hkeyed hblocks (by omega)⟩
    · obtain ⟨r', happly, hinv, hlt⟩ := hr.apply hkeyed hblocks hread
      dsimp only
      rw [happly]
      exact Or.inl ⟨r', rfl, hinv, hlt⟩

end Reindexing

/-! ### Reindexing -/

namespace LoggedNode

/-- A node that has just been opened, with a log that has all blocks below a gap, which apply on top of the head. -/
structure GapLog (n : LoggedNode σ β ι τ) (g : ℕ) : Prop where
  keyed : LogMap.Keyed n.log
  below : ∀ k, 1 ≤ k → k < g → (n.log.find? k).isSome = true
  gap : n.log.find? g = none
  head_lt : n.headNum + 1 < g
  headBlock : ∀ b, n.log.find? n.headNum = some b → Blocks.id b = n.node.headId
  opened : n.node.fork.index = [] ∧ n.node.fork.head = none
  applies : AppliesUpTo n.log g (n.headNum + 1) n.node.state

variable {n : LoggedNode σ β ι τ} {g : ℕ}

omit [DecidableEq ι] in
theorem GapLog.le_lastBlockNum (h : n.GapLog g) : g ≤ lastBlockNum n.log + 1 := by
  by_contra hlt
  have hlt' := h.head_lt
  have hsome := h.below (g - 1) (by omega) (by omega)
  rw [find?_of_lastBlockNum_lt h.keyed (by omega)] at hsome
  cases hsome

/-- The fork database is started from the head, or left without a head. -/
theorem GapLog.startReindex (h : n.GapLog g) : ∃ chain, n.startReindex (lastBlockNum n.log) = .ok chain ∧
    chain.node.state = n.node.state ∧ chain.log = n.log ∧ chain.node.fork.HeadIs n.node.headId ∧
      (n.headNum + 1 < undoPoint (lastBlockNum n.log) → chain.node.fork.head = none) := by
  unfold LoggedNode.startReindex
  by_cases hstart : undoPoint (lastBlockNum n.log) ≤ n.headNum ∧ 0 < n.headNum
  · have hlt := h.head_lt
    obtain ⟨b, hb⟩ := Option.isSome_iff_exists.1 (h.below n.headNum hstart.2 (by omega))
    have hfetch : n.fetchBlockByNumber n.headNum = some b := by
      rw [fetchBlockByNumber, h.opened.1]
      exact hb
    rw [if_pos hstart, hfetch]
    refine ⟨_, rfl, rfl, rfl, ?_, fun hlt ↦ absurd hstart.1 (by omega)⟩
    rw [← h.headBlock b hb]
    exact .startBlock _ _
  · rw [if_neg hstart]
    exact ⟨n, rfl, rfl, rfl, .of_head_none h.opened.2 _, fun _ ↦ h.opened.2⟩

/-- **Reindexing over a gap** takes the head to the block below the gap, and leaves of the log what is not above the cut
and what has been pushed. -/
theorem reindex_gap (h : n.GapLog g) :
    ∃ n', n.reindex = some (.ok n') ∧ Reindexing.Done n.log g n.headNum n' := by
  have hlt := h.head_lt
  have hlast := h.le_lastBlockNum
  obtain ⟨chain, hchain, hstate, hlog, hfork, hunstarted⟩ := h.startReindex
  have hheadId : chain.node.headId = n.node.headId := by rw [Node.headId, hstate, Node.headId]
  have hheadNum : chain.headNum = n.headNum := by rw [headNum, Node.headNum, hheadId, headNum, Node.headNum]
  have hinv : Reindexing.Inv n.log g n.headNum
      { chain := chain, nextBlockNum := n.headNum + 1, i := n.headNum + 1 } := {
    applies := by
      dsimp only
      rw [hstate]
      exact h.applies
    headNum := by
      dsimp only
      rw [hheadNum]
    fork := by
      dsimp only
      rwa [hheadId]
    unstarted := hunstarted
    phase := Or.inl ⟨by dsimp only; omega, .nil _ _, hlog, fun _ ↦ Or.inl rfl, le_rfl, Nat.zero_le _⟩ }
  obtain ⟨b, hb⟩ : ∃ b, LogMap.last n.log = some b := by
    rw [← Option.ne_none_iff_exists']
    intro hnone
    have hsome := h.below 1 le_rfl (by omega)
    rw [LogMap.last_eq_none hnone 1] at hsome
    cases hsome
  have hnum : blockNum b = lastBlockNum n.log := by rw [lastBlockNum, hb, Option.map_some, Option.getD_some]
  rw [reindex, hb]
  dsimp only
  rw [hnum, if_neg (by omega), hchain]
  refine Loop.exists_iterate_eq_ok (Reindexing.Inv n.log g n.headNum) (Reindexing.left n.log) _
    (fun r hr ↦ hr.round h.keyed h.gap) hinv ?_
  unfold Reindexing.left
  dsimp only
  rw [List.length_nil]
  omega

/-- **Reindexing over a gap**: the head is the block below the gap, and no block above the gap remains; but all blocks below
it remain if and only if there is no block above the gap, or only one block is to be applied, or the blocks above the cut
are pushed. -/
theorem reindex_over_gap (h : n.GapLog g) :
    ∃ n', n.reindex = some (.ok n') ∧ n'.headNum = g - 1 ∧ (∀ k, g < k → n'.log.find? k = none) ∧
      ((∀ k, 1 ≤ k → k < g → n'.log.find? k = n.log.find? k) ↔
        lastBlockNum n.log < g ∨ n.headNum + 2 = g ∨
          undoPoint (lastBlockNum n.log) ≤ cutPoint g n.headNum + 1) := by
  obtain ⟨n', hn', hdone⟩ := reindex_gap h
  have hlt := h.head_lt
  have hhead := hdone.headNum
  have hcut : n.headNum + 1 ≤ cutPoint g n.headNum ∧ cutPoint g n.headNum < g ∧
      (cutPoint g n.headNum + 1 = g → n.headNum + 2 = g) := by
    unfold cutPoint
    omega
  refine ⟨n', hn', by omega, fun k hk ↦ ?_, fun hkept ↦ ?_, fun hcond k hk hkg ↦ ?_⟩
  · rw [hdone.log k]
    split_ifs with hstays
    · rcases hstays with hlast | hle | ⟨-, hkg⟩
      · exact find?_of_lastBlockNum_lt h.keyed (by omega)
      · omega
      · omega
    · rfl
  -- the first block above the cut decides
  · by_contra hcond
    obtain ⟨hlast, hne, hundo⟩ : ¬lastBlockNum n.log < g ∧ ¬n.headNum + 2 = g ∧
        ¬undoPoint (lastBlockNum n.log) ≤ cutPoint g n.headNum + 1 := by tauto
    have hlost := hkept (cutPoint g n.headNum + 1) (by omega) (by omega)
    rw [hdone.log, if_neg (by omega)] at hlost
    have hsome := h.below (cutPoint g n.headNum + 1) (by omega) (by omega)
    rw [← hlost] at hsome
    cases hsome
  · rw [hdone.log k]
    refine if_pos ?_
    rcases hcond with hlast | heq | hundo
    · exact Or.inl hlast
    · exact Or.inr (Or.inl (by omega))
    · by_cases hle : k ≤ cutPoint g n.headNum
      · exact Or.inr (Or.inl hle)
      · exact Or.inr (Or.inr (by omega))

end LoggedNode

/-! ### A log with few blocks -/

namespace WitnessChain

/-- The valid block with a number. -/
def blockAt (num : ℕ) : Block := blockOn 1 (chainOf 1 (num - 1))

/-- A node without blocks that is opened with a log of three blocks, and one with the number sixty. -/
def gappedNode : LoggedNode State Block (List Entry) (ProcessedTransaction ℕ Unit) where
  node := genesis 1
  log := LogMap.store (LogMap.store (LogMap.store (LogMap.store ∅ (blockAt 1)) (blockAt 2)) (blockAt 3)) (blockAt 60)

theorem gapLog_gappedNode : gappedNode.GapLog 4 where
  keyed := (((LogMap.Keyed.store (fun _ _ h ↦ by cases h) _).store _).store _).store _
  below := fun k hk hlt ↦ by
    interval_cases k <;> decide
  gap := by decide
  head_lt := by decide
  headBlock := fun b hb ↦ by
    have hnone : gappedNode.log.find? gappedNode.headNum = none := by decide
    rw [hnone] at hb
    cases hb
  opened := ⟨rfl, rfl⟩
  applies := by
    refine .block (b := blockAt 1) (by decide) rfl ?_
    refine .block (b := blockAt 2) (by decide) rfl ?_
    exact .block (b := blockAt 3) (by decide) rfl .gap

theorem reindex_over_gap_gappedNode :
    ∃ n', gappedNode.reindex = some (.ok n') ∧ n'.headNum = 4 - 1 ∧ (∀ k, 4 < k → n'.log.find? k = none) ∧
      ((∀ k, 1 ≤ k → k < 4 → n'.log.find? k = gappedNode.log.find? k) ↔
        lastBlockNum gappedNode.log < 4 ∨ gappedNode.headNum + 2 = 4 ∨
          LoggedNode.undoPoint (lastBlockNum gappedNode.log) ≤ cutPoint 4 gappedNode.headNum + 1) :=
  LoggedNode.reindex_over_gap gapLog_gappedNode

/-- **Two blocks below the gap are lost.** -/
theorem reindex_loses_blocks :
    gappedNode.GapLog 4 ∧ ∃ n', gappedNode.reindex = some (.ok n') ∧ n'.headNum = 3 ∧
      n'.log.find? 2 = none ∧ gappedNode.log.find? 2 = some (blockAt 2) ∧
      n'.log.find? 3 = none ∧ gappedNode.log.find? 3 = some (blockAt 3) := by
  obtain ⟨n', hn', hdone⟩ := LoggedNode.reindex_gap gapLog_gappedNode
  have hhead := hdone.headNum
  refine ⟨gapLog_gappedNode, n', hn', by omega, ?_, by decide, ?_, by decide⟩
  · rw [hdone.log]
    exact if_neg (by decide)
  · rw [hdone.log]
    exact if_neg (by decide)

end WitnessChain

end Playchain
