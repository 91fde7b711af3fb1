import Playchain.Blocks.Confirmations
import Playchain.Lib.OrderStatistic
import Playchain.Spec.Pool

/-!
# What irreversible blocks rest on

The last irreversible block number is an order statistic of the blocks that the active witnesses
confirmed last. Over a run of blocks this means: a number is irreversible exactly when, at some
block of the chain, enough of the witnesses that were active then had signed blocks of this chain
with at least this number (`irreversible_iff_confirmed`). Two nodes that hold different blocks of
one number to be irreversible have therefore been served by witnesses who signed blocks on both
branches, and it is known how many of them there are at least (`irreversible_conflict`).
-/

namespace Playchain

/-- The number of active witnesses whose confirmations make a block irreversible. -/
def quorum (witnesses : ℕ) : ℕ := witnesses - (10000 - 7000) * witnesses / 10000

theorem seven_tenths_le_quorum (witnesses : ℕ) : 7 * witnesses ≤ 10 * quorum witnesses := by
  rw [quorum]
  omega

/-- **The last irreversible block number**: a quorum has confirmed it. -/
theorem le_irreversibleBlockNum_iff {lastConfirmed : List ℕ} (hne : lastConfirmed ≠ []) (num : ℕ) :
    num ≤ irreversibleBlockNum lastConfirmed ↔ quorum lastConfirmed.length ≤ lastConfirmed.countP
      (num ≤ ·) := by
  have hlen := List.length_pos_iff.2 hne
  rw [irreversibleBlockNum, le_getD_insertionSort_iff _ (by omega), quorum]

theorem le_updateLastIrreversibleBlock_iff {lastConfirmed : List ℕ} (lastIrreversible num : ℕ) :
    num ≤ updateLastIrreversibleBlock lastConfirmed lastIrreversible ↔
      num ≤ lastIrreversible ∨ num ≤ irreversibleBlockNum lastConfirmed := by
  rw [updateLastIrreversibleBlock]
  split_ifs <;> omega

section WitnessRules

variable (σ : Type*) {β ι τ ω : Type*} [DecidableEq ω] [Blocks β ι τ] [WitnessRules σ β ι τ ω]

/-- The witness has signed one of the blocks, with at least a given number. -/
def Confirms (bs : List β) (num : ℕ) (w : ω) : Prop :=
  ∃ b ∈ bs, WitnessRules.witness σ b = w ∧ num ≤ blockNum b

instance (bs : List β) (num : ℕ) (w : ω) : Decidable (Confirms σ bs num w) :=
  inferInstanceAs (Decidable (∃ b ∈ bs, WitnessRules.witness σ b = w ∧ num ≤ blockNum b))

variable {σ}

/-- `active_witnesses` -/
def activeWitnesses (s : σ) : List ω := (WitnessRules.confirmations s).activeWitnesses

theorem nodup_activeWitnesses (s : σ) : (activeWitnesses s).Nodup :=
    (WitnessRules.confirmations s).nodup

theorem length_activeWitnesses_pos (s : σ) : 0 < (activeWitnesses s).length :=
  List.length_pos_iff.2 (WitnessRules.confirmations s).ne_nil

/-- The active witnesses who have signed one of the blocks, with at least a given number. -/
def confirmers (s : σ) (bs : List β) (num : ℕ) : Finset ω :=
  (activeWitnesses s).toFinset.filter (Confirms σ bs num)

theorem confirmers_subset (s : σ) (bs : List β) (num : ℕ) :
    confirmers s bs num ⊆ (activeWitnesses s).toFinset :=
  Finset.filter_subset _ _

/-- No witness has confirmed a block above the head, and no such block is irreversible. -/
structure WithinHead (s : σ) : Prop where
  lastConfirmed : ∀ w, (WitnessRules.confirmations s).lastConfirmedBlockNum w ≤
    Blocks.numFromId β (ChainRules.headId s)
  lastIrreversible : ChainRules.lastIrreversible s ≤ Blocks.numFromId β (ChainRules.headId s)

/-! ### One block -/

variable {s s' : σ} {b : β} {num : ℕ}

theorem numFromId_of_applyBlock (h : ChainRules.applyBlock s b = .ok s') :
    Blocks.numFromId β (ChainRules.headId s') = blockNum b ∧
      blockNum b = Blocks.numFromId β (ChainRules.headId s) + 1 := by
  rw [ChainRules.headId_of_applyBlock h, Blocks.numFromId_id, ← ChainRules.previous_of_applyBlock h]
  exact ⟨rfl, rfl⟩

theorem lastConfirmed_of_applyBlock (h : ChainRules.applyBlock s b = .ok s') :
    (WitnessRules.confirmations s').lastConfirmedBlockNum =
      Function.update (WitnessRules.confirmations s).lastConfirmedBlockNum
        (WitnessRules.witness σ b)
        (blockNum b) := by
  obtain ⟨elected, hnodup, hne, hconfirmations⟩ := WitnessRules.confirmations_of_applyBlock h
  rw [hconfirmations]
  rfl

/-- A number becomes irreversible with the block that makes a quorum of the active witnesses confirm
it. -/
theorem le_lastIrreversible_iff (h : ChainRules.applyBlock s b = .ok s') (num : ℕ) :
    num ≤ ChainRules.lastIrreversible s' ↔ num ≤ ChainRules.lastIrreversible s ∨
      quorum (activeWitnesses s).length ≤ ((activeWitnesses s).toFinset.filter
        (num ≤ (WitnessRules.confirmations s').lastConfirmedBlockNum ·)).card := by
  obtain ⟨elected, hnodup, hne, hconfirmations⟩ := WitnessRules.confirmations_of_applyBlock h
  obtain ⟨f, hf⟩ : ∃ f, (WitnessRules.confirmations s').lastConfirmedBlockNum = f := ⟨_, rfl⟩
  have hlib : ChainRules.lastIrreversible s' = updateLastIrreversibleBlock
      ((activeWitnesses s).map f) (ChainRules.lastIrreversible s) := by
    rw [WitnessRules.lastIrreversible_eq, WitnessRules.lastIrreversible_eq, ← hf, hconfirmations]
    rfl
  have hcount : ((activeWitnesses s).map f).countP (num ≤ ·) =
      ((activeWitnesses s).toFinset.filter (num ≤ f ·)).card := by
    rw [List.countP_map, List.countP_eq_length_filter,
      ← List.toFinset_card_of_nodup ((nodup_activeWitnesses s).filter _)]
    congr 1
    ext w
    simp
  rw [hlib, hf, le_updateLastIrreversibleBlock_iff, le_irreversibleBlockNum_iff, hcount,
    List.length_map]
  rw [Ne, List.map_eq_nil_iff]
  exact (WitnessRules.confirmations s).ne_nil

theorem WithinHead.applyBlock (hs : WithinHead s) (h : ChainRules.applyBlock s b = .ok s') :
    WithinHead s' := by
  obtain ⟨hnum, hsucc⟩ := numFromId_of_applyBlock h
  have hlast : ∀ w, (WitnessRules.confirmations s').lastConfirmedBlockNum w ≤ blockNum b := by
    intro w
    rw [lastConfirmed_of_applyBlock h, Function.update_apply]
    split_ifs
    · exact le_rfl
    · have := hs.lastConfirmed w
      omega
  refine ⟨fun w ↦ hnum ▸ hlast w, ?_⟩
  rw [hnum]
  rcases (le_lastIrreversible_iff h _).1 le_rfl with hle | hquorum
  · have := hs.lastIrreversible
    omega
  -- some active witness has confirmed the block that is irreversible
  · have hpos : 0 < quorum (activeWitnesses s).length := by
      have hactive := length_activeWitnesses_pos s
      have hquorum := seven_tenths_le_quorum (activeWitnesses s).length
      omega
    obtain ⟨w, hw⟩ := Finset.card_pos.1 (hpos.trans_le hquorum)
    exact (Finset.mem_filter.1 hw).2.trans (hlast w)

/-! ### Runs of blocks -/

variable {s₀ : σ} {trail : List σ} {bs : List β}

namespace Replay

theorem withinHead (h : Replay s₀ s trail bs) (h₀ : WithinHead s₀) : WithinHead s := by
  induction h with
  | nil => exact h₀
  | cons _ happly ih => exact ih.applyBlock happly

/-- The blocks of a run are on the chain of its last state. -/
theorem ancestor (h : Replay s₀ s trail bs) : ∀ b ∈ bs, Ancestor β (ChainRules.headId s)
    (Blocks.id b) := by
  induction h with
  | nil => exact fun b hb ↦ absurd hb List.not_mem_nil
  | @cons s s' trail b bs _ happly ih =>
    intro b' hb'
    rw [ChainRules.headId_of_applyBlock happly]
    rcases List.mem_cons.1 hb' with rfl | hb'
    · exact .refl _
    · refine .step ?_
      rw [ChainRules.previous_of_applyBlock happly]
      exact ih b' hb'

/-- The chain of the last state goes on below the blocks of the run with the one of the first state.
-/
theorem ancestor_base (h : Replay s₀ s trail bs) : Ancestor β (ChainRules.headId s)
    (ChainRules.headId s₀) := by
  induction h with
  | nil => exact .refl _
  | cons _ happly ih =>
    rw [ChainRules.headId_of_applyBlock happly]
    exact .step (ChainRules.previous_of_applyBlock happly ▸ ih)

/-- The block that a witness confirmed last is the last one of the chain that it signed. -/
theorem le_lastConfirmed_iff (h : Replay s₀ s trail bs) (h₀ : WithinHead s₀)
    (hnum : Blocks.numFromId β (ChainRules.headId s₀) < num) (w : ω) :
    num ≤ (WitnessRules.confirmations s).lastConfirmedBlockNum w ↔ Confirms σ bs num w := by
  induction h with
  | nil =>
    have hle := h₀.lastConfirmed w
    refine ⟨fun hn ↦ absurd hn (by omega), ?_⟩
    rintro ⟨b, hb, -⟩
    cases hb
  | @cons s s' trail b bs hrest happly ih =>
    rw [lastConfirmed_of_applyBlock happly, Function.update_apply]
    have hsplit : Confirms σ (b :: bs) num w ↔
        (WitnessRules.witness σ b = w ∧ num ≤ blockNum b) ∨ Confirms σ bs num w := by
      simp only [Confirms, List.exists_mem_cons_iff]
    rw [hsplit, ← ih]
    split_ifs with hw
    -- an earlier block of the witness has a lower number
    · have hle := hrest.withinHead h₀ |>.lastConfirmed w
      have hsucc := (numFromId_of_applyBlock happly).2
      exact ⟨fun hn ↦ .inl ⟨hw.symm, hn⟩, fun hor ↦ hor.elim And.right fun hn ↦ by omega⟩
    · exact ⟨.inr, fun hor ↦ hor.elim (fun hb ↦ absurd hb.1.symm hw) id⟩

/-- **A number above the start is irreversible** exactly when a quorum has confirmed it: at some
block of the run, enough of the witnesses that were active had signed blocks up to this one with at
least this number. -/
theorem le_lastIrreversible_iff_confirmed (h : Replay s₀ s trail bs) (h₀ : WithinHead s₀)
    (hnum : Blocks.numFromId β (ChainRules.headId s₀) < num) :
    num ≤ ChainRules.lastIrreversible s ↔ ∃ j s₁, trail[j]? = some s₁ ∧
      quorum (activeWitnesses s₁).length ≤ (confirmers s₁ (bs.drop j) num).card := by
  induction h with
  | nil =>
    have hle := h₀.lastIrreversible
    refine ⟨fun hn ↦ absurd hn (by omega), ?_⟩
    rintro ⟨j, s₁, hj, -⟩
    cases hj
  | @cons s s' trail b bs hrest happly ih =>
    have hfilter : (activeWitnesses s).toFinset.filter
        (num ≤ (WitnessRules.confirmations s').lastConfirmedBlockNum ·) = confirmers s
          (b :: bs) num :=
      Finset.filter_congr fun w _ ↦ (hrest.cons happly).le_lastConfirmed_iff h₀ hnum w
    rw [le_lastIrreversible_iff happly, hfilter, ih]
    constructor
    · rintro (⟨j, s₁, hj, hquorum⟩ | hquorum)
      · exact ⟨j + 1, s₁, hj, hquorum⟩
      · exact ⟨0, s, rfl, hquorum⟩
    · rintro ⟨j, s₁, hj, hquorum⟩
      cases j with
      | zero =>
        obtain rfl := Option.some.inj hj
        exact .inr hquorum
      | succ j => exact .inl ⟨j, s₁, hj, hquorum⟩

end Replay

end WitnessRules

/-! ### Runs of nodes -/

namespace Node

variable {σ β ι τ ρ κ ω : Type*} [TransactionRules σ τ ρ κ] [RejectsKnown σ] [DecidableEq ι]
    [DecidableEq ω]
  [Blocks β ι (ProcessedTransaction τ ρ)] [WitnessRules σ β ι (ProcessedTransaction τ ρ) ω]
  {n₀ n₀' n n' : Node σ β ι (ProcessedTransaction τ ρ)}

/-- **What makes a block irreversible**: after every run of calls, whatever blocks and transactions
came and whichever branches were switched to, a number above the start is irreversible exactly when,
at some block of the chain of the head, a quorum of the witnesses that were active then had signed
blocks of this chain with at least this number. -/
theorem irreversible_iff_confirmed (h₀ : n₀.Started) (hstart : WithinHead n₀.state)
    (h : Reachable n₀ n) :
    ∃ trail bs, Replay n₀.state n.headState trail (bs : List β) ∧
      ∀ num, Blocks.numFromId β (ChainRules.headId n₀.state) < num →
        (num ≤ ChainRules.lastIrreversible n.headState ↔ ∃ j s₁, trail[j]? = some s₁ ∧
          quorum (activeWitnesses s₁).length ≤ (confirmers s₁ (bs.drop j) num).card) := by
  obtain ⟨trail, bs, hreplay⟩ := h.exists_replay h₀
  exact ⟨trail, bs, hreplay, fun num hnum ↦ hreplay.le_lastIrreversible_iff_confirmed hstart hnum⟩

/-- The witness has signed blocks of two chains, each one over a given block of its chain. -/
def SignedBoth (σ : Type*) {β ι τ ω : Type*} [DecidableEq ω] [Blocks β ι τ] [WitnessRules σ β ι τ ω]
    (head x head' y : ι) (w : ω) : Prop :=
  ∃ b b' : β, WitnessRules.witness σ b = w ∧ WitnessRules.witness σ b' = w ∧
    Ancestor β head (Blocks.id b) ∧ Ancestor β (Blocks.id b) x ∧
    Ancestor β head' (Blocks.id b') ∧ Ancestor β (Blocks.id b') y

/-- The confirmers of a block of a run have signed blocks over it. -/
theorem confirmers_signed {σ β ι τ ω : Type*} [DecidableEq ω] [Blocks β ι τ]
    [WitnessRules σ β ι τ ω]
    {s₀ s s₁ : σ} {trail : List σ} {bs : List β} (h : Replay s₀ s trail bs) {x : ι}
    (hx : Ancestor β (ChainRules.headId s) x) {j : ℕ} {w : ω}
    (hw : w ∈ confirmers s₁ (bs.drop j) (Blocks.numFromId β x)) :
    ∃ b : β, WitnessRules.witness σ b = w ∧ Ancestor β (ChainRules.headId s) (Blocks.id b) ∧
      Ancestor β (Blocks.id b) x := by
  obtain ⟨-, b, hb, hwitness, hle⟩ := Finset.mem_filter.1 hw
  have hb' := h.ancestor b (List.mem_of_mem_drop hb)
  refine ⟨b, hwitness, hb', hx.of_numFromId_le hb' ?_⟩
  rw [Blocks.numFromId_id]
  exact hle

/-- **Conflicting irreversible blocks**: when two nodes that started from the same state hold
different blocks of one number to be irreversible, then each of them had, at some block of its
chain, a quorum of active witnesses behind its own block; so by the sizes of the quorums many
witnesses have signed both a block over the one and a block over the other, and at least four tenths
of them when the active witnesses were the same. -/
theorem irreversible_conflict (h₀ : n₀.Started) (h₀' : n₀'.Started) (hsame : n₀'.state = n₀.state)
    (hstart : WithinHead n₀.state) (h : Reachable n₀ n) (h' : Reachable n₀' n') {x y : ι}
    (hx : Ancestor β (ChainRules.headId n.headState) x)
      (hy : Ancestor β (ChainRules.headId n'.headState) y)
    (hnum : Blocks.numFromId β x = Blocks.numFromId β y) (hne : x ≠ y)
    (hirr : Blocks.numFromId β x ≤ ChainRules.lastIrreversible n.headState)
    (hirr' : Blocks.numFromId β y ≤ ChainRules.lastIrreversible n'.headState) :
    ∃ (trail trail' : List σ) (bs bs' : List β), Replay n₀.state n.headState trail bs ∧
      Replay n₀.state n'.headState trail' bs' ∧ ∃ s ∈ trail, ∃ s' ∈ trail', ∃ both : Finset ω,
        (∀ w ∈ both, w ∈ activeWitnesses s ∧ w ∈ activeWitnesses s' ∧
          SignedBoth σ (ChainRules.headId n.headState) x (ChainRules.headId n'.headState) y w) ∧
        quorum (activeWitnesses s).length + quorum (activeWitnesses s').length ≤
          ((activeWitnesses s).toFinset ∪ (activeWitnesses s').toFinset).card + both.card ∧
        ((activeWitnesses s).toFinset = (activeWitnesses s').toFinset →
          4 * (activeWitnesses s).length ≤ 10 * both.card) := by
  obtain ⟨trail, bs, hreplay⟩ := h.exists_replay h₀
  obtain ⟨trail', bs', hreplay'⟩ := h'.exists_replay h₀'
  rw [hsame] at hreplay'
  -- the two blocks are above the start, below which the chains are the same
  have habove : Blocks.numFromId β (ChainRules.headId n₀.state) < Blocks.numFromId β x := by
    by_contra hle
    rw [not_lt] at hle
    have hx₀ := hx.of_numFromId_le hreplay.ancestor_base hle
    have hy₀ := hy.of_numFromId_le hreplay'.ancestor_base (hnum ▸ hle)
    exact hne ((hy₀.of_numFromId_le hx₀ hnum.ge).eq_of_numFromId_le hnum.le)
  obtain ⟨j, s, hj, hquorum⟩ := (hreplay.le_lastIrreversible_iff_confirmed hstart habove).1 hirr
  obtain ⟨j', s', hj', hquorum'⟩ :=
    (hreplay'.le_lastIrreversible_iff_confirmed hstart (hnum ▸ habove)).1 hirr'
  have hcard := card_add_card_le_union_add_inter
    (confirmers_subset s (bs.drop j) (Blocks.numFromId β x))
    (confirmers_subset s' (bs'.drop j') (Blocks.numFromId β y))
  refine ⟨trail, trail', bs, bs', hreplay, hreplay', s, List.mem_of_getElem? hj, s',
    List.mem_of_getElem? hj', _, fun w hw ↦ ?_, (Nat.add_le_add hquorum hquorum').trans hcard,
    fun hactive ↦ ?_⟩
  · obtain ⟨hw, hw'⟩ := Finset.mem_inter.1 hw
    obtain ⟨b, hb, hhead, hover⟩ := confirmers_signed hreplay hx hw
    obtain ⟨b', hb', hhead', hover'⟩ := confirmers_signed hreplay' hy hw'
    exact ⟨List.mem_toFinset.1 (confirmers_subset _ _ _ hw),
      List.mem_toFinset.1 (confirmers_subset _ _ _ hw'), b, b', hb, hb', hhead, hover, hhead',
        hover'⟩
  · have hunion := (Nat.add_le_add hquorum hquorum').trans hcard
    have hlength : (activeWitnesses s).length = (activeWitnesses s').length := by
      rw [← List.toFinset_card_of_nodup (nodup_activeWitnesses s),
        ← List.toFinset_card_of_nodup (nodup_activeWitnesses s'), hactive]
    rw [← hactive, ← hlength, Finset.union_self, List.toFinset_card_of_nodup
      (nodup_activeWitnesses s)] at hunion
    have hquorum := seven_tenths_le_quorum (activeWitnesses s).length
    omega

end Node

/-! ### Four witnesses on two branches -/

namespace ElectionChain

/-- Four witnesses are active. -/
def fourWitnesses : Confirmations ℕ where
  activeWitnesses := [0, 1, 2, 3]
  nodup := by decide
  ne_nil := by decide
  lastConfirmedBlockNum _ := 0
  lastIrreversibleBlockNum := 0

/-- The node of the genesis state. -/
def genesisNode : Node := { state := ⟨[], fourWitnesses⟩ }

/-- A block of the first branch. -/
def left (witness : ℕ) : Entry := ⟨witness, [0, 1, 2, 3], by decide, by decide⟩

/-- A block of the second branch. -/
def right (witness : ℕ) : Entry := ⟨witness, [3, 2, 1, 0], by decide, by decide⟩

/-- The first witnesses sign the one branch. -/
def leftNode : Node :=
  genesisNode.pushAll [⟨left 0, []⟩, ⟨left 1, [left 0]⟩, ⟨left 2, [left 1, left 0]⟩]

/-- Two of them and the last one sign the other branch. -/
def rightNode : Node :=
  genesisNode.pushAll [⟨right 0, []⟩, ⟨right 1, [right 0]⟩, ⟨right 3, [right 1, right 0]⟩]

theorem genesisNode_started : genesisNode.Started :=
  ⟨rfl, Nat.le_add_left 1 255, Nat.le_add_left 1 1023, rfl, rfl, rfl, .inl ⟨rfl, rfl, rfl⟩⟩

theorem genesisNode_withinHead : WithinHead genesisNode.state :=
  ⟨fun _ ↦ le_rfl, le_rfl⟩

theorem irreversible_iff_confirmed_left : ∃ trail bs,
    Replay genesisNode.state leftNode.headState trail bs ∧
    (1 ≤ ChainRules.lastIrreversible leftNode.headState ↔ ∃ j s₁, trail[j]? = some s₁ ∧
      quorum (activeWitnesses s₁).length ≤ (confirmers s₁ (bs.drop j) 1).card) := by
  obtain ⟨trail, bs, hreplay, hiff⟩ := Node.irreversible_iff_confirmed genesisNode_started
    genesisNode_withinHead (Node.Reachable.refl.pushAll _ : Node.Reachable genesisNode leftNode)
  exact ⟨trail, bs, hreplay, hiff 1 Nat.one_pos⟩

theorem ancestor_of_suffix (above head : List Entry) : Ancestor Block (above ++ head) head := by
  induction above with
  | nil => exact .refl _
  | cons entry above ih => exact .step (b := (⟨entry, above ++ head⟩ : Block)) ih

theorem irreversible_conflict_branches : ∃ (s s' : State) (both : Finset ℕ),
    (∀ w ∈ both, w ∈ activeWitnesses s ∧ w ∈ activeWitnesses s' ∧
      Node.SignedBoth State leftNode.headState.head [left 0] rightNode.headState.head [right 0] w) ∧
    quorum (activeWitnesses s).length + quorum (activeWitnesses s').length ≤
      ((activeWitnesses s).toFinset ∪ (activeWitnesses s').toFinset).card + both.card := by
  have hleft : leftNode.headState.head = [left 2, left 1] ++ [left 0] := by decide
  have hright : rightNode.headState.head = [right 3, right 1] ++ [right 0] := by decide
  have hx : Ancestor Block leftNode.headState.head [left 0] := by
    rw [hleft]
    exact ancestor_of_suffix _ _
  have hy : Ancestor Block rightNode.headState.head [right 0] := by
    rw [hright]
    exact ancestor_of_suffix _ _
  obtain ⟨-, -, -, -, -, -, s, -, s', -, both, hboth, hcard, -⟩ :=
    Node.irreversible_conflict genesisNode_started genesisNode_started rfl genesisNode_withinHead
      (Node.Reachable.refl.pushAll _ : Node.Reachable genesisNode leftNode)
      (Node.Reachable.refl.pushAll _ : Node.Reachable genesisNode rightNode) hx hy rfl (by decide)
      (by decide) (by decide)
  exact ⟨s, s', both, hboth, hcard⟩

end ElectionChain

end Playchain
