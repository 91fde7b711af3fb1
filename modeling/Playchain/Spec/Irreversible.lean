import Playchain.Spec.Pool

/-!
# Irreversible blocks

The windows of the fork database and of the undo stack follow from the last irreversible block before the
head block, plus one, so a branch that parts from the chain below the last irreversible block can still be
switched to (`irreversible_undone`). What the code does keep is shown here: as long as the fork database
holds no block off the chain with an irreversible number, the irreversible blocks stay.
-/

namespace Playchain

namespace Node

section Push

variable {σ β ι τ : Type*} [Blocks β ι τ] [ChainRules σ β ι τ] {n m : Node σ β ι τ} {b : β}

/-- Before a push: the fork database is not ahead of the chain, and neither it nor the new block has a
block off the chain with a number up to a given one. -/
structure Settled (n : Node σ β ι τ) (reached : ℕ) (b : β) : Prop where
  num_le : ∀ it ∈ n.fork.alive, it.num ≤ n.headNum
  alive : ∀ it ∈ n.fork.alive, it.num ≤ reached → Ancestor β n.headId it.id
  pushed : blockNum b ≤ reached → Ancestor β n.headId (Blocks.id b)

variable [DecidableEq ι] {reached : ℕ}

/-- **The branches of a switch part above the settled blocks.** -/
theorem Settled.le_branchRoot (h : n.Settled reached b) (hfork : n.fork.Tied) {f₀ : ForkDatabase β}
    (hpush : n.fork.pushBlock b = .ok f₀) {newHead : ForkItem β} {first second : List (ForkItem β)}
    (hprev : newHead.previousId ≠ n.headId) (hlt : n.headNum < newHead.num)
    (hfetch : f₀.fetchBranchFrom newHead.id n.headId = some (first, second)) :
    Ancestor β n.headId (branchRoot second) ∧ reached ≤ Blocks.numFromId β (branchRoot second : ι) := by
  obtain ⟨htied, halive⟩ := hfork.pushBlock hpush
  obtain ⟨⟨-, hfirst⟩, ⟨hsecond, -⟩, as, bs, x, y, rfl, rfl, hroot⟩ := htied.fetchBranchFrom_branch hfetch
  -- the new head is the block that is pushed, with the next number
  have hfetched : ∀ z, f₀.fetchBlock newHead.id = some z → z.data = newHead.data ∧ z ∈ f₀.alive := by
    intro z hz
    obtain ⟨hmem, hid⟩ := ForkDatabase.mem_of_fetchBlock hz
    exact ⟨Blocks.id_inj hid, ForkDatabase.mem_alive.2 (.inl hmem)⟩
  have hold : ∀ z, f₀.fetchBlock n.headId = some z → z.id = n.headId ∧ z.num = n.headNum := by
    intro z hz
    obtain ⟨-, hid⟩ := ForkDatabase.mem_of_fetchBlock hz
    exact ⟨hid, by rw [z.num_eq, hid]; rfl⟩
  obtain ⟨as', bs', x', y', hx', hy', hne⟩ := htied.fetchBranchFrom_apart hfetch
    (fun z w hz hw hlink ↦ by
      obtain ⟨hdata, hmem⟩ := hfetched z hz
      obtain ⟨hid, hnum⟩ := hold w hw
      have hznum : z.num = newHead.num := by rw [ForkItem.num, hdata]; rfl
      have hzprev : z.previousId = newHead.previousId := by rw [ForkItem.previousId, hdata]; rfl
      rcases halive z hmem with hmem | ⟨hb, hnone | ⟨p, hp, hpid, -⟩⟩
      · exact absurd (h.num_le z hmem) (by omega)
      · rw [ForkDatabase.previousOf, hnone] at hlink
        exact absurd rfl hlink
      · have hple := h.num_le p (ForkDatabase.mem_alive.2 (.inl hp))
        have hpnum : z.num = p.num + 1 := by
          rw [p.num_eq, hpid, ← hb]
          rfl
        exact ⟨by omega, by rw [hzprev, hid]; exact hprev⟩)
    (fun z w hz hw ↦ by
      obtain ⟨hdata, -⟩ := hfetched z hz
      have hznum : z.num = newHead.num := by rw [ForkItem.num, hdata]; rfl
      rw [hznum, (hold w hw).2]
      exact hlt)
  obtain rfl : x' = x := (List.cons.inj (List.append_inj' hx' rfl).2).1.symm
  obtain rfl : y' = y := (List.cons.inj (List.append_inj' hy' rfl).2).1.symm
  rw [branchRoot_append]
  obtain ⟨hy, hyroot⟩ := hsecond.ancestor
  refine ⟨hyroot, ?_⟩
  by_contra hle
  have hxnum : x'.num = y'.num := by
    rw [x'.numFromId_previousId, y'.numFromId_previousId, hroot]
  have hxle : x'.num ≤ reached := by
    rw [hxnum, y'.numFromId_previousId]
    omega
  -- a block of the new branch with a settled number would be on the chain
  have hx : Ancestor β n.headId x'.id := by
    rcases halive x' (hfirst x' (List.mem_append_right _ (List.mem_singleton.2 rfl))) with hmem | ⟨hb, -⟩
    · exact h.alive x' hmem hxle
    · have hid : x'.id = Blocks.id b := by rw [ForkItem.id, hb]
      rw [hid]
      refine h.pushed ?_
      rw [← hb]
      exact hxle
  refine hne ((hy.of_numFromId_le hx ?_).eq_of_numFromId_le ?_)
  · rw [← x'.num_eq, ← y'.num_eq, hxnum]
  · rw [← x'.num_eq, ← y'.num_eq, hxnum]

/-- **A push over a settled chain** leaves the settled blocks on the chain. -/
theorem Settled.pushBlockImpl (h : n.Settled reached b) (hpending : n.pendingSession = false)
    (hfork : n.fork.Tied) (htraced : n.Traced) {x : ι} (hx : Ancestor β n.headId x)
    (hle : Blocks.numFromId β x ≤ reached) :
    Ancestor β (pushLeft (n.pushBlockImpl b)).headId x := by
  rcases pushBlockImpl_moves hpending hfork b with
    hsame | ⟨f₀, hpush, hmoves | ⟨newHead, first, second, -, hprev, hlt, hfetch, hmoves⟩⟩
  · rw [hsame]
    exact hx
  · exact hmoves.ancestor_headId.trans hx
  · obtain ⟨hroot, hreached⟩ := h.le_branchRoot hfork hpush hprev hlt hfetch
    exact (hmoves.ancestor_of_stop htraced hroot).trans (hx.of_numFromId_le hroot (hle.trans hreached))

end Push

/-! ### Runs -/

variable {σ β ι τ ρ κ : Type*} [TransactionRules σ τ ρ κ] [DecidableEq ι]
  [Blocks β ι (ProcessedTransaction τ ρ)] [ChainRules σ β ι (ProcessedTransaction τ ρ)]
  {n₀ n n' : Node σ β ι (ProcessedTransaction τ ρ)} {r r₀ r' : ℕ}

/-- Calls of `push_block` over settled chains, with the greatest last irreversible block that the object
state has reached. -/
inductive SettledRun (r₀ : ℕ) (n₀ : Node σ β ι (ProcessedTransaction τ ρ)) :
    ℕ → Node σ β ι (ProcessedTransaction τ ρ) → Prop
  | refl : SettledRun r₀ n₀ r₀ n₀
  | push {r : ℕ} {n : Node σ β ι (ProcessedTransaction τ ρ)} {b : β} (h : SettledRun r₀ n₀ r n)
    (hsettled : n.clearPending.Settled r b) :
    SettledRun r₀ n₀ (max r (ChainRules.lastIrreversible (pushLeft (n.pushBlock b)).headState))
      (pushLeft (n.pushBlock b))

/-- What every call keeps below the pool. -/
structure ChainKept (n : Node σ β ι (ProcessedTransaction τ ρ)) : Prop where
  traced : n.clearPending.Traced
  tied : n.clearPending.fork.Tied
  one_le : 1 ≤ n.clearPending.undoMaxSize

omit [TransactionRules σ τ ρ κ] [DecidableEq ι] in
theorem Started.chainKept (h : n.Started) : n.ChainKept := by
  refine ⟨⟨n.state, [], ?_⟩, ?_, ?_⟩
  · rw [clearPending_of_false h.pendingSession]
    dsimp only
    rw [h.undoStack]
    exact .nil
  · rw [clearPending_of_false h.pendingSession]
    exact h.linked.tied
  · rw [clearPending_of_false h.pendingSession]
    exact h.undoMaxSize

theorem ChainKept.pushBlock (h : n.ChainKept) (b : β) :
    (pushLeft (n.pushBlock b)).ChainKept ∧
      (pushLeft (n.pushBlock b)).headState = (pushLeft (n.clearPending.pushBlockImpl b)).state := by
  obtain ⟨hsession, hpending, -⟩ := clearPending_pool n
  obtain ⟨hsession', hpending', htied, hsize, -, htraced, -⟩ :=
    pushBlockImpl_kept hsession h.tied h.one_le h.traced b _ rfl
  obtain ⟨hstate, ⟨k, hstack⟩, hfork, -, hmax⟩ :=
    pushBlock_below hsession' (hpending'.trans hpending) hsize rfl rfl
  refine ⟨⟨?_, hfork ▸ htied, hmax ▸ hsize⟩, hstate⟩
  have hstate' : (pushLeft (n.pushBlock b)).clearPending.state =
    (pushLeft (n.clearPending.pushBlockImpl b)).state := hstate
  rw [Traced, hstate', hstack]
  exact htraced.take k

/-- One call leaves the settled blocks on the chain. -/
theorem ChainKept.ancestor (h : n.ChainKept) {b : β} (hsettled : n.clearPending.Settled r b) {x : ι}
    (hx : Ancestor β (ChainRules.headId n.headState) x) (hle : Blocks.numFromId β x ≤ r) :
    Ancestor β (ChainRules.headId (pushLeft (n.pushBlock b)).headState) x := by
  rw [(h.pushBlock b).2]
  exact hsettled.pushBlockImpl (clearPending_pool n).1 h.tied h.traced hx hle

theorem SettledRun.chainKept (h₀ : n₀.ChainKept) (h : SettledRun r₀ n₀ r n) : n.ChainKept := by
  induction h with
  | refl => exact h₀
  | push _ _ ih => exact (ih.pushBlock _).1

theorem SettledRun.le (h : SettledRun r₀ n₀ r n) : r₀ ≤ r := by
  induction h with
  | refl => exact le_rfl
  | push _ _ ih => exact ih.trans (le_max_left _ _)

/-- **Irreversible blocks stay**: in every run of calls of `push_block` over settled chains, once the last
irreversible block has reached a number, the block of the chain at every height up to it stays the same
forever. -/
theorem irreversible_stays (h₀ : n₀.Started)
    (h : SettledRun (ChainRules.lastIrreversible n₀.headState) n₀ r n) (h' : SettledRun r n r' n') {x : ι}
    (hx : Ancestor β (ChainRules.headId n.headState) x) (hle : Blocks.numFromId β x ≤ r) :
    Ancestor β (ChainRules.headId n'.headState) x ∧
      ∀ y, Ancestor β (ChainRules.headId n'.headState) y →
        Blocks.numFromId β y = Blocks.numFromId β x → y = x := by
  have hkept := h.chainKept h₀.chainKept
  have hx' : Ancestor β (ChainRules.headId n'.headState) x := by
    induction h' with
    | refl => exact hx
    | push h' hsettled ih => exact (h'.chainKept hkept).ancestor hsettled ih (hle.trans h'.le)
  exact ⟨hx', fun y hy hnum ↦ (hx'.of_numFromId_le hy hnum.ge).eq_of_numFromId_le hnum.le⟩

end Node

namespace WitnessChain

/-! ### A switch above the last irreversible block -/

/-- An id is a chain, so the blocks below it are its suffixes. -/
theorem ancestor_of_suffix {id x : List Entry} (h : x <:+ id) : Ancestor Block id x := by
  obtain ⟨l, rfl⟩ := h
  induction l with
  | nil => exact .refl x
  | cons entry l ih => exact Ancestor.step (b := (⟨entry, l ++ x⟩ : Block)) ih

theorem settled_of_suffix {n : Node} {reached : ℕ} {b : Block}
    (halive : ∀ it ∈ n.fork.alive, it.num ≤ n.headNum ∧ (it.num ≤ reached → it.id <:+ n.headId))
    (hpushed : blockNum b ≤ reached → Blocks.id b <:+ n.headId) : n.Settled reached b where
  num_le it hit := (halive it hit).1
  alive it hit hle := ancestor_of_suffix ((halive it hit).2 hle)
  pushed hle := ancestor_of_suffix (hpushed hle)

/-- A block that is pushed over a settled chain, with the greatest last irreversible block after it. -/
theorem settledRun_push {r₀ r r' : ℕ} {n₀ n : Node} (b : Block) (h : Node.SettledRun r₀ n₀ r n)
    (halive : ∀ it ∈ n.clearPending.fork.alive,
      it.num ≤ n.clearPending.headNum ∧ (it.num ≤ r → it.id <:+ n.clearPending.headId))
    (hpushed : blockNum b ≤ r → Blocks.id b <:+ n.clearPending.headId)
    (hreached : max r (n.pushAll [b]).headState.lastIrreversible = r') :
    Node.SettledRun r₀ n₀ r' (n.pushAll [b]) := by
  rw [← hreached]
  exact .push h (settled_of_suffix halive hpushed)

/-- The chain that witnesses make in turn. -/
def chainBy : List ℕ → List Entry
  | [] => []
  | witness :: rest => ⟨rest.length + 1, witness, true, []⟩ :: chainBy rest

/-- The block that a witness makes on the chain of witnesses. -/
def blockBy (witness : ℕ) (rest : List ℕ) : Block := ⟨⟨rest.length + 1, witness, true, []⟩, chainBy rest⟩

/-- Two witnesses make three blocks, of which two are irreversible. -/
def threeByTwo : Node := (genesis 2).pushAll [blockBy 0 [], blockBy 1 [0], blockBy 0 [1, 0]]

theorem settledRun_threeByTwo : Node.SettledRun 0 (genesis 2) 2 threeByTwo := by
  have h₁ : Node.SettledRun 0 (genesis 2) 0 ((genesis 2).pushAll [blockBy 0 []]) :=
    settledRun_push _ .refl (by decide) (by decide) (by decide)
  have h₂ : Node.SettledRun 0 (genesis 2) 1 ((genesis 2).pushAll [blockBy 0 [], blockBy 1 [0]]) :=
    settledRun_push (blockBy 1 [0]) h₁ (by decide) (by decide) (by decide)
  exact settledRun_push (blockBy 0 [1, 0]) h₂ (by decide) (by decide) (by decide)

/-- Two blocks of another branch, which parts above the last irreversible block, take the place of the
third block, and the two irreversible ones stay. -/
theorem irreversible_stays_switch :
    threeByTwo.headState.lastIrreversible = 2 ∧ threeByTwo.headState.head = chainBy [0, 1, 0] ∧
      (threeByTwo.pushAll [blockBy 1 [1, 0], blockBy 0 [1, 1, 0]]).headState.head = chainBy [0, 1, 1, 0] ∧
      Ancestor Block (chainBy [0, 1, 1, 0]) (chainBy [1, 0]) ∧
      ∀ y, Ancestor Block (chainBy [0, 1, 1, 0]) y → y.length = 2 → y = chainBy [1, 0] := by
  have hhead : (threeByTwo.pushAll [blockBy 1 [1, 0], blockBy 0 [1, 1, 0]]).headState.head =
      chainBy [0, 1, 1, 0] := by decide
  have h₁ : Node.SettledRun 2 threeByTwo 2 (threeByTwo.pushAll [blockBy 1 [1, 0]]) :=
    settledRun_push _ .refl (by decide) (by decide) (by decide)
  have h₂ : Node.SettledRun 2 threeByTwo 3 (threeByTwo.pushAll [blockBy 1 [1, 0], blockBy 0 [1, 1, 0]]) :=
    settledRun_push (blockBy 0 [1, 1, 0]) h₁ (by decide) (by decide) (by decide)
  obtain ⟨hstays, hunique⟩ := Node.irreversible_stays (genesis_started 2) settledRun_threeByTwo h₂
    (x := chainBy [1, 0]) (ancestor_of_suffix (by decide)) (by decide)
  refine ⟨by decide, by decide, hhead, hhead ▸ hstays, fun y hy ↦ hunique y ?_⟩
  rw [← hhead] at hy
  exact hy

/-! ### A chain of one witness -/

/-- A block of a chain with one witness. -/
def single (tag : ℕ) (chain : List Entry) : Block := ⟨⟨tag, 0, true, []⟩, chain⟩

/-- With one witness every block is irreversible as soon as it is applied, and yet the first block is
popped when a branch of two blocks arrives. -/
theorem irreversible_undone :
    ((genesis 1).pushAll [single 1 []]).headState.lastIrreversible = 1 ∧
      ((genesis 1).pushAll [single 1 []]).headState.head = [⟨1, 0, true, []⟩] ∧
      ((genesis 1).pushAll [single 1 [], single 2 [], single 2 [⟨2, 0, true, []⟩]]).headState.head =
        [⟨2, 0, true, []⟩, ⟨2, 0, true, []⟩] :=
  ⟨by decide, by decide, by decide⟩

end WitnessChain

end Playchain
