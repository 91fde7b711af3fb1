import Playchain.Spec.ForkSwitch

/-!
# What a push of a block can do

Whatever happens during `_push_block`, the node goes by small moves (`Node.Moves`): the fork database
loses items, a block is popped, a block is applied, or a block fails. What every push keeps, on every
exit path, follows from these moves.
-/

namespace Playchain

/-! ### The chain below a block -/

section Ancestor

variable {β ι τ : Type*} [Blocks β ι τ]

/-- A block of the chain that ends with a given one. -/
inductive Ancestor (β : Type*) {ι τ : Type*} [Blocks β ι τ] : ι → ι → Prop
  | refl (id : ι) : Ancestor β id id
  | step {b : β} {x : ι} (h : Ancestor β (Blocks.previous b) x) : Ancestor β (Blocks.id b) x

namespace Ancestor

variable {id x y : ι}

theorem numFromId_le (h : Ancestor β id x) : Blocks.numFromId β x ≤ Blocks.numFromId β id := by
  induction h with
  | refl => exact le_rfl
  | step _ ih =>
    rw [Blocks.numFromId_id]
    omega

/-- A chain has one block of each number. -/
theorem eq_of_numFromId_le (h : Ancestor β id x)
    (hle : Blocks.numFromId β id ≤ Blocks.numFromId β x) : id = x := by
  cases h with
  | refl => rfl
  | step h =>
    have hlt := h.numFromId_le
    rw [Blocks.numFromId_id] at hle
    omega

theorem trans (h : Ancestor β id x) (h' : Ancestor β x y) : Ancestor β id y := by
  induction h with
  | refl => exact h'
  | step _ ih => exact .step (ih h')

/-- Below a block other than itself is the chain of its previous block. -/
theorem of_ne {b : β} (h : Ancestor β (Blocks.id b) x) (hne : Blocks.id b ≠ x) :
    Ancestor β (Blocks.previous b) x := by
  generalize hid : Blocks.id b = id at h
  cases h with
  | refl => exact absurd hid hne
  | step h =>
    rw [Blocks.id_inj hid]
    exact h

/-- Two blocks of one chain: the lower one is on the chain of the higher one. -/
theorem of_numFromId_le (hx : Ancestor β id x) (hy : Ancestor β id y)
    (hle : Blocks.numFromId β x ≤ Blocks.numFromId β y) : Ancestor β y x := by
  induction hy with
  | refl => exact hx
  | @step b y hy ih =>
    refine ih (hx.of_ne fun heq ↦ ?_) hle
    have hlt := hy.numFromId_le
    rw [← heq, Blocks.numFromId_id] at hle
    omega

end Ancestor

/-- The blocks of a branch, and the block it starts from, are on the chain. -/
theorem Branch.ancestor {id : ι} {branch : List (ForkItem β)} {x : ForkItem β}
    (h : Branch id (branch ++ [x])) : Ancestor β id x.id ∧ Ancestor β id x.previousId := by
  induction branch generalizing id with
  | nil =>
    obtain ⟨rfl, -⟩ := h
    exact ⟨.refl _, .step (.refl _)⟩
  | cons it branch ih =>
    obtain ⟨rfl, h⟩ := h
    exact ⟨.step (ih h).1, .step (ih h).2⟩

end Ancestor

/-! ### The fork database of a push -/

namespace ForkDatabase

variable {β ι τ : Type*} [Blocks β ι τ] {f₀ f f' : ForkDatabase β} {it : ForkItem β}

/-- A fork database has no other items than a given one. -/
structure Within (f₀ f : ForkDatabase β) : Prop where
  alive : ∀ it ∈ f.alive, it ∈ f₀.alive
  nextRef : f.nextRef = f₀.nextRef
  one_le : 1 ≤ f₀.maxSize → 1 ≤ f.maxSize

namespace Within

theorem refl (f : ForkDatabase β) : Within f f := ⟨fun _ h ↦ h, rfl, id⟩

theorem tied (h : Within f₀ f) (hf₀ : f₀.Tied) : f.Tied := hf₀.subset h.alive h.nextRef

/-- Items of the index are dropped. -/
theorem of_index (h : Within f₀ f) (hindex : ∀ it ∈ f'.index, it ∈ f.index)
    (hhead : ∀ it, f'.head = some it → it ∈ f₀.alive) (hnext : f'.nextRef = f.nextRef)
    (hsize : 1 ≤ f.maxSize → 1 ≤ f'.maxSize) : Within f₀ f' := by
  refine ⟨fun it hit ↦ ?_, hnext.trans h.nextRef, fun hle ↦ hsize (h.one_le hle)⟩
  rcases mem_alive.1 hit with hit | hit
  · exact h.alive it (mem_alive.2 (.inl (hindex it hit)))
  · exact hhead it hit

theorem setMaxSize (h : Within f₀ f) {size : ℕ} (hsize : 1 ≤ size) : Within f₀ (f.setMaxSize size) := by
  refine h.of_index (fun it hit ↦ mem_of_setMaxSize hit) (fun it hit ↦ ?_) ?_ fun _ ↦ ?_
  · rw [setMaxSize_head] at hit
    exact h.alive it (mem_alive.2 (.inr hit))
  · rw [ForkDatabase.setMaxSize]
    cases f.head <;> rfl
  · rw [ForkDatabase.setMaxSize]
    cases f.head <;> exact hsize

theorem setHead (h : Within f₀ f) {head : Option (ForkItem β)}
    (hhead : ∀ it, head = some it → it ∈ f₀.alive) : Within f₀ (f.setHead head) :=
  h.of_index (fun _ hit ↦ hit) hhead rfl id

theorem popBlock (h : Within f₀ f) (hpop : f.popBlock = some f') : Within f₀ f' := by
  simp only [ForkDatabase.popBlock, Option.bind_eq_bind, Option.bind_eq_some_iff] at hpop
  obtain ⟨x, -, p, hp, hpop⟩ := hpop
  cases hpop
  refine h.of_index (fun _ hit ↦ hit) (fun it hit ↦ ?_) rfl id
  obtain rfl := Option.some.inj hit
  rw [previousOf, Option.bind_eq_some_iff] at hp
  obtain ⟨r, -, hp⟩ := hp
  exact h.alive p (List.mem_of_find?_eq_some hp)

variable [DecidableEq ι]

theorem remove (h : Within f₀ f) (id : ι) : Within f₀ (f.remove id) := by
  obtain ⟨g, hg⟩ : ∃ g : ForkDatabase β, g = { f with index := f.index.filter fun it ↦ it.id ≠ id } :=
    ⟨_, rfl⟩
  have hwithin : Within f₀ g := by
    rw [hg]
    refine h.of_index (fun it hit ↦ (List.mem_filter.1 hit).1) (fun it hit ↦ ?_) rfl fun hle ↦ hle
    exact h.alive it (mem_alive.2 (.inr hit))
  rw [ForkDatabase.remove]
  dsimp only
  rw [← hg]
  rcases hhead : f.head with - | x
  · exact hwithin
  · dsimp only
    split_ifs
    · rcases hpop : g.popBlock with - | g'
      · refine hwithin.of_index (fun it hit ↦ ?_) (fun it hit ↦ (by cases hit)) (by rw [hg]; rfl)
          (by rw [hg]; exact fun hle ↦ hle)
        rw [hg]
        exact hit
      · exact hwithin.popBlock hpop
    · exact hwithin

theorem removeAll (h : Within f₀ f) (items : List (ForkItem β)) : Within f₀ (f.removeAll items) := by
  induction items generalizing f with
  | nil => exact h
  | cons x items ih => exact ih (h.remove x.id)

end Within

end ForkDatabase

/-! ### The moves of a push -/

namespace Node

variable {σ β ι τ : Type*} [Blocks β ι τ] [ChainRules σ β ι τ] {n m m' : Node σ β ι τ}

/-- A node as it is started: from the genesis state, or with the head block in the fork database. -/
structure Started (n : Node σ β ι τ) : Prop where
  undoStack : n.undoStack = []
  undoMaxSize : 1 ≤ n.undoMaxSize
  maxSize : 1 ≤ n.fork.maxSize
  pendingTx : n.pendingTx = []
  pendingSession : n.pendingSession = false
  poppedTx : n.poppedTx = []
  fork : n.fork.index = [] ∧ n.fork.head = none ∧ n.headId = Blocks.noBlock β ∨
    ∃ item, n.fork.index = [item] ∧ n.fork.head = some item ∧ item.id = n.headId ∧ item.prev = none ∧
      item.ref < n.fork.nextRef

theorem Started.linked (h : n.Started) : n.fork.Linked := by
  rcases h.fork with ⟨hindex, hhead, -⟩ | ⟨item, hindex, hhead, -, hprev, href⟩
  · refine ⟨?_, ?_, ?_, ?_, ?_, ?_⟩
    all_goals simp [hindex, hhead]
  · refine ⟨?_, ?_, ?_, ?_, ?_, ?_⟩
    all_goals simp [hindex, hhead, hprev, href]

/-- The node that is left, whether a call returns or throws. -/
def left : Except (Node σ β ι τ) (Node σ β ι τ) → Node σ β ι τ
  | .ok m => m
  | .error m => m

/-- The node that is left after a push. -/
def pushLeft : Except (PushFailure ι × Node σ β ι τ) (Node σ β ι τ) → Node σ β ι τ
  | .ok m => m
  | .error (_, m) => m

/-- What `_push_block` can do to a node after its block is in the fork database `f₀`: no block is popped
when the head is one to stop at. -/
inductive Moves (stop : ι → Prop) (f₀ : ForkDatabase β) (n : Node σ β ι τ) : Node σ β ι τ → Prop
  | refl : Moves stop f₀ n n
  | fork {m : Node σ β ι τ} {f : ForkDatabase β} (h : Moves stop f₀ n m) (hf : f₀.Within f) :
    Moves stop f₀ n { m with fork := f }
  | pop {m : Node σ β ι τ} {it : ForkItem β} {s : σ} {rest : List σ} (h : Moves stop f₀ n m)
    (hstop : ¬stop m.headId) (hid : it.id = m.headId) (hstack : m.undoStack = s :: rest) :
    Moves stop f₀ n { m with
      state := s
      undoStack := rest
      poppedTx := Blocks.transactions it.data ++ m.poppedTx }
  | apply {m : Node σ β ι τ} {b : β} {s : σ} (h : Moves stop f₀ n m)
    (happly : ChainRules.applyBlock m.state b = .ok s) :
    Moves stop f₀ n { m with
      state := s
      undoStack := m.state :: m.undoStack.take m.undoMaxSize
      undoMaxSize := windowSize m.state b
      blockIds := Function.update m.blockIds (blockNum b) (some (Blocks.id b)) }
  | fail {m : Node σ β ι τ} (size : ℕ) (h : Moves stop f₀ n m)
    (hsize : size = m.undoMaxSize ∨ 1 ≤ size) :
    Moves stop f₀ n { m with
      undoStack := m.undoStack.take m.undoMaxSize
      undoMaxSize := size }

namespace Moves

variable {stop : ι → Prop} {f₀ : ForkDatabase β}

theorem pendingSession (h : Moves stop f₀ n m) : m.pendingSession = n.pendingSession := by
  induction h with
  | refl => rfl
  | fork _ _ ih | pop _ _ _ _ ih | apply _ _ ih | fail _ _ _ ih => exact ih

theorem pendingTx (h : Moves stop f₀ n m) : m.pendingTx = n.pendingTx := by
  induction h with
  | refl => rfl
  | fork _ _ ih | pop _ _ _ _ ih | apply _ _ ih | fail _ _ _ ih => exact ih

theorem within (h : Moves stop f₀ n m) (hn : f₀.Within n.fork) : f₀.Within m.fork := by
  induction h with
  | refl => exact hn
  | fork _ hf _ => exact hf
  | pop _ _ _ _ ih | apply _ _ ih | fail _ _ _ ih => exact ih

theorem one_le_undoMaxSize (h : Moves stop f₀ n m) (hn : 1 ≤ n.undoMaxSize) : 1 ≤ m.undoMaxSize := by
  induction h with
  | refl => exact hn
  | fork _ _ ih | pop _ _ _ _ ih => exact ih
  | apply => exact Nat.le_add_left _ _
  | fail _ _ hsize ih =>
    rcases hsize with rfl | hsize
    · exact ih
    · exact hsize

end Moves

/-- The undo records lead to the state by blocks. -/
def Traced (n : Node σ β ι τ) : Prop := ∃ base bs, Replay base n.state n.undoStack (bs : List β)

theorem Traced.take (h : n.Traced) (k : ℕ) : ({ n with undoStack := n.undoStack.take k }).Traced := by
  obtain ⟨base, bs, hreplay⟩ := h
  obtain ⟨base', hreplay'⟩ := hreplay.take k
  exact ⟨base', _, hreplay'⟩

/-- The latest record is the one of the head block. -/
theorem Traced.headId_eq (h : n.Traced) {s : σ} {rest : List σ} (hstack : n.undoStack = s :: rest) :
    ∃ b : β, n.headId = Blocks.id b ∧ Blocks.previous b = ChainRules.headId s ∧
      ({ n with state := s, undoStack := rest }).Traced := by
  obtain ⟨base, bs, hreplay⟩ := h
  rw [hstack] at hreplay
  cases hreplay with
  | cons hrest happly =>
    exact ⟨_, ChainRules.headId_of_applyBlock happly, ChainRules.previous_of_applyBlock happly, _, _,
      hrest⟩

omit [Blocks β ι τ] [ChainRules σ β ι τ] in
theorem popUndo_eq (h : n.popUndo = some m) :
    ∃ s rest, n.undoStack = s :: rest ∧ m = { n with state := s, undoStack := rest } := by
  rw [popUndo] at h
  rcases hstack : n.undoStack with - | ⟨s, rest⟩
  · rw [hstack] at h
    cases h
  · rw [hstack] at h
    exact ⟨s, rest, rfl, (Option.some.inj h).symm⟩

/-- The states of a node, that of the head block and those of the undo records, are reached by blocks. -/
def ReachedFrom (s₀ : σ) (n : Node σ β ι τ) : Prop :=
  ∀ s ∈ n.state :: n.undoStack, ∃ trail bs, Replay s₀ s trail (bs : List β)

namespace Moves

variable {stop : ι → Prop} {f₀ : ForkDatabase β}

theorem reachedFrom {s₀ : σ} (h : Moves stop f₀ n m) (hn : n.ReachedFrom s₀) : m.ReachedFrom s₀ := by
  induction h with
  | refl => exact hn
  | fork _ _ ih => exact ih
  | pop _ _ _ hstack ih =>
    intro s hs
    refine ih s (List.mem_cons_of_mem _ ?_)
    rw [hstack]
    exact hs
  | @apply m b s' _ happly ih =>
    intro s hs
    rcases List.mem_cons.1 hs with rfl | hs
    · obtain ⟨trail, bs, hreplay⟩ := ih m.state List.mem_cons_self
      exact ⟨_, _, hreplay.cons happly⟩
    · rcases List.mem_cons.1 hs with rfl | hs
      · exact ih m.state List.mem_cons_self
      · exact ih s (List.mem_cons_of_mem _ (List.mem_of_mem_take hs))
  | fail _ _ _ ih =>
    intro s hs
    rcases List.mem_cons.1 hs with rfl | hs
    · exact ih _ List.mem_cons_self
    · exact ih s (List.mem_cons_of_mem _ (List.mem_of_mem_take hs))

theorem traced (h : Moves stop f₀ n m) (hn : n.Traced) : m.Traced := by
  induction h with
  | refl => exact hn
  | fork _ _ ih => exact ih
  | pop _ _ _ hstack ih =>
    obtain ⟨b, -, -, htraced⟩ := ih.headId_eq hstack
    exact htraced
  | apply _ happly ih =>
    obtain ⟨base, bs, hreplay⟩ := ih.take _
    exact ⟨base, _, hreplay.cons happly⟩
  | fail _ _ _ ih => exact ih.take _

/-- **The chain stays above the block to stop at.** -/
theorem ancestor_of_stop {root : ι} (h : Moves (· = root) f₀ n m) (hn : n.Traced)
    (hroot : Ancestor β n.headId root) : Ancestor β m.headId root := by
  induction h with
  | refl => exact hroot
  | fork _ _ ih | fail _ _ _ ih => exact ih
  | @pop m it s rest h hstop _ hstack ih =>
    obtain ⟨b, hb, hprevious, -⟩ := (h.traced hn).headId_eq hstack
    rw [hb] at ih hstop
    have hbelow := ih.of_ne hstop
    rw [hprevious] at hbelow
    exact hbelow
  | apply _ happly ih =>
    rw [headId, ChainRules.headId_of_applyBlock happly]
    exact .step (ChainRules.previous_of_applyBlock happly ▸ ih)

/-- When no block is popped, the chain grows. -/
theorem ancestor_headId (h : Moves (fun _ ↦ True) f₀ n m) : Ancestor β m.headId n.headId := by
  induction h with
  | refl => exact .refl _
  | fork _ _ ih | fail _ _ _ ih => exact ih
  | pop _ hstop _ _ _ => exact absurd trivial hstop
  | apply _ happly ih =>
    rw [headId, ChainRules.headId_of_applyBlock happly]
    exact .step (ChainRules.previous_of_applyBlock happly ▸ ih)

/-- **No transaction of a block is lost**: a block is on the chain, or its transactions are among the
popped ones. -/
theorem popped (h : Moves stop f₀ n m) (hn : n.Traced) {b : β}
    (hb : Ancestor β n.headId (Blocks.id b)) : Ancestor β m.headId (Blocks.id b) ∨
      Blocks.transactions b ⊆ m.poppedTx := by
  induction h with
  | refl => exact .inl hb
  | fork _ _ ih | fail _ _ _ ih => exact ih
  | @pop m it s rest h _ hid hstack ih =>
    rcases ih with ih | ih
    · obtain ⟨b', hb', hprevious, -⟩ := (h.traced hn).headId_eq hstack
      by_cases heq : m.headId = Blocks.id b
      · have hit : it.data = b := Blocks.id_inj (hid.trans heq)
        refine .inr fun t ht ↦ ?_
        rw [← hit] at ht
        exact List.mem_append_left _ ht
      · rw [hb'] at ih heq
        have hbelow := ih.of_ne heq
        rw [hprevious] at hbelow
        exact .inl hbelow
    · exact .inr fun t ht ↦ List.mem_append_right _ (ih ht)
  | apply _ happly ih =>
    rcases ih with ih | ih
    · rw [headId, ChainRules.headId_of_applyBlock happly]
      exact .inl (.step (ChainRules.previous_of_applyBlock happly ▸ ih))
    · exact .inr ih

/-- A block is applied, or it fails. -/
theorem applyInSession (h : Moves stop f₀ n m) (hn : f₀.Within n.fork) (b : β) :
    Moves stop f₀ n (left (m.applyInSession b)) := by
  have hwithin := h.within hn
  rcases happly : ChainRules.applyBlock m.state b with sized | s
  · rw [applyInSession_error happly]
    have hfail := Moves.fail (if sized then windowSize m.state b else m.undoMaxSize) h (by
      split_ifs
      · exact .inr (Nat.le_add_left _ _)
      · exact .inl rfl)
    refine hfail.fork ?_
    split_ifs
    · exact hwithin.setMaxSize (Nat.le_add_left _ _)
    · exact hwithin
  · rw [applyInSession_ok happly]
    exact (h.apply happly).fork (hwithin.setMaxSize (Nat.le_add_left _ _))

theorem restoreBranch (h : Moves stop f₀ n m) (hn : f₀.Within n.fork) (its : List (ForkItem β)) :
    Moves stop f₀ n (left (Node.restoreBranch its m)) := by
  induction its generalizing m with
  | nil => exact h
  | cons it its ih =>
    have hstep := h.applyInSession hn it.data
    rw [Node.restoreBranch]
    rcases happly : m.applyInSession it.data with m' | m'
    · rw [happly] at hstep
      exact hstep
    · rw [happly] at hstep
      exact ih hstep

variable [DecidableEq ι]

/-- A block is popped, when the head is not the one to stop at. -/
theorem popBlock (h : Moves stop f₀ n m) (hn : f₀.Within n.fork) (hpending : n.pendingSession = false)
    (hstop : ¬stop m.headId) : Moves stop f₀ n (left m.popBlock) := by
  have hreset : m.resetPendingSession = m := by
    rw [resetPendingSession, h.pendingSession, hpending, if_neg Bool.false_ne_true]
  have hwithin := h.within hn
  rw [Node.popBlock, hreset]
  rcases hhead : m.fork.head with - | x
  · exact h
  dsimp only
  generalize hpopped : (if x.id = m.headId then m.fork.popBlock.map fun f ↦ (f, x)
    else (m.fork.fetchBlock m.headId).map fun it ↦ (m.fork, it)) = popped
  rcases popped with - | ⟨f, it⟩
  · exact h
  obtain ⟨hf, hid⟩ : f₀.Within f ∧ it.id = m.headId := by
    split_ifs at hpopped with heq
    · obtain ⟨f', hf', hpair⟩ := Option.map_eq_some_iff.1 hpopped
      cases hpair
      exact ⟨hwithin.popBlock hf', heq⟩
    · obtain ⟨it', hit', hpair⟩ := Option.map_eq_some_iff.1 hpopped
      cases hpair
      exact ⟨hwithin, (ForkDatabase.mem_of_fetchBlock hit').2⟩
  have hmove := h.fork hf
  obtain ⟨m₁, hm₁⟩ : ∃ m₁ : Node σ β ι τ, m₁ = { m with fork := f } := ⟨_, rfl⟩
  have hhead₁ : m₁.headId = m.headId := by
    rw [hm₁]
    rfl
  dsimp only
  rw [← hm₁] at hmove ⊢
  rcases hundo : m₁.popUndo with - | m₂
  · exact hmove
  · obtain ⟨s, rest, hstack, rfl⟩ := popUndo_eq hundo
    exact hmove.pop (hhead₁ ▸ hstop) (hid.trans hhead₁.symm) hstack

theorem popUntil {root : ι} (h : Moves (· = root) f₀ n m) (hn : f₀.Within n.fork)
    (hpending : n.pendingSession = false) (fuel : ℕ) :
    Moves (· = root) f₀ n (left (Node.popUntil root fuel m)) := by
  induction fuel generalizing m with
  | zero => exact h
  | succ fuel ih =>
    rw [Node.popUntil]
    split_ifs with hroot
    · exact h
    · have hstep := h.popBlock hn hpending hroot
      rcases hpop : m.popBlock with m' | m'
      · rw [hpop] at hstep
        exact hstep
      · rw [hpop] at hstep
        exact ih hstep

theorem switchBack {second : List (ForkItem β)} (h : Moves (· = branchRoot second) f₀ n m)
    (hn : f₀.Within n.fork) (hpending : n.pendingSession = false) (failed : List (ForkItem β))
    (hsecond : ∀ it ∈ second, it ∈ f₀.alive) :
    Moves (· = branchRoot second) f₀ n (left (m.switchBack failed second)) := by
  have hfork : f₀.Within ((m.fork.removeAll failed).setHead second.head?) :=
    ((h.within hn).removeAll failed).setHead fun it hit ↦ hsecond it (List.mem_of_mem_head? hit)
  have hpop := (h.fork hfork).popUntil hn hpending (m.undoStack.length + 1)
  rw [Node.switchBack, popTo]
  dsimp only
  generalize Node.popUntil (branchRoot second) (m.undoStack.length + 1)
    { m with fork := (m.fork.removeAll failed).setHead second.head? } = popped at hpop ⊢
  rcases popped with m' | m'
  · exact hpop
  · exact hpop.restoreBranch hn second.reverse

theorem pushBranch {second : List (ForkItem β)} (h : Moves (· = branchRoot second) f₀ n m)
    (hn : f₀.Within n.fork) (hpending : n.pendingSession = false)
    (hsecond : ∀ it ∈ second, it ∈ f₀.alive) (first : List (ForkItem β)) :
    Moves (· = branchRoot second) f₀ n (pushLeft (Node.pushBranch second first m)) := by
  induction first generalizing m with
  | nil => exact h
  | cons it first ih =>
    have hstep := h.applyInSession hn it.data
    rw [Node.pushBranch]
    rcases happly : m.applyInSession it.data with m' | m'
    · rw [happly] at hstep
      have hback := hstep.switchBack hn hpending (it :: first) hsecond
      dsimp only
      rcases hb : Node.switchBack m' (it :: first) second with m'' | m''
      · have hb' : Node.switchBack (left (.error m')) (it :: first) second = .error m'' := hb
        rw [hb'] at hback
        exact hback
      · have hb' : Node.switchBack (left (.error m')) (it :: first) second = .ok m'' := hb
        rw [hb'] at hback
        exact hback
    · rw [happly] at hstep
      exact ih hstep

end Moves

variable [DecidableEq ι]

/-- **What a push of a block does**: nothing, or moves without a popped block, or a switch to another
branch, which pops no block below the root of the branches. -/
theorem pushBlockImpl_moves (hpending : n.pendingSession = false) (hfork : n.fork.Tied) (b : β) :
    pushLeft (n.pushBlockImpl b) = n ∨
      ∃ f₀, n.fork.pushBlock b = .ok f₀ ∧
        (Moves (fun _ ↦ True) f₀ { n with fork := f₀ } (pushLeft (n.pushBlockImpl b)) ∨
          ∃ newHead first second, f₀.head = some newHead ∧ newHead.previousId ≠ n.headId ∧
            n.headNum < newHead.num ∧ f₀.fetchBranchFrom newHead.id n.headId = some (first, second) ∧
            Moves (· = branchRoot second) f₀ { n with fork := f₀ } (pushLeft (n.pushBlockImpl b))) := by
  rw [pushBlockImpl]
  rcases hpush : n.fork.pushBlock b with e | f₀
  · exact .inl rfl
  refine .inr ⟨f₀, rfl, ?_⟩
  have hn := ForkDatabase.Within.refl f₀
  dsimp only
  rcases hhead : f₀.head with - | newHead
  · exact .inl .refl
  dsimp only
  by_cases hprev : newHead.previousId ≠ n.headId
  · rw [if_pos (show newHead.previousId ≠ headId { n with fork := f₀ } from hprev)]
    by_cases hlt : n.headNum < newHead.num
    · rw [if_pos (show headNum { n with fork := f₀ } < newHead.num from hlt), switchForks]
      dsimp only
      rcases hfetch : f₀.fetchBranchFrom newHead.id n.headId with - | ⟨first, second⟩
      · rw [show f₀.fetchBranchFrom newHead.id (headId { n with fork := f₀ }) = none from hfetch]
        exact .inl .refl
      · rw [show f₀.fetchBranchFrom newHead.id (headId { n with fork := f₀ }) = some (first, second)
          from hfetch]
        refine .inr ⟨newHead, first, second, rfl, hprev, hlt, hfetch, ?_⟩
        have hsecond := ((hfork.pushBlock hpush).1.fetchBranchFrom_branch hfetch).2.1.2
        have hpop : Moves (· = branchRoot second) f₀ { n with fork := f₀ }
            (left (popUntil (branchRoot second) (n.undoStack.length + 1) { n with fork := f₀ })) :=
          Moves.popUntil (n := { n with fork := f₀ }) .refl hn hpending (n.undoStack.length + 1)
        dsimp only
        rw [popTo]
        dsimp only
        rcases hp : popUntil (branchRoot second) (n.undoStack.length + 1) { n with fork := f₀ }
          with m' | m'
        · rw [hp] at hpop
          exact hpop
        · rw [hp] at hpop
          exact hpop.pushBranch hn hpending hsecond first.reverse
    · rw [if_neg (show ¬headNum { n with fork := f₀ } < newHead.num from hlt)]
      exact .inl .refl
  · rw [if_neg (show ¬newHead.previousId ≠ headId { n with fork := f₀ } from hprev)]
    have hstep : Moves (fun _ ↦ True) f₀ { n with fork := f₀ }
        (left (applyInSession { n with fork := f₀ } b)) := Moves.refl.applyInSession hn b
    rcases happly : applyInSession { n with fork := f₀ } b with m' | m'
    · rw [happly] at hstep
      exact .inl (hstep.fork ((hstep.within hn).remove (Blocks.id b)))
    · rw [happly] at hstep
      exact .inl hstep

/-- What every push keeps, on every exit path. -/
theorem pushBlockImpl_kept (hpending : n.pendingSession = false) (hfork : n.fork.Tied)
    (hsize : 1 ≤ n.undoMaxSize) (htraced : n.Traced) (b : β) (m : Node σ β ι τ)
    (hm : pushLeft (n.pushBlockImpl b) = m) :
    m.pendingSession = false ∧ m.pendingTx = n.pendingTx ∧ m.fork.Tied ∧ 1 ≤ m.undoMaxSize ∧
      (1 ≤ n.fork.maxSize → 1 ≤ m.fork.maxSize) ∧ m.Traced ∧
      (∀ s₀, n.ReachedFrom s₀ → m.ReachedFrom s₀) ∧
      ∀ b' : β, Ancestor β n.headId (Blocks.id b') →
        Ancestor β m.headId (Blocks.id b') ∨ Blocks.transactions b' ⊆ m.poppedTx := by
  have hmoves : ∀ {stop f₀}, n.fork.pushBlock b = .ok f₀ → Moves stop f₀ { n with fork := f₀ } m →
      m.pendingSession = false ∧ m.pendingTx = n.pendingTx ∧ m.fork.Tied ∧ 1 ≤ m.undoMaxSize ∧
        (1 ≤ n.fork.maxSize → 1 ≤ m.fork.maxSize) ∧ m.Traced ∧
        (∀ s₀, n.ReachedFrom s₀ → m.ReachedFrom s₀) ∧
        ∀ b' : β, Ancestor β n.headId (Blocks.id b') →
          Ancestor β m.headId (Blocks.id b') ∨ Blocks.transactions b' ⊆ m.poppedTx := by
    intro stop f₀ hpush h
    exact ⟨h.pendingSession.trans hpending, h.pendingTx,
      (h.within (.refl f₀)).tied (hfork.pushBlock hpush).1, h.one_le_undoMaxSize hsize,
      fun hle ↦ (h.within (.refl f₀)).one_le (ForkDatabase.maxSize_pushBlock hpush ▸ hle),
      h.traced htraced, fun _ ↦ h.reachedFrom, fun b' hb' ↦ h.popped htraced hb'⟩
  rcases pushBlockImpl_moves hpending hfork b with hsame | ⟨f₀, hpush, h | ⟨_, _, _, -, -, -, -, h⟩⟩
  · rw [hm] at hsame
    rw [hsame]
    exact ⟨hpending, rfl, hfork, hsize, id, htraced, fun _ h ↦ h, fun _ hb' ↦ .inl hb'⟩
  · exact hmoves hpush (hm ▸ h)
  · exact hmoves hpush (hm ▸ h)

end Node

end Playchain
