import Playchain.Lib.Control
import Playchain.Spec.ForkTree

/-!
# Popping and applying branches

A node whose undo records lead to its state by known blocks (`Replay`) can pop these blocks and apply
them again. Applying a branch drops the oldest undo records, and the oldest blocks of the fork
database, as the sizes of both follow the block that is applied; what is needed for the way back stays
while the branch *fits* (`restoreBranch_replay`).
-/

namespace Playchain

variable {σ β ι τ : Type*} [Blocks β ι τ] [ChainRules σ β ι τ]

/-- Blocks (the latest first) lead from a state to another one; the trail has the states before them. -/
inductive Replay (base : σ) : σ → List σ → List β → Prop
  | nil : Replay base base [] []
  | cons {s s' : σ} {trail : List σ} {b : β} {bs : List β} (rest : Replay base s trail bs)
    (h : ChainRules.applyBlock s b = .ok s') : Replay base s' (s :: trail) (b :: bs)

namespace Replay

variable {base s : σ} {trail : List σ} {bs : List β}

theorem length_eq (h : Replay base s trail bs) : trail.length = bs.length := by
  induction h with
  | nil => rfl
  | cons _ _ ih => exact congrArg (· + 1) ih

/-- The oldest state of the trail is the first one. -/
theorem getLast?_trail (h : Replay base s trail bs) (hne : trail ≠ []) : trail.getLast? = some base := by
  induction h with
  | nil => exact absurd rfl hne
  | @cons s _ trail _ _ rest _ ih =>
    rcases trail with - | ⟨x, trail⟩
    · cases rest
      rfl
    · rw [List.getLast?_cons_cons]
      exact ih (List.cons_ne_nil _ _)

/-- The oldest blocks are forgotten. -/
theorem take (h : Replay base s trail bs) (k : ℕ) :
    ∃ base', Replay base' s (trail.take k) (bs.take k) := by
  induction h generalizing k with
  | nil => exact ⟨base, by rw [List.take_nil, List.take_nil]; exact .nil⟩
  | cons rest h ih =>
    cases k with
    | zero => exact ⟨_, .nil⟩
    | succ k =>
      obtain ⟨base', hbase'⟩ := ih k
      exact ⟨base', hbase'.cons h⟩

/-- **The records of a branch**: they are those of its blocks. -/
theorem of_branch (h : Replay base s trail bs) {branch : List (ForkItem β)}
    (hbranch : Branch (ChainRules.headId s) branch) (hle : branch.length ≤ trail.length) :
    ∃ mid recent older bs', trail = recent ++ older ∧ Replay mid s recent (branch.map ForkItem.data) ∧
      Replay base mid older bs' := by
  induction branch generalizing s trail bs with
  | nil => exact ⟨s, [], trail, bs, rfl, .nil, h⟩
  | cons it branch ih =>
    obtain ⟨hid, hbranch⟩ := hbranch
    cases h with
    | nil => cases hle
    | @cons s₁ _ trail b bs rest happly =>
      have hdata : it.data = b :=
        Blocks.id_inj (hid.trans (ChainRules.headId_of_applyBlock happly))
      have hprevious : it.previousId = ChainRules.headId s₁ := by
        rw [ForkItem.previousId, hdata, ChainRules.previous_of_applyBlock happly]
      rw [hprevious] at hbranch
      obtain ⟨mid, recent, older, bs', rfl, hrecent, holder⟩ :=
        ih rest hbranch (Nat.le_of_succ_le_succ hle)
      refine ⟨mid, s₁ :: recent, older, bs', rfl, ?_, holder⟩
      rw [List.map_cons, hdata]
      exact hrecent.cons happly

/-- The number of the head grows by one with each block. -/
theorem numFromId_headId (h : Replay base s trail bs) :
    Blocks.numFromId β (ChainRules.headId s) =
      Blocks.numFromId β (ChainRules.headId base) + trail.length := by
  induction h with
  | nil => rfl
  | cons rest happly ih =>
    rw [ChainRules.headId_of_applyBlock happly, Blocks.numFromId_id,
      ChainRules.previous_of_applyBlock happly, ih]
    rfl

/-- The root of a branch is the head of the state below it. -/
theorem headId_eq_root (h : Replay base s trail bs) {branch : List (ForkItem β)} {x : ForkItem β}
    (hbs : bs = (branch ++ [x]).map ForkItem.data) : ChainRules.headId base = x.previousId := by
  induction h generalizing branch with
  | nil =>
    have hlen := congrArg List.length hbs
    simp at hlen
  | cons rest happly ih =>
    cases branch with
    | nil =>
      rw [List.nil_append, List.map_singleton] at hbs
      obtain ⟨hb, hnil⟩ := List.cons.inj hbs
      subst hnil
      cases rest
      rw [← ChainRules.previous_of_applyBlock happly, hb]
      rfl
    | cons y branch => exact ih (List.cons.inj hbs).2

end Replay

/-- The size that `update_global_dynamic_data` gives to the undo stack and to the fork database. -/
abbrev windowSize (s : σ) (b : β) : ℕ := blockNum b - ChainRules.lastIrreversible s + 1

namespace Node

variable {n : Node σ β ι τ} {b : β} {s : σ}

theorem applyInSession_ok (h : ChainRules.applyBlock n.state b = .ok s) :
    n.applyInSession b = .ok { n with
      state := s
      undoStack := n.state :: n.undoStack.take n.undoMaxSize
      undoMaxSize := windowSize n.state b
      fork := n.fork.setMaxSize (windowSize n.state b)
      blockIds := Function.update n.blockIds (blockNum b) (some (Blocks.id b)) } := by
  have hstart : n.startSession.applyBlock b =
      .ok { n.startSession.setWindows b with state := s } := by
    have hstate : ChainRules.applyBlock n.startSession.state b = .ok s := h
    rw [applyBlock, hstate]
  rw [applyInSession, hstart]
  rfl

theorem applyInSession_error {sized : Bool} (h : ChainRules.applyBlock n.state b = .error sized) :
    n.applyInSession b = .error { n with
      undoStack := n.undoStack.take n.undoMaxSize
      undoMaxSize := if sized then windowSize n.state b else n.undoMaxSize
      fork := if sized then n.fork.setMaxSize (windowSize n.state b) else n.fork } := by
  have hstart : n.startSession.applyBlock b =
      .error (if sized then n.startSession.setWindows b else n.startSession) := by
    have hstate : ChainRules.applyBlock n.startSession.state b = .error sized := h
    rw [applyBlock, hstate]
  rw [applyInSession, hstart]
  cases sized <;> rfl

/-! ### Applying -/

theorem branchRoot_append (branch : List (ForkItem β)) (x : ForkItem β) :
    branchRoot (branch ++ [x]) = x.previousId := by
  rw [branchRoot, List.getLast?_concat]
  rfl

theorem restoreBranch_append (its its' : List (ForkItem β)) (n : Node σ β ι τ) :
    restoreBranch (its ++ its') n = restoreBranch its n >>= restoreBranch its' := by
  induction its generalizing n with
  | nil => rfl
  | cons it its ih =>
    rw [List.cons_append, restoreBranch, restoreBranch, bind_assoc]
    exact bind_congr fun m ↦ ih m

/-- What popping and applying branches leaves alone. -/
structure SamePool (n m : Node σ β ι τ) : Prop where
  pendingTx : m.pendingTx = n.pendingTx
  pendingSession : m.pendingSession = n.pendingSession

/-- The blocks stay within the sizes of the undo stack and of the fork database with a given head: none
of those above a number is dropped by the application of a later one. -/
def FitsWindows (top floor : ℕ) (trail : List σ) (bs : List β) : Prop :=
  ∀ p ∈ trail.zip bs, ChainRules.lastIrreversible p.1 ≤ floor ∧ top - windowSize p.1 p.2 ≤ floor

/-- What the application of blocks does to a node. -/
structure BranchApplied (n m : Node σ β ι τ) (trail : List σ) (bs : List β) : Prop where
  undoStack : ∃ j, m.undoStack = (trail ++ n.undoStack).take j
  head : m.fork.head = n.fork.head
  linked : m.fork.Linked
  subset : ∀ it ∈ m.fork.index, it ∈ n.fork.index
  near : ∀ it ∈ n.fork.index, (∀ h, n.fork.head = some h → h.num ≤ it.num + 1) → it ∈ m.fork.index
  blockIds : ∀ k, (∀ b ∈ bs, blockNum b ≠ k) → m.blockIds k = n.blockIds k
  pool : SamePool n m
  poppedTx : m.poppedTx = n.poppedTx

/-- What is needed to pop the blocks again. -/
structure BranchKept (n m : Node σ β ι τ) (floor : ℕ) (trail : List σ) : Prop where
  undoStack : ∃ j, trail.length ≤ j ∧ m.undoStack = (trail ++ n.undoStack).take j
  undoMaxSize : trail.length ≤ m.undoMaxSize
  items : ∀ it ∈ n.fork.index, floor ≤ it.num → it ∈ m.fork.index

/-- **Blocks are applied again.** -/
theorem restoreBranch_replay {base : σ} {trail : List σ} {bs : List β}
    (hreplay : Replay base s trail bs) {its : List (ForkItem β)}
    (hits : its.map ForkItem.data = bs.reverse) (hbase : n.state = base) (hlinked : n.fork.Linked) :
    ∃ m, restoreBranch its n = .ok m ∧ m.state = s ∧ BranchApplied n m trail bs ∧
      ∀ top floor h, n.fork.head = some h → h.num = top →
        Blocks.numFromId β (ChainRules.headId base) + 1 = floor → FitsWindows top floor trail bs →
          BranchKept n m floor trail := by
  induction hreplay generalizing its with
  | nil =>
    obtain rfl := List.map_eq_nil_iff.1 hits
    refine ⟨n, rfl, hbase, ⟨⟨n.undoStack.length, ?_⟩, rfl, hlinked, fun _ h ↦ h, fun _ h _ ↦ h,
      fun _ _ ↦ rfl, ⟨rfl, rfl⟩, rfl⟩, fun top floor h _ _ _ _ ↦
        ⟨⟨n.undoStack.length, Nat.zero_le _, ?_⟩, Nat.zero_le _, fun _ h _ ↦ h⟩⟩
    · rw [List.nil_append, List.take_length]
    · rw [List.nil_append, List.take_length]
  | @cons s₁ s₂ trail b bs rest happly ih =>
    rw [List.reverse_cons] at hits
    obtain ⟨front, last, rfl, hfront, hlast⟩ := List.map_eq_append_iff.1 hits
    obtain ⟨it, rfl, hb⟩ := List.map_eq_singleton_iff.1 hlast
    obtain ⟨m, hm, hstate, happlied, hkept⟩ := ih hfront
    have hok := applyInSession_ok (n := m) (b := b) (hstate ▸ happly)
    obtain ⟨m', hm'⟩ : ∃ m' : Node σ β ι τ, m' = { m with
      state := s₂
      undoStack := m.state :: m.undoStack.take m.undoMaxSize
      undoMaxSize := windowSize m.state b
      fork := m.fork.setMaxSize (windowSize m.state b)
      blockIds := Function.update m.blockIds (blockNum b) (some (Blocks.id b)) } := ⟨_, rfl⟩
    rw [← hm'] at hok
    have hfork : m'.fork = m.fork.setMaxSize (windowSize m.state b) := by rw [hm']
    -- one more record, on top of those that are kept
    have hstack : ∀ j, m.undoStack = (trail ++ n.undoStack).take j →
        m'.undoStack = (s₁ :: trail ++ n.undoStack).take (min m.undoMaxSize j + 1) := by
      intro j hj
      rw [hm', hj, hstate, List.take_take]
      rfl
    have hhead : m'.fork.head = n.fork.head := by
      rw [hfork, ForkDatabase.setMaxSize_head, happlied.head]
    refine ⟨m', ?_, by rw [hm'], ⟨?_, hhead, ?_, fun it hit ↦ ?_, fun it hit hnear ↦ ?_, fun k hk ↦ ?_,
      ?_, ?_⟩, fun top floor h hh htop hfloor hfits ↦ ?_⟩
    · rw [restoreBranch_append, hm, Except.ok_bind, restoreBranch, hb, hok]
      rfl
    · obtain ⟨j, hj⟩ := happlied.undoStack
      exact ⟨_, hstack j hj⟩
    · rw [hfork]
      exact happlied.linked.setMaxSize _
    · rw [hfork] at hit
      exact happlied.subset it (ForkDatabase.mem_of_setMaxSize hit)
    · rw [hfork]
      refine ForkDatabase.mem_setMaxSize (happlied.near it hit hnear) fun h hh ↦ ?_
      rw [happlied.head] at hh
      have hle := hnear h hh
      dsimp only [windowSize]
      omega
    · rw [hm']
      dsimp only
      rw [Function.update_of_ne (hk b List.mem_cons_self).symm]
      exact happlied.blockIds k fun b hb ↦ hk b (List.mem_cons_of_mem _ hb)
    · rw [hm']
      exact ⟨happlied.pool.pendingTx, happlied.pool.pendingSession⟩
    · rw [hm']
      exact happlied.poppedTx
    · rw [FitsWindows, List.zip_cons_cons, List.forall_mem_cons] at hfits
      obtain ⟨⟨hlib, hsize⟩, hfits⟩ := hfits
      dsimp only at hlib hsize
      obtain ⟨⟨j, hjle, hj⟩, hmax, hitems⟩ := hkept top floor h hh htop hfloor hfits
      refine ⟨⟨_, ?_, hstack j hj⟩, ?_, fun it hit hle ↦ ?_⟩
      · rw [List.length_cons]
        omega
      · have hnum : blockNum b = floor + trail.length := by
          rw [blockNum, ChainRules.previous_of_applyBlock happly, rest.numFromId_headId]
          omega
        rw [hm', List.length_cons]
        dsimp only [windowSize]
        rw [hstate]
        omega
      · rw [hfork]
        refine ForkDatabase.mem_setMaxSize (hitems it hit hle) fun h' hh' ↦ ?_
        rw [happlied.head, hh] at hh'
        obtain rfl := Option.some.inj hh'
        rw [htop, hstate]
        exact hsize.trans hle

/-! ### Popping -/

variable [DecidableEq ι]

/-- A block that is not the head of the fork database is popped. -/
theorem popBlock_eq {h it : ForkItem β} {rest : List σ} (hpending : n.pendingSession = false)
    (hlinked : n.fork.Linked) (hhead : n.fork.head = some h) (hne : h.id ≠ n.headId)
    (hit : it ∈ n.fork.index) (hid : it.id = n.headId) (hstack : n.undoStack = s :: rest) :
    n.popBlock = .ok { n with
      state := s
      undoStack := rest
      poppedTx := Blocks.transactions it.data ++ n.poppedTx } := by
  have hfetch : n.fork.fetchBlock n.headId = some it := hid ▸ hlinked.fetchBlock_eq hit
  have hreset : n.resetPendingSession = n := by
    rw [resetPendingSession, hpending, if_neg Bool.false_ne_true]
  rw [popBlock, hreset, hhead]
  dsimp only
  rw [if_neg hne, hfetch]
  dsimp only [Option.map_some]
  rw [popUndo, hstack]

/-- **A branch is popped**: with the records of its blocks on the undo stack, and all of them in the
fork database. -/
theorem popUntil_branch {mid : σ} {trail older : List σ} {branch : List (ForkItem β)} {h : ForkItem β}
    {root : ι} {fuel : ℕ} (hpending : n.pendingSession = false) (hlinked : n.fork.Linked)
    (hhead : n.fork.head = some h) (hne : ∀ it ∈ branch, it.id ≠ h.id)
    (hmem : ∀ it ∈ branch, it ∈ n.fork.index) (hbranch : Branch n.headId branch)
    (hreplay : Replay mid n.state trail (branch.map ForkItem.data))
    (hstack : n.undoStack = trail ++ older) (hroot : ChainRules.headId mid = root)
    (hnum : ∀ it ∈ branch, Blocks.numFromId β root < it.num) (hfuel : branch.length < fuel) :
    ∃ m : Node σ β ι τ, popUntil root fuel n = .ok m ∧ m.state = mid ∧ m.undoStack = older ∧
      m.fork = n.fork ∧ m.undoMaxSize = n.undoMaxSize ∧ m.blockIds = n.blockIds ∧ SamePool n m := by
  induction branch generalizing n trail fuel with
  | nil =>
    obtain ⟨fuel, rfl⟩ := Nat.exists_eq_succ_of_ne_zero (Nat.ne_zero_of_lt hfuel)
    rw [List.map_nil] at hreplay
    cases hreplay
    refine ⟨n, ?_, rfl, hstack, rfl, rfl, rfl, rfl, rfl⟩
    rw [popUntil, if_pos]
    exact hroot
  | cons it branch ih =>
    obtain ⟨fuel, rfl⟩ := Nat.exists_eq_succ_of_ne_zero (Nat.ne_zero_of_lt hfuel)
    obtain ⟨hid, hbranch⟩ := hbranch
    rw [List.map_cons] at hreplay
    cases hreplay with
    | @cons s₁ _ trail _ _ rest happly =>
      have hnotRoot : n.headId ≠ root := by
        intro heq
        have hlt := hnum it List.mem_cons_self
        rw [it.num_eq, hid, heq] at hlt
        exact lt_irrefl _ hlt
      have hpop := popBlock_eq hpending hlinked hhead
        (fun heq ↦ hne it List.mem_cons_self (hid.trans heq.symm)) (hmem it List.mem_cons_self) hid
        hstack
      have hhead₁ : ChainRules.headId s₁ = it.previousId :=
        (ChainRules.previous_of_applyBlock happly).symm
      rw [popUntil, if_neg hnotRoot, hpop]
      dsimp only
      obtain ⟨m, hm, hstate, hstack', hfork, hmax, hids, hpool⟩ := ih (n := { n with
          state := s₁
          undoStack := trail ++ older
          poppedTx := Blocks.transactions it.data ++ n.poppedTx }) hpending hlinked hhead
        (fun x hx ↦ hne x (List.mem_cons_of_mem _ hx)) (fun x hx ↦ hmem x (List.mem_cons_of_mem _ hx))
        (by rw [headId, hhead₁]; exact hbranch) rest rfl (fun x hx ↦ hnum x (List.mem_cons_of_mem _ hx))
        (Nat.lt_of_succ_lt_succ hfuel)
      exact ⟨m, hm, hstate, hstack', hfork, hmax, hids, hpool.pendingTx, hpool.pendingSession⟩

end Node

end Playchain
