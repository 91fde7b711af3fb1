import Playchain.Spec.Pool

/-!
# The two heads

The fork database and the object state each have a head block. They agree after every push of a block,
applied or not, as long as every switch to another branch is *ready* (`Node.Ready`): both branches are
found, the undo stack has the blocks that are popped, and when a block of the new branch fails, the
blocks before it are still within the sizes of the undo stack and of the fork database.
-/

namespace Playchain

variable {σ β ι τ : Type*} [Blocks β ι τ] [ChainRules σ β ι τ]

/-- Either all blocks of a list can be applied, or one of them fails after those before it. -/
theorem replay_or_fails (base : σ) (its : List (ForkItem β)) :
    (∃ s trail, Replay base s trail (its.map ForkItem.data).reverse) ∨
      ∃ front bad rest s trail sized, its = front ++ bad :: rest ∧
        Replay base s trail (front.map ForkItem.data).reverse ∧
        ChainRules.applyBlock s bad.data = .error sized := by
  induction its using List.reverseRecOn with
  | nil => exact .inl ⟨base, [], .nil⟩
  | append_singleton its x ih =>
    rcases ih with ⟨s, trail, hreplay⟩ | ⟨front, bad, rest, s, trail, sized, rfl, hreplay, hbad⟩
    · rcases happly : ChainRules.applyBlock s x.data with sized | s'
      · exact .inr ⟨its, x, [], s, trail, sized, rfl, hreplay, happly⟩
      · refine .inl ⟨s', s :: trail, ?_⟩
        rw [List.map_append, List.reverse_append]
        exact hreplay.cons happly
    · exact .inr ⟨front, bad, rest ++ [x], s, trail, sized, by simp, hreplay, hbad⟩

namespace Node

variable {n m : Node σ β ι τ}

/-- The two heads are the same block, or there is none yet. -/
def HeadsAgree (n : Node σ β ι τ) : Prop :=
  (∃ h, n.fork.head = some h ∧ h.id = n.headId) ∨ (n.fork.head = none ∧ n.headId = Blocks.noBlock β)

/-- The invariant of a node between pushes. -/
structure Sound (n : Node σ β ι τ) : Prop where
  linked : n.fork.Linked
  agree : n.HeadsAgree
  num_le : ∀ it ∈ n.fork.index, it.num ≤ n.headNum
  traced : n.Traced
  pendingSession : n.pendingSession = false
  one_le : 1 ≤ n.undoMaxSize
  one_le_maxSize : 1 ≤ n.fork.maxSize

/-- A switch that has found its branches: what is known before the first block is popped. -/
structure Switching (n : Node σ β ι τ) (newHead : ForkItem β) (first second : List (ForkItem β))
    (root : ι) (mid : σ) (recent older : List σ) : Prop where
  linked : n.fork.Linked
  head : n.fork.head = some newHead
  pendingSession : n.pendingSession = false
  first_branch : Branch newHead.id (newHead :: first)
  first_mem : ∀ it ∈ newHead :: first, it ∈ n.fork.index
  second_branch : Branch n.headId second
  second_mem : ∀ it ∈ second, it ∈ n.fork.index
  second_ne_nil : second ≠ []
  /-- The old head is not on the new branch. -/
  apart : ∀ it ∈ newHead :: first, it.id ≠ n.headId
  above : newHead.num = n.headNum + 1
  first_root : ∀ it ∈ newHead :: first, Blocks.numFromId β root < it.num
  second_root : ∀ it ∈ second, Blocks.numFromId β root < it.num
  branchRoot : branchRoot second = root
  headId_mid : ChainRules.headId mid = root
  replay : Replay mid n.state recent (second.map ForkItem.data)
  undoStack : n.undoStack = recent ++ older

namespace Switching

variable {newHead bad : ForkItem β} {first second front rest : List (ForkItem β)} {root : ι}
  {mid s : σ} {recent older trail : List σ} {sized : Bool}

theorem second_id_ne (h : Switching n newHead first second root mid recent older) :
    ∀ it ∈ second, it.id ≠ newHead.id := by
  intro it hit heq
  have hle := h.second_branch.num_le it hit
  have habove := h.above
  rw [it.num_eq, heq, ← newHead.num_eq] at hle
  rw [headNum] at habove
  omega

/-- The blocks before the failing one are applied, and what is needed to pop them stays. -/
theorem front_kept (h : Switching n newHead first second root mid recent older)
    (hreplay : Replay mid s trail (front.map ForkItem.data).reverse)
    (hbad : ChainRules.applyBlock s bad.data = .error sized)
    (hfits : front ≠ [] → FitsWindows newHead.num (Blocks.numFromId β root + 1) trail
      (front.map ForkItem.data).reverse ∧
        (sized = true → newHead.num - windowSize s bad.data ≤ Blocks.numFromId β root + 1))
    (hstate : m.state = mid) (hstack : m.undoStack = older) (hfork : m.fork = n.fork) :
    ∃ m₂ m₃ k, restoreBranch front m = .ok m₂ ∧ m₂.applyInSession bad.data = .error m₃ ∧
      m₃.state = s ∧ m₃.undoStack = trail ++ older.take k ∧ m₃.fork.Linked ∧
      m₃.fork.head = some newHead ∧ (∀ it ∈ m₃.fork.index, it ∈ n.fork.index) ∧
      (∀ it ∈ n.fork.index, newHead.num ≤ it.num + 1 → it ∈ m₃.fork.index) ∧
      (front ≠ [] → ∀ it ∈ n.fork.index, Blocks.numFromId β root < it.num → it ∈ m₃.fork.index) ∧
      SamePool m m₃ := by
  obtain ⟨m₂, hm₂, hs, happlied, hkept⟩ := restoreBranch_replay hreplay
    (List.reverse_reverse _).symm hstate (hfork ▸ h.linked)
  rw [← hs] at hbad
  have herror := applyInSession_error hbad
  obtain ⟨m₃, hm₃⟩ : ∃ m₃ : Node σ β ι τ, m₃ = { m₂ with
      undoStack := m₂.undoStack.take m₂.undoMaxSize
      undoMaxSize := if sized then windowSize m₂.state bad.data else m₂.undoMaxSize
      fork := if sized then m₂.fork.setMaxSize (windowSize m₂.state bad.data) else m₂.fork } :=
    ⟨_, rfl⟩
  rw [← hm₃] at herror
  have hkept' : front ≠ [] → BranchKept m m₂ (Blocks.numFromId β root + 1) trail := by
    intro hne
    exact hkept _ _ newHead (hfork ▸ h.head) rfl (by rw [h.headId_mid]) (hfits hne).1
  have hhead₂ : m₂.fork.head = some newHead := by rw [happlied.head, hfork, h.head]
  have hfork₃ : m₃.fork = if sized then m₂.fork.setMaxSize (windowSize m₂.state bad.data)
      else m₂.fork := by rw [hm₃]
  have hsubset : ∀ it ∈ m₃.fork.index, it ∈ m₂.fork.index := by
    intro it hit
    rw [hfork₃] at hit
    split_ifs at hit with hsized
    · exact ForkDatabase.mem_of_setMaxSize hit
    · exact hit
  -- the size that the failing block sets is at least one
  have hstays : ∀ it ∈ m₂.fork.index,
      (sized = true → newHead.num - windowSize m₂.state bad.data ≤ it.num) → it ∈ m₃.fork.index := by
    intro it hit hle
    rw [hfork₃]
    split_ifs with hsized
    · refine ForkDatabase.mem_setMaxSize hit fun h' hh' ↦ ?_
      rw [hhead₂] at hh'
      cases hh'
      exact hle hsized
    · exact hit
  have hstack₃ : ∃ k, m₃.undoStack = trail ++ older.take k := by
    by_cases hne : front = []
    · subst hne
      have hlen := hreplay.length_eq
      obtain rfl := List.length_eq_zero_iff.1 hlen
      obtain ⟨j, hj⟩ := happlied.undoStack
      refine ⟨min m₂.undoMaxSize j, ?_⟩
      rw [hm₃, hj, List.take_take, hstack]
      rfl
    · obtain ⟨⟨j, hle, hj⟩, hmax, -⟩ := hkept' hne
      refine ⟨min m₂.undoMaxSize j - trail.length, ?_⟩
      rw [hm₃, hj, List.take_take, hstack, List.take_append, List.take_of_length_le]
      omega
  obtain ⟨k, hk⟩ := hstack₃
  refine ⟨m₂, m₃, k, hm₂, herror, by rw [hm₃]; exact hs, hk, ?_, ?_, fun it hit ↦ ?_,
    fun it hit hle ↦ ?_, fun hne it hit hlt ↦ ?_, ?_⟩
  · rw [hfork₃]
    split_ifs
    · exact happlied.linked.setMaxSize _
    · exact happlied.linked
  · rw [hfork₃]
    split_ifs
    · rw [ForkDatabase.setMaxSize_head, hhead₂]
    · exact hhead₂
  · exact hfork ▸ happlied.subset it (hsubset it hit)
  · refine hstays it (happlied.near it (hfork ▸ hit) fun h' hh' ↦ ?_) fun _ ↦ ?_
    · rw [hfork, h.head] at hh'
      cases hh'
      exact hle
    · dsimp only [windowSize]
      omega
  · refine hstays it ((hkept' hne).items it (hfork ▸ hit) hlt) fun hsized ↦ ?_
    rw [hs]
    exact ((hfits hne).2 hsized).trans hlt
  · rw [hm₃]
    exact ⟨happlied.pool.pendingTx, happlied.pool.pendingSession⟩

/-- The blocks before the failing one form a branch of their own. -/
theorem front_branch (h : Switching n newHead first second root mid recent older)
    (hsplit : (newHead :: first).reverse = front ++ bad :: rest)
    (hreplay : Replay mid s trail (front.map ForkItem.data).reverse) :
    Branch (ChainRules.headId s) front.reverse ∧
      ∀ it ∈ front, it ∈ newHead :: first ∧ ∀ x ∈ bad :: rest, it.id ≠ x.id := by
  have hbranch := h.first_branch
  have hlist : newHead :: first = rest.reverse ++ bad :: front.reverse := by
    rw [← List.reverse_reverse (newHead :: first), hsplit]
    simp
  rw [hlist] at hbranch
  refine ⟨?_, fun it hit ↦ ⟨?_, fun x hx heq ↦ ?_⟩⟩
  · have hprev := hbranch.of_append
    rw [← List.map_reverse] at hreplay
    rcases hfront : front.reverse with - | ⟨x, tail⟩
    · trivial
    · rw [hfront] at hprev hreplay
      cases hreplay with
      | cons _ happly => exact ⟨(ChainRules.headId_of_applyBlock happly).symm, hprev.2⟩
  · rw [hlist]
    exact List.mem_append_right _ (List.mem_cons_of_mem _ (List.mem_reverse.2 hit))
  -- the numbers go up along the branch
  · have hpairs := hbranch.pairwise
    rw [← List.singleton_append, ← List.append_assoc, List.pairwise_append] at hpairs
    have hlt := hpairs.2.2 x (by simpa [or_comm] using hx) it (List.mem_reverse.2 hit)
    rw [it.num_eq, heq, ← x.num_eq] at hlt
    exact lt_irrefl _ hlt

variable [DecidableEq ι]

/-- The blocks of a branch are pushed one after the other. -/
theorem pushBranch_append (rest : List (ForkItem β)) (h : restoreBranch front n = .ok m) :
    pushBranch second (front ++ rest) n = pushBranch second rest m := by
  induction front generalizing n with
  | nil =>
    rw [← Except.pure_eq_ok.1 h]
    rfl
  | cons it front ih =>
    rw [restoreBranch, Except.bind_eq_ok] at h
    obtain ⟨n', hn', h⟩ := h
    rw [List.cons_append, pushBranch, hn']
    exact ih h

/-- The blocks of the old branch are popped. -/
theorem popTo_eq (h : Switching n newHead first second root mid recent older) :
    ∃ m, n.popTo root = .ok m ∧ m.state = mid ∧ m.undoStack = older ∧ m.fork = n.fork ∧
      m.undoMaxSize = n.undoMaxSize ∧ m.blockIds = n.blockIds ∧ SamePool n m := by
  refine popUntil_branch h.pendingSession h.linked h.head h.second_id_ne h.second_mem h.second_branch
    h.replay h.undoStack h.headId_mid h.second_root ?_
  have hlen := h.replay.length_eq
  rw [List.length_map] at hlen
  rw [h.undoStack, List.length_append]
  omega

/-- **The switch succeeds** when all blocks of the new branch can be applied. -/
theorem pushBranch_ok (h : Switching n newHead first second root mid recent older)
    (hreplay : Replay mid s trail ((newHead :: first).map ForkItem.data)) :
    ∃ m₁ m, n.popTo root = .ok m₁ ∧ pushBranch second (newHead :: first).reverse m₁ = .ok m ∧
      m.state = s ∧ m₁.undoStack = older ∧ m₁.fork = n.fork ∧ m₁.blockIds = n.blockIds ∧
      SamePool n m₁ ∧ BranchApplied m₁ m trail ((newHead :: first).map ForkItem.data) := by
  obtain ⟨m₁, hm₁, hstate, hstack, hfork, -, hids, hpool⟩ := h.popTo_eq
  have hdata : (newHead :: first).reverse.map ForkItem.data =
      ((newHead :: first).map ForkItem.data).reverse := List.map_reverse
  obtain ⟨m, hm, hs, happlied, -⟩ := restoreBranch_replay hreplay hdata hstate (hfork ▸ h.linked)
  refine ⟨m₁, m, hm₁, ?_, hs, hstack, hfork, hids, hpool, happlied⟩
  have happend : pushBranch second ((newHead :: first).reverse ++ []) m₁ = pushBranch second [] m :=
    pushBranch_append [] hm
  rw [List.append_nil] at happend
  rw [happend]
  rfl

/-- **The switch fails and is taken back**: the state is the one before the push, the head of the fork
database is the old head, and the blocks of the new branch from the failing one upward are removed. -/
theorem pushBranch_error (h : Switching n newHead first second root mid recent older)
    (hsplit : (newHead :: first).reverse = front ++ bad :: rest)
    (hreplay : Replay mid s trail (front.map ForkItem.data).reverse)
    (hbad : ChainRules.applyBlock s bad.data = .error sized)
    (hfits : front ≠ [] → FitsWindows newHead.num (Blocks.numFromId β root + 1) trail
      (front.map ForkItem.data).reverse ∧
        (sized = true → newHead.num - windowSize s bad.data ≤ Blocks.numFromId β root + 1)) :
    ∃ m₁ m h₀, n.popTo root = .ok m₁ ∧
      pushBranch second (newHead :: first).reverse m₁ = .error (.apply bad.id, m) ∧
      m.state = n.state ∧ (∃ k, m.undoStack = n.undoStack.take k) ∧ m.fork.head = some h₀ ∧
      h₀.id = n.headId ∧ m.fork.Linked ∧ SamePool n m ∧
      ∀ it ∈ m.fork.index, it ∈ n.fork.index ∧ ∀ x ∈ bad :: rest, it.id ≠ x.id := by
  obtain ⟨m₁, hm₁, hstate₁, hstack₁, hfork₁, -, -, hpool₁⟩ := h.popTo_eq
  obtain ⟨m₂, m₃, k, hm₂, hm₃, hstate₃, hstack₃, hlinked₃, hhead₃, hsubset₃, hnear₃, hfront₃, hpool₃⟩ :=
    h.front_kept hreplay hbad hfits hstate₁ hstack₁ hfork₁
  obtain ⟨hfrontBranch, hfront⟩ := h.front_branch hsplit hreplay
  obtain ⟨h₀, second', rfl⟩ := List.exists_cons_of_ne_nil h.second_ne_nil
  have hid₀ : h₀.id = n.headId := h.second_branch.1
  have hnew : bad :: rest ⊆ newHead :: first := by
    intro x hx
    rw [← List.mem_reverse, hsplit]
    exact List.mem_append_right _ hx
  -- the rest of the new branch is removed, and the old head is put back
  obtain ⟨m₄, hm₄⟩ : ∃ m₄ : Node σ β ι τ, m₄ = { m₃ with
      fork := (m₃.fork.removeAll (bad :: rest)).setHead (some h₀) } := ⟨_, rfl⟩
  have hindex₄ : ∀ it, it ∈ m₄.fork.index ↔ it ∈ m₃.fork.index ∧ ∀ x ∈ bad :: rest, it.id ≠ x.id := by
    intro it
    rw [hm₄]
    exact ForkDatabase.mem_removeAll
  have hmem₀ : h₀ ∈ m₄.fork.index := by
    refine (hindex₄ h₀).2 ⟨hnear₃ h₀ (h.second_mem h₀ List.mem_cons_self) ?_, fun x hx heq ↦ ?_⟩
    · rw [h.above, h₀.num_eq, hid₀]
      exact le_rfl
    · exact h.apart x (hnew hx) (heq.symm.trans hid₀)
  have hlinked₄ : m₄.fork.Linked := by
    refine hlinked₃.sublist (fun it hit ↦ ((hindex₄ it).1 hit).1) ?_ fun x hx ↦ ?_
    · rw [hm₄]
      exact ForkDatabase.nextRef_removeAll _ _
    · rw [hm₄] at hx
      cases hx
      exact hmem₀
  have hhead₄ : m₄.headId = ChainRules.headId s := by rw [hm₄, headId, hstate₃]
  obtain ⟨m₅, hm₅, hstate₅, hstack₅, hfork₅, -, -, hpool₅⟩ : ∃ m₅, m₄.popTo root = .ok m₅ ∧
      m₅.state = mid ∧ m₅.undoStack = older.take k ∧ m₅.fork = m₄.fork ∧
      m₅.undoMaxSize = m₄.undoMaxSize ∧ m₅.blockIds = m₄.blockIds ∧ SamePool m₄ m₅ := by
    refine popUntil_branch ?_ hlinked₄ (by rw [hm₄]; rfl)
      (fun it hit heq ↦ ?_) (fun it hit ↦ ?_) (hhead₄ ▸ hfrontBranch) ?_
      (by rw [hm₄]; exact hstack₃) h.headId_mid (fun it hit ↦ ?_) ?_
    · rw [hm₄]
      exact hpool₃.pendingSession.trans (hpool₁.pendingSession.trans h.pendingSession)
    · exact h.apart it (hfront it (List.mem_reverse.1 hit)).1 (heq.trans hid₀)
    · have hit := List.mem_reverse.1 hit
      have hmem := (hfront it hit).1
      exact (hindex₄ it).2 ⟨hfront₃ (List.ne_nil_of_mem hit) it (h.first_mem it hmem)
        (h.first_root it hmem), (hfront it hit).2⟩
    · rw [hm₄, List.map_reverse]
      dsimp only
      rw [hstate₃]
      exact hreplay
    · exact h.first_root it (hfront it (List.mem_reverse.1 hit)).1
    · have hlen := hreplay.length_eq
      have hstack₄ : m₄.undoStack = trail ++ older.take k := by
        rw [hm₄]
        exact hstack₃
      rw [List.length_reverse, List.length_map] at hlen
      rw [hstack₄, List.length_reverse, List.length_append]
      omega
  obtain ⟨m, hm, hs, happlied, -⟩ := restoreBranch_replay h.replay List.map_reverse hstate₅
    (hfork₅ ▸ hlinked₄)
  have hback : m₃.switchBack (bad :: rest) (h₀ :: second') = .ok m := by
    rw [switchBack, List.head?_cons, h.branchRoot, ← hm₄, hm₅, Except.ok_bind, hm]
  refine ⟨m₁, m, h₀, hm₁, ?_, hs, ?_, ?_, hid₀, happlied.linked, ?_, fun it hit ↦ ?_⟩
  · rw [hsplit, pushBranch_append _ hm₂, pushBranch, hm₃]
    dsimp only
    rw [hback]
  · obtain ⟨j, hj⟩ := happlied.undoStack
    refine ⟨min j (recent.length + k), ?_⟩
    have hrecent : (recent ++ older).take (recent.length + k) = recent ++ older.take k := by
      rw [List.take_append, List.take_of_length_le (Nat.le_add_right _ _), Nat.add_sub_cancel_left]
    rw [hj, hstack₅, h.undoStack, ← List.take_take, hrecent]
  · rw [happlied.head, hfork₅, hm₄]
    rfl
  · refine ⟨?_, ?_⟩
    · rw [happlied.pool.pendingTx, hpool₅.pendingTx, hm₄, hpool₃.pendingTx, hpool₁.pendingTx]
    · rw [happlied.pool.pendingSession, hpool₅.pendingSession, hm₄, hpool₃.pendingSession,
        hpool₁.pendingSession]
  · have hit := (hindex₄ it).1 (hfork₅ ▸ happlied.subset it hit)
    exact ⟨hsubset₃ it hit.1, hit.2⟩

end Switching

/-! ### From a push to a switch -/

section Push

variable {f₀ : ForkDatabase β} {b : β} {newHead h : ForkItem β} {first second : List (ForkItem β)}

/-- Without a head of the fork database there is no block yet. -/
theorem Sound.index_eq_nil (hn : n.Sound) (hhead : n.fork.head = none) :
    n.fork.index = [] ∧ n.headId = Blocks.noBlock β := by
  rcases hn.agree with ⟨h, hh, -⟩ | ⟨-, hno⟩
  · rw [hhead] at hh
    cases hh
  · refine ⟨List.eq_nil_iff_forall_not_mem.2 fun it hit ↦ ?_, hno⟩
    have hle := hn.num_le it hit
    have hpos : 0 < it.num := Nat.succ_pos _
    rw [headNum, hno, Blocks.numFromId_noBlock] at hle
    omega

theorem Sound.num_head (hn : n.Sound) (hhead : n.fork.head = some h) :
    h.id = n.headId ∧ h.num = n.headNum := by
  have hid : h.id = n.headId := by
    rcases hn.agree with ⟨h', hh, hid⟩ | ⟨hnone, -⟩
    · obtain rfl := Option.some.inj (hhead.symm.trans hh)
      exact hid
    · rw [hhead] at hnone
      cases hnone
  exact ⟨hid, by rw [h.num_eq, hid]; rfl⟩

/-- What a push does to the fork database of a sound node: the head stays, or it moves to the new block,
which has the next number. -/
theorem Sound.pushBlock_cases [DecidableEq ι] (hn : n.Sound) (hhead : n.fork.head = some h)
    (hpush : n.fork.pushBlock b = .ok f₀) :
    f₀.Linked ∧
      ((f₀.head = some h ∧ ∀ it ∈ f₀.index, it.num ≤ n.headNum) ∨
        ∃ item : ForkItem β, f₀.head = some item ∧ item.data = b ∧ item.num = n.headNum + 1 ∧
          (∀ it ∈ f₀.index, it = item ∨ it.num ≤ n.headNum) ∧
          ∃ p ∈ n.fork.index, p.id = item.previousId ∧ item.prev = some p.ref) := by
  obtain ⟨-, hnum⟩ := hn.num_head hhead
  obtain ⟨hlinked, hcases⟩ := hn.linked.pushBlock hhead (fun it hit ↦ hnum ▸ hn.num_le it hit) hpush
  refine ⟨hlinked, hcases.imp (fun hstay ↦ ⟨hstay.2.1, hnum ▸ hstay.2.2⟩) ?_⟩
  rintro ⟨hlt, item, hh, rfl, hindex, hlink⟩
  refine ⟨item, hh, rfl, ?_, fun it hit ↦ (hindex it hit).imp id fun hit ↦ hn.num_le it hit, ?_⟩
  · rcases hlink with hno | ⟨p, hp, hid, -⟩
    · have hone : blockNum item.data = 1 := by rw [blockNum, hno, Blocks.numFromId_noBlock]
      have hpos : 0 < h.num := Nat.succ_pos _
      omega
    · have hle := hn.num_le p hp
      have hnum' : item.num = p.num + 1 := by
        rw [p.num_eq, hid]
        rfl
      have hitem : item.num = blockNum item.data := rfl
      omega
  · rcases hlink with hno | ⟨p, hp, hid, hprev⟩
    · have hone : blockNum item.data = 1 := by rw [blockNum, hno, Blocks.numFromId_noBlock]
      have hpos : 0 < h.num := Nat.succ_pos _
      omega
    · exact ⟨p, hp, hid, hprev⟩

variable [DecidableEq ι]

/-- **A push that leads to a switch.** -/
theorem Sound.switching (hn : n.Sound) (hpush : n.fork.pushBlock b = .ok f₀)
    (hhead : f₀.head = some newHead) (hprev : newHead.previousId ≠ n.headId)
    (hlt : n.headNum < newHead.num)
    (hfetch : f₀.fetchBranchFrom newHead.id n.headId = some (first, second)) {mid : σ}
    (hmid : n.undoStack[second.length - 1]? = some mid) :
    (∀ it ∈ f₀.index, it = newHead ∨ it.num ≤ n.headNum) ∧
      ∃ first' recent older, first = newHead :: first' ∧
        Switching { n with fork := f₀ } newHead first' second (branchRoot second) mid recent older := by
  rcases hold : n.fork.head with - | h
  -- the head block is not in the fork database, so no branch is found
  · obtain ⟨hindex, hno⟩ := hn.index_eq_nil hold
    rw [ForkDatabase.pushBlock, hold] at hpush
    obtain rfl := Except.ok.inj hpush
    simp only [ForkDatabase.fetchBranchFrom, Option.bind_eq_bind, Option.bind_eq_some_iff] at hfetch
    obtain ⟨-, -, y, hy, -⟩ := hfetch
    obtain ⟨-, hid⟩ := ForkDatabase.mem_of_fetchBlock hy
    have hnum := y.num_eq
    have hpos : 0 < y.num := Nat.succ_pos _
    rw [hid, hno, Blocks.numFromId_noBlock] at hnum
    omega
  obtain ⟨hlinked, ⟨hh, -⟩ | ⟨item, hh, -, hnum, hindex, -⟩⟩ := hn.pushBlock_cases hold hpush
  · obtain rfl := Option.some.inj (hh.symm.trans hhead)
    exact absurd (hn.num_head hold).2 hlt.ne'
  obtain rfl := Option.some.inj (hh.symm.trans hhead)
  obtain ⟨⟨hfirst, hfirst'⟩, ⟨hsecond, hsecond'⟩, as, bs, x, y, has, hbs, hxy⟩ :=
    ForkDatabase.fetchBranchFrom_branch hlinked hfetch
  have hroot : branchRoot second = y.previousId := by rw [hbs, branchRoot_append]
  -- the new branch starts with the new head
  obtain ⟨z, first', hz⟩ := List.exists_cons_of_ne_nil (l := first) (by rw [has]; simp)
  have hzmem := hfirst' z (by rw [hz]; exact List.mem_cons_self)
  rw [hz] at hfirst
  obtain rfl : z = item := hlinked.id_inj z hzmem item (hlinked.head_mem item hh) hfirst.1
  -- the undo stack has the records of the old branch
  obtain ⟨base, blocks, hreplay⟩ := hn.traced
  have hne : second ≠ [] := by rw [hbs]; simp
  have hlen : second.length ≤ n.undoStack.length := by
    have hlt := (List.getElem?_eq_some_iff.1 hmid).1
    have hpos := List.length_pos_iff.2 hne
    omega
  obtain ⟨mid', recent, older, blocks', hstack, hrecent, -⟩ := hreplay.of_branch hsecond hlen
  obtain rfl : mid' = mid := by
    have hreclen := hrecent.length_eq
    rw [List.length_map] at hreclen
    have hpos : 0 < recent.length := hreclen ▸ List.length_pos_iff.2 hne
    rw [hstack, ← hreclen, List.getElem?_append_left (Nat.sub_lt hpos Nat.one_pos),
      ← List.getLast?_eq_getElem?, hrecent.getLast?_trail (List.length_pos_iff.1 hpos)] at hmid
    exact Option.some.inj hmid
  refine ⟨hindex, first', recent, older, hz, hlinked, hh, hn.pendingSession, hfirst, ?_, hsecond,
    hsecond', hne, ?_, hnum, ?_, ?_, rfl, ?_, hrecent, hstack⟩
  · rw [← hz]
    exact hfirst'
  · intro it hit heq
    rcases List.mem_cons.1 hit with rfl | hit
    · have hitnum := it.num_eq
      rw [heq] at hitnum
      exact absurd (hnum.symm.trans hitnum) (Nat.succ_ne_self _)
    -- below the new head only the first block has the number of the old head
    · have hbranch : Branch z.previousId first' := hfirst.2
      have hznum := z.numFromId_previousId
      rcases first' with - | ⟨w, first''⟩
      · cases hit
      · rcases List.mem_cons.1 hit with rfl | hit
        · exact hprev (hbranch.1.symm.trans heq)
        · have hle := hbranch.2.num_le it hit
          have hwnum := w.num_eq
          have hwsucc := w.numFromId_previousId
          have hitnum := it.num_eq
          rw [hbranch.1] at hwnum
          rw [heq] at hitnum
          change it.num = n.headNum at hitnum
          omega
  · intro it hit
    rw [← hz, has] at hit
    rw [hroot, ← hxy]
    exact Branch.root_lt (has ▸ hz ▸ hfirst) it hit
  · intro it hit
    rw [hbs] at hit
    rw [hroot]
    exact Branch.root_lt (hbs ▸ hsecond) it hit
  · rw [hroot]
    exact hrecent.headId_eq_root (by rw [hbs])

/-- The outcome of a push that leads to a switch. -/
theorem pushBlockImpl_switch (hpush : n.fork.pushBlock b = .ok f₀) (hhead : f₀.head = some newHead)
    (hprev : newHead.previousId ≠ n.headId) (hlt : n.headNum < newHead.num)
    (hfetch : f₀.fetchBranchFrom newHead.id n.headId = some (first, second)) {m₁ : Node σ β ι τ}
    (hpop : popTo { n with fork := f₀ } (branchRoot second) = .ok m₁) :
    n.pushBlockImpl b = pushBranch second first.reverse m₁ := by
  have hprev' : newHead.previousId ≠ headId { n with fork := f₀ } := hprev
  have hlt' : headNum { n with fork := f₀ } < newHead.num := hlt
  have hfetch' : f₀.fetchBranchFrom newHead.id (headId { n with fork := f₀ }) = some (first, second) :=
    hfetch
  rw [pushBlockImpl, hpush]
  dsimp only
  rw [hhead]
  dsimp only
  rw [if_pos hprev', if_pos hlt', switchForks]
  dsimp only
  rw [hfetch']
  dsimp only
  rw [hpop]

/-- **A failed switch is unwound**: when a block of the longer branch fails, and the blocks that were
applied before it are still within the sizes of the undo stack and of the fork database, then the push
fails with the state and the head block of before, and with the undo records of before but for the oldest
ones; the head of the fork database is the old head, and the blocks of the new branch from the failing one
upward are removed from it. -/
theorem failed_switch_unwound (hn : n.Sound) (hpush : n.fork.pushBlock b = .ok f₀)
    (hhead : f₀.head = some newHead) (hprev : newHead.previousId ≠ n.headId)
    (hlt : n.headNum < newHead.num)
    (hfetch : f₀.fetchBranchFrom newHead.id n.headId = some (first, second)) {mid s : σ}
    (hmid : n.undoStack[second.length - 1]? = some mid) {front rest : List (ForkItem β)}
    {bad : ForkItem β} {trail : List σ} {sized : Bool} (hsplit : first.reverse = front ++ bad :: rest)
    (hreplay : Replay mid s trail (front.map ForkItem.data).reverse)
    (hbad : ChainRules.applyBlock s bad.data = .error sized)
    (hfits : front ≠ [] → FitsWindows newHead.num (Blocks.numFromId β (branchRoot second : ι) + 1) trail
      (front.map ForkItem.data).reverse ∧ (sized = true →
        newHead.num - windowSize s bad.data ≤ Blocks.numFromId β (branchRoot second : ι) + 1)) :
    ∃ m h₀, n.pushBlockImpl b = .error (.apply bad.id, m) ∧ m.state = n.state ∧ m.headId = n.headId ∧
      (∃ k, m.undoStack = n.undoStack.take k) ∧ m.fork.head = some h₀ ∧ h₀.id = n.headId ∧
      ∀ it ∈ bad :: rest, m.fork.fetchBlock it.id = none := by
  obtain ⟨-, first', recent, older, rfl, hswitch⟩ :=
    hn.switching hpush hhead hprev hlt hfetch hmid
  obtain ⟨m₁, m, h₀, hpop, herror, hstate, hstack, hhead₀, hid₀, -, -, hindex⟩ :=
    hswitch.pushBranch_error hsplit hreplay hbad hfits
  refine ⟨m, h₀, ?_, hstate, by rw [headId, hstate]; rfl, hstack, hhead₀, hid₀, fun it hit ↦ ?_⟩
  · rw [pushBlockImpl_switch hpush hhead hprev hlt hfetch hpop, herror]
  · exact ForkDatabase.fetchBlock_eq_none_iff.2 fun x hx ↦ (hindex x hx).2 it hit

/-- The blocks of a branch that are applied before one that fails stay within the sizes of the undo stack
and of the fork database, which has a given top, down to a floor. -/
def FailsInWindows (top floor : ℕ) (mid : σ) (first : List (ForkItem β)) : Prop :=
  ∀ front bad rest s trail sized, first.reverse = front ++ bad :: rest → front ≠ [] →
    Replay mid s trail (front.map ForkItem.data).reverse →
    ChainRules.applyBlock s bad.data = .error sized →
      FitsWindows top floor trail (front.map ForkItem.data).reverse ∧
        (sized = true → top - windowSize s bad.data ≤ floor)

/-- A push is *ready*: the first block of all extends the genesis state; and if the block becomes the head
of another branch, then both branches are found, the undo stack has the records of the blocks that are
popped, and a failure finds the blocks before it within the sizes. -/
def Ready (n : Node σ β ι τ) (b : β) : Prop :=
  (n.fork.head = none → Blocks.previous b = Blocks.noBlock β) ∧
    ∀ f₀ newHead, n.fork.pushBlock b = .ok f₀ → f₀.head = some newHead →
      newHead.previousId ≠ n.headId → n.headNum < newHead.num →
        ∃ first second mid, f₀.fetchBranchFrom newHead.id n.headId = some (first, second) ∧
          n.undoStack[second.length - 1]? = some mid ∧
          FailsInWindows newHead.num (Blocks.numFromId β (branchRoot second : ι) + 1) mid first

/-- The outcome of a push of a block that extends the head block. -/
theorem pushBlockImpl_extend (hpush : n.fork.pushBlock b = .ok f₀) (hhead : f₀.head = some newHead)
    (hprev : newHead.previousId = n.headId) :
    n.pushBlockImpl b = match applyInSession { n with fork := f₀ } b with
      | .ok m => .ok m
      | .error m => .error (.apply (Blocks.id b), { m with fork := m.fork.remove (Blocks.id b) }) := by
  have hprev' : ¬newHead.previousId ≠ headId { n with fork := f₀ } := not_not.2 hprev
  rw [pushBlockImpl, hpush]
  dsimp only
  rw [hhead]
  dsimp only
  refine (if_neg hprev').trans ?_
  rcases applyInSession { n with fork := f₀ } b with m | m <;> rfl

/-- A push of a block that is not above the head. -/
theorem Sound.pushBlockImpl_stay (hn : n.Sound) (hold : n.fork.head = some h)
    (hpush : n.fork.pushBlock b = .ok f₀) (hhead : f₀.head = some h) :
    n.pushBlockImpl b = .ok { n with fork := f₀ } := by
  obtain ⟨-, hnumh⟩ := hn.num_head hold
  have hprev : h.previousId ≠ headId { n with fork := f₀ } := by
    intro heq
    have hsucc := h.numFromId_previousId
    rw [heq] at hsucc
    change h.num = n.headNum + 1 at hsucc
    omega
  have hlt : ¬headNum { n with fork := f₀ } < h.num := by
    change ¬n.headNum < h.num
    omega
  rw [pushBlockImpl, hpush]
  dsimp only
  rw [hhead]
  dsimp only
  rw [if_pos hprev, if_neg hlt]

/-- The heads after a push: the rest of the invariant is kept by every push. -/
structure HeadsSound (m : Node σ β ι τ) : Prop where
  linked : m.fork.Linked
  agree : m.HeadsAgree
  num_le : ∀ it ∈ m.fork.index, it.num ≤ m.headNum

/-- A block that extends the head block is applied, or it is removed again. -/
theorem HeadsSound.extend (hpush : n.fork.pushBlock b = .ok f₀) (hlinked : f₀.Linked)
    (hhead : f₀.head = some newHead) (hdata : newHead.data = b) (hprev : newHead.previousId = n.headId)
    (hindex : ∀ it ∈ f₀.index, it = newHead ∨ it.num ≤ n.headNum)
    (hback : ∀ f : ForkDatabase β, f.Linked → f.head = some newHead →
      (∀ it ∈ f₀.index, newHead.num ≤ it.num + 1 → it ∈ f.index) →
      (∀ it ∈ f.index, it ∈ f₀.index) →
      (f.remove newHead.id).Linked ∧ ((∃ p, (f.remove newHead.id).head = some p ∧ p.id = n.headId) ∨
        (f.remove newHead.id).head = none ∧ n.headId = Blocks.noBlock β)) :
    HeadsSound (pushLeft (n.pushBlockImpl b)) := by
  subst hdata
  rw [pushBlockImpl_extend hpush hhead hprev]
  rcases happly : ChainRules.applyBlock n.state newHead.data with sized | s
  -- the block fails and is removed
  · have herror := applyInSession_error (n := { n with fork := f₀ }) happly
    rw [herror]
    obtain ⟨f, hf⟩ : ∃ f : ForkDatabase β, f = if sized then
        f₀.setMaxSize (windowSize n.state newHead.data) else f₀ := ⟨_, rfl⟩
    have hsubset : ∀ it ∈ f.index, it ∈ f₀.index := by
      intro it hit
      rw [hf] at hit
      split_ifs at hit
      · exact ForkDatabase.mem_of_setMaxSize hit
      · exact hit
    obtain ⟨hlinked', hagree⟩ := hback f
      (by rw [hf]; split_ifs; exacts [hlinked.setMaxSize _, hlinked])
      (by rw [hf]; split_ifs; exacts [(f₀.setMaxSize_head _).trans hhead, hhead])
      (fun it hit hle ↦ by
        rw [hf]
        split_ifs
        · refine ForkDatabase.mem_setMaxSize hit fun h' hh' ↦ ?_
          obtain rfl := Option.some.inj (hhead.symm.trans hh')
          dsimp only [windowSize]
          omega
        · exact hit) hsubset
    have hid : newHead.id = Blocks.id newHead.data := rfl
    rw [hid] at hlinked' hagree
    dsimp only
    rw [← hf]
    refine ⟨hlinked', hagree, fun it hit ↦ ?_⟩
    obtain ⟨hit, hne⟩ := ForkDatabase.mem_remove.1 hit
    rcases hindex it (hsubset it hit) with rfl | hle
    · exact absurd rfl hne
    · exact hle
  · have hok := applyInSession_ok (n := { n with fork := f₀ }) happly
    rw [hok]
    have hheadId : ChainRules.headId s = newHead.id := ChainRules.headId_of_applyBlock happly
    refine ⟨hlinked.setMaxSize _, .inl ⟨newHead, (f₀.setMaxSize_head _).trans hhead, hheadId.symm⟩,
      fun it hit ↦ ?_⟩
    have hnum : Blocks.numFromId β (ChainRules.headId s) = n.headNum + 1 := by
      rw [hheadId, ← newHead.num_eq, newHead.numFromId_previousId, hprev]
      rfl
    change it.num ≤ Blocks.numFromId β (ChainRules.headId s)
    rw [hnum]
    rcases hindex it (ForkDatabase.mem_of_setMaxSize hit) with rfl | hle
    · rw [it.num_eq, ← hheadId, hnum]
    · exact hle.trans (Nat.le_succ _)

/-- The first block of all. -/
theorem Sound.extend_genesis (hn : n.Sound) (hold : n.fork.head = none)
    (hpush : n.fork.pushBlock b = .ok f₀) (hgenesis : Blocks.previous b = Blocks.noBlock β) :
    HeadsSound (pushLeft (n.pushBlockImpl b)) := by
  obtain ⟨hindex, hno⟩ := hn.index_eq_nil hold
  have hpush' := hpush
  rw [ForkDatabase.pushBlock, hold] at hpush'
  obtain ⟨item, hitem⟩ : ∃ item : ForkItem β, item = ⟨n.fork.nextRef, b, none⟩ := ⟨_, rfl⟩
  have hf₀ : f₀ = { n.fork with
      index := [item], head := some item, nextRef := n.fork.nextRef + 1 } := by
    rw [← Except.ok.inj hpush', hindex, hitem]
  have hlinked : f₀.Linked := by
    rw [hf₀, hitem]
    refine ⟨?_, ?_, ?_, ?_, ?_, ?_⟩ <;> simp
  have hmem : ∀ it ∈ f₀.index, it = item := by
    rw [hf₀]
    exact fun it hit ↦ List.mem_singleton.1 hit
  have hhead₀ : f₀.head = some item := by rw [hf₀]
  have hprev : item.previousId = n.headId := by
    rw [hitem, hno]
    exact hgenesis
  refine .extend hpush hlinked hhead₀ (by rw [hitem]) hprev (fun it hit ↦ .inl (hmem it hit))
    fun f hf hhead _ hsubset ↦ ?_
  -- there is no block to go back to
  have hnone : (f.remove item.id).index = [] := by
    refine List.eq_nil_iff_forall_not_mem.2 fun it hit ↦ ?_
    obtain ⟨hit, hne⟩ := ForkDatabase.mem_remove.1 hit
    exact hne (by rw [hmem it (hsubset it hit)])
  have hhead' : (f.remove item.id).head = none := by
    have hprev' : item.prev = none := by rw [hitem]
    rw [ForkDatabase.remove, hhead]
    dsimp only
    rw [if_pos rfl, ForkDatabase.popBlock, Option.bind_eq_bind, Option.bind_some,
      ForkDatabase.previousOf, hprev']
    rfl
  refine ⟨⟨?_, ?_, ?_, ?_, ?_, ?_⟩, .inr ⟨hhead', hno⟩⟩
  all_goals simp [hnone, hhead']

/-- **The heads agree after a push that is ready.** -/
theorem Sound.headsSound (hn : n.Sound) (hready : n.Ready b) :
    HeadsSound (pushLeft (n.pushBlockImpl b)) := by
  rcases hpush : n.fork.pushBlock b with e | f₀
  · have hsame : n.pushBlockImpl b = .error (.fork e, n) := by rw [pushBlockImpl, hpush]
    rw [hsame]
    exact ⟨hn.linked, hn.agree, hn.num_le⟩
  rcases hold : n.fork.head with - | h
  · exact hn.extend_genesis hold hpush (hready.1 hold)
  obtain ⟨hid, -⟩ := hn.num_head hold
  obtain ⟨hlinked, ⟨hhead, hle⟩ | ⟨item, hhead, hdata, hnum, hindex, p, hp, hpid, hplink⟩⟩ :=
    hn.pushBlock_cases hold hpush
  -- the block is not above the head
  · rw [hn.pushBlockImpl_stay hold hpush hhead]
    exact ⟨hlinked, .inl ⟨h, hhead, hid⟩, hle⟩
  by_cases hprev : item.previousId = n.headId
  · refine .extend hpush hlinked hhead hdata hprev hindex fun f hf hfhead hnear _ ↦ ?_
    -- the previous block is the old head
    have hpnum : item.num = p.num + 1 := by
      rw [p.num_eq, hpid]
      rfl
    have hpmem : p ∈ f.index := by
      refine hnear p (ForkDatabase.mem_pushBlock hpush hn.one_le_maxSize hp ?_) hpnum.le
      rw [← hdata]
      exact hpnum.le
    obtain ⟨hlinked', hhead'⟩ := hf.remove_head hfhead hpmem hplink
    exact ⟨hlinked', .inl ⟨p, hhead', hpid.trans hprev⟩⟩
  · have hlt : n.headNum < item.num := by omega
    obtain ⟨first, second, mid, hfetch, hmid, hfails⟩ := hready.2 f₀ item hpush hhead hprev hlt
    obtain ⟨-, first', recent, older, rfl, hswitch⟩ := hn.switching hpush hhead hprev hlt hfetch hmid
    rcases replay_or_fails mid (item :: first').reverse with
      ⟨s, trail, hreplay⟩ | ⟨front, bad, rest, s, trail, sized, hsplit, hreplay, hbad⟩
    -- all blocks of the new branch are applied
    · rw [List.map_reverse, List.reverse_reverse] at hreplay
      obtain ⟨m₁, m, hpop, hok, hstate, -, hfork₁, -, -, happlied⟩ := hswitch.pushBranch_ok hreplay
      rw [pushBlockImpl_switch hpush hhead hprev hlt hfetch hpop, hok]
      have hheadId : m.headId = item.id := by
        cases hreplay with
        | cons _ happly =>
          rw [headId, hstate]
          exact ChainRules.headId_of_applyBlock happly
      refine ⟨happlied.linked, .inl ⟨item, ?_, hheadId.symm⟩, fun it hit ↦ ?_⟩
      · change m.fork.head = some item
        rw [happlied.head, hfork₁]
        exact hhead
      · change it.num ≤ Blocks.numFromId β m.headId
        rw [hheadId, ← item.num_eq]
        have hit := happlied.subset it hit
        rw [hfork₁] at hit
        rcases hindex it hit with rfl | hle
        · exact le_rfl
        · exact hle.trans hlt.le
    -- a block fails, and the switch is taken back
    · obtain ⟨m₁, m, h₀, hpop, herror, hstate, -, hhead₀, hid₀, hlinked₀, -, hremoved⟩ :=
        hswitch.pushBranch_error hsplit hreplay hbad fun hne ↦
          hfails front bad rest s trail sized hsplit hne hreplay hbad
      rw [pushBlockImpl_switch hpush hhead hprev hlt hfetch hpop, herror]
      have hheadId : m.headId = n.headId := by rw [headId, hstate]; rfl
      refine ⟨hlinked₀, .inl ⟨h₀, hhead₀, hid₀.trans hheadId.symm⟩, fun it hit ↦ ?_⟩
      change it.num ≤ Blocks.numFromId β m.headId
      rw [hheadId]
      obtain ⟨hit, hne⟩ := hremoved it hit
      rcases hindex it hit with rfl | hle
      -- the new head is the last block of the branch
      · have hlast : it ∈ bad :: rest := by
          have hmem : ((it :: first').reverse).getLast? = some it := by simp
          rw [hsplit, List.getLast?_append, List.getLast?_cons] at hmem
          exact List.mem_of_getLast? (by simpa [List.getLast?_cons] using hmem)
        exact absurd rfl (hne it hlast)
      · exact hle

/-- **A ready push keeps a node sound.** -/
theorem Sound.pushBlockImpl (hn : n.Sound) (hready : n.Ready b) :
    Sound (pushLeft (n.pushBlockImpl b)) := by
  obtain ⟨hlinked, hagree, hle⟩ := hn.headsSound hready
  obtain ⟨hpending, -, -, hsize, hmaxSize, htraced, -⟩ :=
    pushBlockImpl_kept hn.pendingSession hn.linked.tied hn.one_le hn.traced b _ rfl
  exact ⟨hlinked, hagree, hle, htraced, hpending, hsize, hmaxSize hn.one_le_maxSize⟩

/-- **A valid block is applied.** -/
theorem Sound.pushBlockImpl_applied (hn : n.Sound) {s : σ}
    (happly : ChainRules.applyBlock n.state b = .ok s) :
    ∃ m, n.pushBlockImpl b = .ok m ∧ m.state = s := by
  have hprevious : Blocks.previous b = n.headId := ChainRules.previous_of_applyBlock happly
  obtain ⟨f₀, item, hpush, hhead, hdata⟩ : ∃ f₀ item, n.fork.pushBlock b = .ok f₀ ∧
      f₀.head = some item ∧ item.data = b := by
    rw [ForkDatabase.pushBlock]
    rcases hold : n.fork.head with - | h
    · exact ⟨_, _, rfl, rfl, rfl⟩
    obtain ⟨hid, hnum⟩ := hn.num_head hold
    have hb : blockNum b = h.num + 1 := by
      rw [blockNum, hprevious, hnum]
      rfl
    have hfetch : n.fork.fetchBlock (Blocks.previous b) = some h := by
      rw [hprevious, ← hid]
      exact hn.linked.fetchBlock_eq (hn.linked.head_mem h hold)
    have hno : Blocks.previous b ≠ Blocks.noBlock β := by
      intro heq
      rw [blockNum, heq, Blocks.numFromId_noBlock] at hb
      have hpos : 0 < h.num := Nat.succ_pos _
      omega
    dsimp only
    rw [if_neg (by omega), if_neg hno, hfetch]
    dsimp only [Option.map_some]
    rw [if_pos (show h.num < ForkItem.num ⟨n.fork.nextRef, b, some h.ref⟩ from by
      change h.num < blockNum b
      omega)]
    exact ⟨_, _, rfl, rfl, rfl⟩
  have hprev : item.previousId = n.headId := by
    rw [ForkItem.previousId, hdata, hprevious]
  have hok := applyInSession_ok (n := { n with fork := f₀ }) happly
  rw [pushBlockImpl_extend hpush hhead hprev, hok]
  exact ⟨_, rfl, rfl⟩

end Push

/-- The oldest undo records may be dropped. -/
theorem Sound.of_take {m' : Node σ β ι τ} {k : ℕ} (h : m.Sound) (hstate : m'.state = m.state)
    (hstack : m'.undoStack = m.undoStack.take k) (hfork : m'.fork = m.fork)
    (hmax : m'.undoMaxSize = m.undoMaxSize) (hsession : m'.pendingSession = false) : m'.Sound := by
  have hhead : m'.headId = m.headId := by rw [headId, headId, hstate]
  refine ⟨hfork ▸ h.linked, ?_, ?_, ?_, hsession, hmax ▸ h.one_le, hfork ▸ h.one_le_maxSize⟩
  · rw [HeadsAgree, hfork, hhead]
    exact h.agree
  · rw [hfork, headNum, hhead]
    exact h.num_le
  · rw [Traced, hstate, hstack]
    exact h.traced.take k

end Node

/-! ### Runs -/

namespace Node

variable {σ β ι τ ρ κ : Type*} [TransactionRules σ τ ρ κ] [DecidableEq ι]
  [Blocks β ι (ProcessedTransaction τ ρ)] [ChainRules σ β ι (ProcessedTransaction τ ρ)]
  {n₀ n : Node σ β ι (ProcessedTransaction τ ρ)} {b : β}

/-- The nodes that calls of `push_block`, each of them ready, lead to. -/
inductive ReadyRun (n₀ : Node σ β ι (ProcessedTransaction τ ρ)) :
    Node σ β ι (ProcessedTransaction τ ρ) → Prop
  | refl : ReadyRun n₀ n₀
  | push {n : Node σ β ι (ProcessedTransaction τ ρ)} {b : β} (h : ReadyRun n₀ n)
    (hready : n.clearPending.Ready b) : ReadyRun n₀ (pushLeft (n.pushBlock b))

omit [TransactionRules σ τ ρ κ] [DecidableEq ι] in
theorem Started.sound (h : n.Started) : n.clearPending.Sound := by
  rw [clearPending_of_false h.pendingSession]
  have hbelow : ({ n with pendingTx := [] } : Node σ β ι (ProcessedTransaction τ ρ)).Traced := by
    refine ⟨n.state, [], ?_⟩
    change Replay n.state n.state n.undoStack []
    rw [h.undoStack]
    exact .nil
  refine ⟨h.linked, ?_, ?_, hbelow, h.pendingSession, h.undoMaxSize, h.maxSize⟩
  · rcases h.fork with ⟨-, hhead, hno⟩ | ⟨item, -, hhead, hid, -⟩
    · exact .inr ⟨hhead, hno⟩
    · exact .inl ⟨item, hhead, hid⟩
  · intro it hit
    change it ∈ n.fork.index at hit
    rcases h.fork with ⟨hindex, -⟩ | ⟨item, hindex, -, hid, -⟩
    · rw [hindex] at hit
      cases hit
    · rw [hindex, List.mem_singleton] at hit
      rw [hit, item.num_eq, hid]
      exact le_rfl

/-- The node below the pool after a push of a block. -/
theorem Sound.pushBlock {m : Node σ β ι (ProcessedTransaction τ ρ)} (hm : m.Sound)
    (hpending : m.pendingTx = []) (hleft : pushLeft (n.clearPending.pushBlockImpl b) = m) :
    (pushLeft (n.pushBlock b)).clearPending.Sound ∧ (pushLeft (n.pushBlock b)).headState = m.state := by
  obtain ⟨hstate, ⟨k, hstack⟩, hfork, -, hmax⟩ :=
    pushBlock_below hm.pendingSession hpending hm.one_le hleft rfl
  exact ⟨hm.of_take hstate hstack hfork hmax (clearPending_pool _).1, hstate⟩

theorem ReadyRun.sound (h₀ : n₀.Started) (h : ReadyRun n₀ n) : n.clearPending.Sound := by
  induction h with
  | refl => exact h₀.sound
  | @push n b h hready ih =>
    obtain ⟨-, hpending, -⟩ := clearPending_pool n
    obtain ⟨-, hpending', -⟩ :=
      pushBlockImpl_kept ih.pendingSession ih.linked.tied ih.one_le ih.traced b _ rfl
    exact ((ih.pushBlockImpl hready).pushBlock (hpending'.trans hpending) rfl).1

/-- **The two heads agree** after every run of calls of `push_block` that are ready, whether they succeed
or not; and a valid block that extends the chain is applied by the next call. -/
theorem heads_agree (h₀ : n₀.Started) (h : ReadyRun n₀ n) :
    n.clearPending.HeadsAgree ∧
      ∀ b s, ChainRules.applyBlock n.headState b = .ok s →
        ∃ n', n.pushBlock b = .ok n' ∧ n'.headState = s ∧
          ChainRules.headId n'.headState = Blocks.id b := by
  have hsound := h.sound h₀
  refine ⟨hsound.agree, fun b s happly ↦ ?_⟩
  obtain ⟨m, hm, hstate⟩ := hsound.pushBlockImpl_applied happly
  have hleft : pushLeft (n.clearPending.pushBlockImpl b) = m := by rw [hm]; rfl
  obtain ⟨-, hpending, -⟩ := clearPending_pool n
  obtain ⟨hsession', hpending', -, hsize, -⟩ :=
    pushBlockImpl_kept hsound.pendingSession hsound.linked.tied hsound.one_le hsound.traced b m hleft
  have hpush : n.pushBlock b = .ok (m.restorePending n.pendingTx) := by rw [Node.pushBlock, hm]
  obtain ⟨hstate', -⟩ := pushBlock_below hsession' (hpending'.trans hpending) hsize hleft
    (show pushLeft (n.pushBlock b) = m.restorePending n.pendingTx by rw [hpush]; rfl)
  refine ⟨_, hpush, hstate'.trans hstate, ?_⟩
  rw [hstate', hstate]
  exact ChainRules.headId_of_applyBlock happly

/-- A push that does not lead to a switch is ready. -/
theorem Ready.of_no_switch {n : Node σ β ι (ProcessedTransaction τ ρ)} {f : ForkDatabase β}
    {newHead : ForkItem β} (hgenesis : n.fork.head = none → Blocks.previous b = Blocks.noBlock β)
    (hpush : n.fork.pushBlock b = .ok f) (hhead : f.head = some newHead)
    (hstay : newHead.previousId = n.headId ∨ newHead.num ≤ n.headNum) : n.Ready b := by
  refine ⟨hgenesis, fun f₀ newHead' hpush' hhead' hprev hlt ↦ ?_⟩
  obtain rfl := Except.ok.inj (hpush.symm.trans hpush')
  obtain rfl := Option.some.inj (hhead.symm.trans hhead')
  rcases hstay with heq | hle
  · exact absurd heq hprev
  · exact absurd hlt (Nat.not_lt.2 hle)

end Node

/-! ### Two branches -/

namespace WitnessChain

/-- A block over a chain. -/
def blockOn (tag : ℕ) (chain : List Entry) : Block := ⟨⟨tag, 0, true, []⟩, chain⟩

/-- A block over a chain that fails to apply. -/
def badBlockOn (tag : ℕ) (chain : List Entry) : Block := ⟨⟨tag, 0, false, []⟩, chain⟩

/-- The chain of valid blocks with one tag. -/
def chainOf (tag length : ℕ) : List Entry := List.replicate length ⟨tag, 0, true, []⟩

/-- Three blocks, and one that competes with the last of them. -/
def forkedNode : Node :=
  (genesis 1).pushAll [blockOn 1 [], blockOn 1 (chainOf 1 1), blockOn 1 (chainOf 1 2), blockOn 2 (chainOf 1 2)]

theorem forkedNode_readyRun : Node.ReadyRun (genesis 1) forkedNode := by
  -- each push but the last one extends the chain, and the last one is not above the head
  have hready : ∀ (n : Node) (b : Block),
      (match n.clearPending.fork.pushBlock b with
        | .error _ => false
        | .ok f => match f.head with
          | none => false
          | some h => decide (h.previousId = n.clearPending.headId ∨ h.num ≤ n.clearPending.headNum)) = true →
      (n.clearPending.fork.head = none → b.previous = []) → n.clearPending.Ready b := by
    intro n b hcheck hgenesis
    rcases hpush : n.clearPending.fork.pushBlock b with e | f
    · rw [hpush] at hcheck
      cases hcheck
    · rw [hpush] at hcheck
      dsimp only at hcheck
      rcases hhead : f.head with - | h
      · rw [hhead] at hcheck
        cases hcheck
      · rw [hhead] at hcheck
        exact .of_no_switch hgenesis hpush hhead (of_decide_eq_true hcheck)
  have h₁ : Node.ReadyRun (genesis 1) ((genesis 1).pushAll [blockOn 1 []]) :=
    .push .refl (hready (genesis 1) (blockOn 1 []) (by decide) fun _ ↦ rfl)
  have h₂ : Node.ReadyRun (genesis 1) ((genesis 1).pushAll [blockOn 1 [], blockOn 1 (chainOf 1 1)]) :=
    .push h₁ (hready _ (blockOn 1 (chainOf 1 1)) (by decide) (by decide))
  have h₃ : Node.ReadyRun (genesis 1)
      ((genesis 1).pushAll [blockOn 1 [], blockOn 1 (chainOf 1 1), blockOn 1 (chainOf 1 2)]) :=
    .push h₂ (hready _ (blockOn 1 (chainOf 1 2)) (by decide) (by decide))
  exact .push h₃ (hready _ (blockOn 2 (chainOf 1 2)) (by decide) (by decide))

theorem heads_agree_forkedNode :
    forkedNode.headState.head = chainOf 1 3 ∧ forkedNode.clearPending.HeadsAgree :=
  ⟨by decide, (Node.heads_agree (genesis_started 1) forkedNode_readyRun).1⟩

/-- Seven blocks: two of the chain, a block that fails to apply with two blocks over it, and a block over
each of these. -/
def danglingRun : List Block :=
  [blockOn 1 [], blockOn 1 (chainOf 1 1), badBlockOn 2 [], blockOn 2 [⟨2, 0, false, []⟩], blockOn 3 [⟨2, 0, false, []⟩],
    blockOn 2 [⟨2, 0, true, []⟩, ⟨2, 0, false, []⟩], blockOn 3 [⟨3, 0, true, []⟩, ⟨2, 0, false, []⟩]]

/-- The first switch fails and removes the block that fails. A second branch over this block is then not
found, the head of the fork database stays on it, and a valid block over the chain is not applied. -/
theorem heads_disagree_danglingRun :
    ¬((genesis 10).pushAll danglingRun).clearPending.HeadsAgree ∧
      (ChainRules.applyBlock ((genesis 10).pushAll danglingRun).headState (blockOn 1 (chainOf 1 2))).isOk =
        true ∧
      (((genesis 10).pushAll danglingRun).pushBlock (blockOn 1 (chainOf 1 2))).isOk = false := by
  refine ⟨fun hagree ↦ ?_, by decide, by decide⟩
  have hfork : (((genesis 10).pushAll danglingRun).clearPending.fork.head.map ForkItem.id) =
      some [⟨3, 0, true, []⟩, ⟨3, 0, true, []⟩, ⟨2, 0, false, []⟩] := by
    decide
  have hhead : ((genesis 10).pushAll danglingRun).clearPending.headId = chainOf 1 2 := by
    decide
  rcases hagree with ⟨h, hh, hid⟩ | ⟨hnone, -⟩
  · rw [hh, Option.map_some, hid, hhead] at hfork
    exact absurd hfork (by decide)
  · rw [hnone] at hfork
    cases hfork

/-- A block over the competing block, which becomes the head and fails. -/
def failingBlock : Block := badBlockOn 2 (⟨2, 0, true, []⟩ :: chainOf 1 2)

/-- A failed switch leaves the state but forgets an undo record. -/
theorem failed_switch_records :
    ∃ m : Node, forkedNode.clearPending.pushBlockImpl failingBlock =
        .error (.apply (Blocks.id failingBlock), m) ∧
      m.state = forkedNode.clearPending.state ∧ forkedNode.clearPending.undoStack.length = 3 ∧
      m.undoStack.length = 2 := by
  have hfailed : (match forkedNode.clearPending.pushBlockImpl failingBlock with
      | .error (.apply id, m) => decide (id = Blocks.id failingBlock ∧
        m.state = forkedNode.clearPending.state ∧ m.undoStack.length = 2)
      | _ => false) = true := by
    decide
  rcases hpush : forkedNode.clearPending.pushBlockImpl failingBlock with ⟨e, m⟩ | m
  · rw [hpush] at hfailed
    rcases e with e | - | - | id
    · cases hfailed
    · cases hfailed
    · cases hfailed
    · obtain ⟨rfl, hstate, hlen⟩ := of_decide_eq_true hfailed
      exact ⟨m, rfl, hstate, by decide, hlen⟩
  · rw [hpush] at hfailed
    cases hfailed

/-- The fork database when the failing block is pushed. -/
def failingFork : ForkDatabase Block where
  index := [⟨4, failingBlock, some 3⟩, ⟨3, blockOn 2 (chainOf 1 2), some 1⟩, ⟨2, blockOn 1 (chainOf 1 2), some 1⟩,
    ⟨1, blockOn 1 (chainOf 1 1), some 0⟩]
  head := some ⟨4, failingBlock, some 3⟩
  maxSize := 2
  nextRef := 5

theorem failed_switch_unwound_failingBlock :
    ∃ m h₀, forkedNode.clearPending.pushBlockImpl failingBlock =
        .error (.apply (Blocks.id failingBlock), m) ∧
      m.state = forkedNode.clearPending.state ∧ m.fork.head = some h₀ ∧ h₀.id = chainOf 1 3 := by
  have hpush : forkedNode.clearPending.fork.pushBlock failingBlock = .ok failingFork := by
    decide
  have hfetch : failingFork.fetchBranchFrom (Blocks.id failingBlock) (chainOf 1 3) =
      some ([⟨4, failingBlock, some 3⟩, ⟨3, blockOn 2 (chainOf 1 2), some 1⟩],
        [⟨2, blockOn 1 (chainOf 1 2), some 1⟩]) := by
    decide
  have hhead : forkedNode.clearPending.headId = chainOf 1 3 := by decide
  obtain ⟨s, happly⟩ : ∃ s, ChainRules.applyBlock (⟨chainOf 1 2, [2], 2, []⟩ : State)
      (blockOn 2 (chainOf 1 2)) = .ok s := ⟨_, rfl⟩
  have hbad : ChainRules.applyBlock s failingBlock = .error false := by
    cases happly
    decide
  have hmid : forkedNode.clearPending.undoStack[[(⟨2, blockOn 1 (chainOf 1 2), some 1⟩ :
      ForkItem Block)].length - 1]? = some ⟨chainOf 1 2, [2], 2, []⟩ := by
    decide
  have hsplit : [(⟨4, failingBlock, some 3⟩ : ForkItem Block), ⟨3, blockOn 2 (chainOf 1 2), some 1⟩].reverse =
      [⟨3, blockOn 2 (chainOf 1 2), some 1⟩] ++ [⟨4, failingBlock, some 3⟩] := rfl
  have hreplay : Replay ⟨chainOf 1 2, [2], 2, []⟩ s [⟨chainOf 1 2, [2], 2, []⟩]
      ([(⟨3, blockOn 2 (chainOf 1 2), some 1⟩ : ForkItem Block)].map ForkItem.data).reverse :=
    .cons .nil happly
  obtain ⟨m, h₀, hm, hstate, -, -, hhead₀, hid₀, -⟩ := Node.failed_switch_unwound
    (forkedNode_readyRun.sound (genesis_started 1)) hpush rfl (by decide) (by decide)
    (hhead ▸ hfetch) hmid hsplit hreplay hbad
    fun _ ↦ ⟨fun p hp ↦ List.mem_singleton.1 hp ▸ by decide, fun hsized ↦ (by cases hsized)⟩
  exact ⟨m, h₀, hm, hstate, hhead₀, hid₀.trans hhead⟩

end WitnessChain

end Playchain
