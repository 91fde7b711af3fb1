import Playchain.Blocks.Node

/-!
# The tree of the fork database

The items of the index are linked (`ForkDatabase.Linked`): a weak pointer that can be locked leads to
the item of the previous block. The branches that `fetchBranchFrom` returns lead from the two blocks
down to blocks with a common previous block (`Branch`).
-/

namespace Playchain

variable {β ι τ : Type*} [Blocks β ι τ]

theorem ForkItem.num_eq (it : ForkItem β) : it.num = Blocks.numFromId β it.id :=
  (Blocks.numFromId_id it.data).symm

theorem ForkItem.numFromId_previousId (it : ForkItem β) :
    it.num = Blocks.numFromId β it.previousId + 1 :=
  rfl

/-- The items that weak pointers can reach. -/
def ForkDatabase.alive (f : ForkDatabase β) : List (ForkItem β) := f.index ++ f.head.toList

/-- The links of the items, wherever the head is. -/
structure ForkDatabase.Tied (f : ForkDatabase β) : Prop where
  ref_lt : ∀ it ∈ f.alive, it.ref < f.nextRef
  prev_lt : ∀ it ∈ f.alive, ∀ r, it.prev = some r → r < f.nextRef
  ref_inj : ∀ a ∈ f.alive, ∀ b ∈ f.alive, a.ref = b.ref → a = b
  prev_id : ∀ a ∈ f.alive, ∀ p ∈ f.alive, a.prev = some p.ref → p.id = a.previousId

/-- The links of the index. -/
structure ForkDatabase.Linked (f : ForkDatabase β) : Prop where
  ref_lt : ∀ it ∈ f.index, it.ref < f.nextRef
  prev_lt : ∀ it ∈ f.index, ∀ r, it.prev = some r → r < f.nextRef
  ref_inj : ∀ a ∈ f.index, ∀ b ∈ f.index, a.ref = b.ref → a = b
  id_inj : ∀ a ∈ f.index, ∀ b ∈ f.index, a.id = b.id → a = b
  prev_id : ∀ a ∈ f.index, ∀ p ∈ f.index, a.prev = some p.ref → p.id = a.previousId
  head_mem : ∀ h, f.head = some h → h ∈ f.index

/-- A branch: items from a block down, each the previous block of the one before it. -/
def Branch (id : ι) : List (ForkItem β) → Prop
  | [] => True
  | it :: rest => it.id = id ∧ Branch it.previousId rest

/-- A branch goes on from the block it stops at. -/
theorem Branch.append {id : ι} {passed rest : List (ForkItem β)} {stop : ForkItem β}
    (h : Branch id (passed ++ [stop])) (h' : Branch stop.id rest) : Branch id (passed ++ rest) := by
  induction passed generalizing id with
  | nil =>
    obtain ⟨rfl, -⟩ := h
    exact h'
  | cons it passed ih => exact ⟨h.1, ih h.2⟩

/-- What follows a block of a branch. -/
theorem Branch.of_append {id : ι} {passed rest : List (ForkItem β)} {it : ForkItem β}
    (h : Branch id (passed ++ it :: rest)) : Branch it.previousId rest := by
  induction passed generalizing id with
  | nil => exact h.2
  | cons x passed ih => exact ih h.2

/-- The numbers go down along a branch. -/
theorem Branch.num_le {id : ι} {branch : List (ForkItem β)} (h : Branch id branch) :
    ∀ it ∈ branch, it.num ≤ Blocks.numFromId β id := by
  induction branch generalizing id with
  | nil => exact fun it hit ↦ absurd hit List.not_mem_nil
  | cons x branch ih =>
    intro it hit
    have hx : x.num = Blocks.numFromId β id := by rw [x.num_eq, h.1]
    rcases List.mem_cons.1 hit with rfl | hit
    · exact hx.le
    · have hle := ih h.2 it hit
      have hsucc := x.numFromId_previousId
      omega

theorem Branch.pairwise {id : ι} {branch : List (ForkItem β)} (h : Branch id branch) :
    branch.Pairwise fun a b ↦ b.num < a.num := by
  induction branch generalizing id with
  | nil => exact .nil
  | cons x branch ih =>
    refine .cons (fun it hit ↦ ?_) (ih h.2)
    have hle := h.2.num_le it hit
    have hsucc := x.numFromId_previousId
    omega

/-- All blocks of a branch are above its root. -/
theorem Branch.root_lt {id : ι} {branch : List (ForkItem β)} {x : ForkItem β}
    (h : Branch id (branch ++ [x])) : ∀ it ∈ branch ++ [x],
      Blocks.numFromId β x.previousId < it.num := by
  intro it hit
  have hx : Blocks.numFromId β x.previousId < x.num := Nat.lt_succ_self _
  rcases List.mem_append.1 hit with hit | hit
  · exact hx.trans ((List.pairwise_append.1 h.pairwise).2.2 it hit x (List.mem_singleton.2 rfl))
  · rwa [List.mem_singleton.1 hit]

namespace ForkDatabase

variable {f f' : ForkDatabase β} {it p h : ForkItem β}

theorem mem_alive : it ∈ f.alive ↔ it ∈ f.index ∨ f.head = some it := by
  rw [alive, List.mem_append, Option.mem_toList]

/-- Some of the items are dropped. -/
theorem Tied.subset (hf : f.Tied) (halive : ∀ it ∈ f'.alive, it ∈ f.alive)
    (hnext : f'.nextRef = f.nextRef) : f'.Tied where
  ref_lt it hit := hnext ▸ hf.ref_lt it (halive it hit)
  prev_lt it hit := hnext ▸ hf.prev_lt it (halive it hit)
  ref_inj a ha b hb := hf.ref_inj a (halive a ha) b (halive b hb)
  prev_id a ha p hp := hf.prev_id a (halive a ha) p (halive p hp)

/-- A pointer that can be locked leads to the previous block. -/
theorem Tied.previousOf_eq (hf : f.Tied) (hit : it ∈ f.alive) (hp : f.previousOf it = some p) :
    p ∈ f.alive ∧ p.id = it.previousId := by
  rw [previousOf, Option.bind_eq_some_iff] at hp
  obtain ⟨r, hr, hp⟩ := hp
  have hmem : p ∈ f.alive := List.mem_of_find?_eq_some hp
  have href : p.ref = r := by simpa using List.find?_some hp
  exact ⟨hmem, hf.prev_id it hit p hmem (href ▸ hr)⟩

namespace Linked

/-- The head is an item of the index. -/
theorem mem_of_alive (hf : f.Linked) (hit : it ∈ f.alive) : it ∈ f.index := by
  rcases mem_alive.1 hit with hit | hhead
  · exact hit
  · exact hf.head_mem it hhead

theorem tied (hf : f.Linked) : f.Tied where
  ref_lt it hit := hf.ref_lt it (hf.mem_of_alive hit)
  prev_lt it hit := hf.prev_lt it (hf.mem_of_alive hit)
  ref_inj a ha b hb := hf.ref_inj a (hf.mem_of_alive ha) b (hf.mem_of_alive hb)
  prev_id a ha p hp := hf.prev_id a (hf.mem_of_alive ha) p (hf.mem_of_alive hp)

theorem previousOf_eq (hf : f.Linked) (hit : it ∈ f.index) (hp : f.previousOf it = some p) :
    p ∈ f.index ∧ p.id = it.previousId := by
  obtain ⟨hmem, hid⟩ := hf.tied.previousOf_eq (mem_alive.2 (.inl hit)) hp
  exact ⟨hf.mem_of_alive hmem, hid⟩

/-- Some of the items are dropped, but not the head. -/
theorem sublist (hf : f.Linked) (hindex : ∀ it ∈ f'.index, it ∈ f.index)
    (hnext : f'.nextRef = f.nextRef) (hhead : ∀ h, f'.head = some h → h ∈ f'.index) :
    f'.Linked where
  ref_lt it hit := hnext ▸ hf.ref_lt it (hindex it hit)
  prev_lt it hit := hnext ▸ hf.prev_lt it (hindex it hit)
  ref_inj a ha b hb := hf.ref_inj a (hindex a ha) b (hindex b hb)
  id_inj a ha b hb := hf.id_inj a (hindex a ha) b (hindex b hb)
  prev_id a ha p hp := hf.prev_id a (hindex a ha) p (hindex p hp)
  head_mem := hhead

theorem trim (hf : f.Linked) {minNum : ℕ} (hle : ∀ h, f.head = some h → minNum ≤ h.num) :
    (f.trim minNum).Linked := by
  refine hf.sublist (fun it hit ↦ (List.mem_filter.1 hit).1) rfl fun h hh ↦ ?_
  exact List.mem_filter.2 ⟨hf.head_mem h hh, decide_eq_true (hle h hh)⟩

/-- A new item is linked to the previous block. -/
theorem insert (hf : f.Linked) {b : β} {prev : Option ℕ} {head : Option (ForkItem β)}
    (hnew : ∀ it ∈ f.index, it.id ≠ Blocks.id b)
    (hprev : ∀ r, prev = some r → ∃ p ∈ f.index, p.ref = r ∧ p.id = Blocks.previous b)
    (hhead : ∀ h, head = some h → h ∈ ({ ref := f.nextRef, data := b, prev := prev } : ForkItem β) ::
      f.index) :
    Linked { f with
      index := { ref := f.nextRef, data := b, prev := prev } :: f.index
      head := head
      nextRef := f.nextRef + 1 } where
  ref_lt it hit := by
    rcases List.mem_cons.1 hit with rfl | hit
    · exact Nat.lt_succ_self _
    · exact (hf.ref_lt it hit).trans (Nat.lt_succ_self _)
  prev_lt it hit r hr := by
    rcases List.mem_cons.1 hit with rfl | hit
    · obtain ⟨p, hp, rfl, -⟩ := hprev r hr
      exact (hf.ref_lt p hp).trans (Nat.lt_succ_self _)
    · exact (hf.prev_lt it hit r hr).trans (Nat.lt_succ_self _)
  ref_inj a ha b' hb' href := by
    rcases List.mem_cons.1 ha with rfl | ha <;> rcases List.mem_cons.1 hb' with rfl | hb'
    · rfl
    · exact absurd href.symm (hf.ref_lt b' hb').ne
    · exact absurd href (hf.ref_lt a ha).ne
    · exact hf.ref_inj a ha b' hb' href
  id_inj a ha b' hb' hid := by
    rcases List.mem_cons.1 ha with rfl | ha <;> rcases List.mem_cons.1 hb' with rfl | hb'
    · rfl
    · exact absurd hid.symm (hnew b' hb')
    · exact absurd hid (hnew a ha)
    · exact hf.id_inj a ha b' hb' hid
  prev_id a ha p hp hap := by
    rcases List.mem_cons.1 ha with rfl | ha <;> rcases List.mem_cons.1 hp with rfl | hp
    -- a new item does not point to itself
    · obtain ⟨q, hq, href, -⟩ := hprev _ hap
      exact absurd href (hf.ref_lt q hq).ne
    · obtain ⟨q, hq, href, hid⟩ := hprev _ hap
      rw [← hf.ref_inj q hq p hp href]
      exact hid
    · exact absurd (hf.prev_lt a ha _ hap) (lt_irrefl _)
    · exact hf.prev_id a ha p hp hap
  head_mem h hh := hhead h hh

end Linked

/-! ### Sizes -/

theorem setMaxSize_head (f : ForkDatabase β) (size : ℕ) : (f.setMaxSize size).head = f.head := by
  obtain ⟨index, head, maxSize, nextRef⟩ := f
  cases head <;> rfl

theorem mem_of_setMaxSize {size : ℕ} (hit : it ∈ (f.setMaxSize size).index) : it ∈ f.index := by
  rw [setMaxSize] at hit
  rcases hh : f.head with - | h
  · rw [hh] at hit
    exact hit
  · rw [hh] at hit
    exact (List.mem_filter.1 hit).1

/-- Items that are not too far below the head stay. -/
theorem mem_setMaxSize {size : ℕ} (hit : it ∈ f.index)
    (hle : ∀ h, f.head = some h → h.num - size ≤ it.num) : it ∈ (f.setMaxSize size).index := by
  rw [setMaxSize]
  rcases hh : f.head with - | h
  · exact hit
  · exact List.mem_filter.2 ⟨hit, decide_eq_true (hle h hh)⟩

theorem Linked.setMaxSize (hf : f.Linked) (size : ℕ) : (f.setMaxSize size).Linked := by
  refine hf.sublist (fun it hit ↦ mem_of_setMaxSize hit) ?_ fun h hh ↦ ?_
  · rw [ForkDatabase.setMaxSize]
    cases f.head <;> rfl
  · rw [setMaxSize_head] at hh
    refine mem_setMaxSize (hf.head_mem h hh) fun h' hh' ↦ ?_
    obtain rfl := Option.some.inj (hh.symm.trans hh')
    exact Nat.sub_le _ _

/-! ### Branches -/

/-- The branch down to a number. -/
theorem descend_branch (hf : f.Tied) {target fuel : ℕ} {passed : List (ForkItem β)}
    {stop : ForkItem β} (hit : it ∈ f.alive) (h : f.descend target fuel it = some (passed, stop)) :
    Branch it.id (passed ++ [stop]) ∧ (∀ x ∈ passed ++ [stop], x ∈ f.alive) := by
  induction fuel generalizing it passed with
  | zero => cases h
  | succ fuel ih =>
    rw [descend] at h
    split_ifs at h with hlt
    · simp only [Option.bind_eq_bind, Option.bind_eq_some_iff] at h
      obtain ⟨p, hp, ⟨passed', stop'⟩, hrest, h⟩ := h
      cases h
      obtain ⟨hmem, hid⟩ := hf.previousOf_eq hit hp
      obtain ⟨hbranch, hall⟩ := ih hmem hrest
      rw [hid] at hbranch
      refine ⟨⟨rfl, hbranch⟩, fun x hx ↦ ?_⟩
      rcases List.mem_cons.1 hx with rfl | hx
      · exact hit
      · exact hall x hx
    · cases h
      refine ⟨⟨rfl, trivial⟩, fun x hx ↦ ?_⟩
      rw [List.nil_append, List.mem_singleton] at hx
      exact hx ▸ hit

/-- The branches down to a common previous block. -/
theorem descendBoth_branch [DecidableEq ι] (hf : f.Tied) {fuel : ℕ} {a b : ForkItem β}
    {as bs : List (ForkItem β)} (ha : a ∈ f.alive) (hb : b ∈ f.alive) (h : f.descendBoth fuel a b = some (as, bs)) :
    (Branch a.id as ∧ ∀ x ∈ as, x ∈ f.alive) ∧ (Branch b.id bs ∧ ∀ x ∈ bs, x ∈ f.alive) ∧
      ∃ as' bs' x y, as = as' ++ [x] ∧ bs = bs' ++ [y] ∧ x.previousId = y.previousId := by
  induction fuel generalizing a b as bs with
  | zero => cases h
  | succ fuel ih =>
    rw [descendBoth] at h
    split_ifs at h with hne
    · simp only [Option.bind_eq_bind, Option.bind_eq_some_iff] at h
      obtain ⟨a', ha', b', hb', ⟨as₁, bs₁⟩, hrest, h⟩ := h
      cases h
      obtain ⟨hmema, hida⟩ := hf.previousOf_eq ha ha'
      obtain ⟨hmemb, hidb⟩ := hf.previousOf_eq hb hb'
      obtain ⟨⟨hbra, halla⟩, ⟨hbrb, hallb⟩, as', bs', x, y, rfl, rfl, hxy⟩ := ih hmema hmemb hrest
      rw [hida] at hbra
      rw [hidb] at hbrb
      refine ⟨⟨⟨rfl, hbra⟩, fun z hz ↦ ?_⟩, ⟨⟨rfl, hbrb⟩, fun z hz ↦ ?_⟩, a :: as', b :: bs', x, y,
        rfl, rfl, hxy⟩
      · rcases List.mem_cons.1 hz with rfl | hz
        · exact ha
        · exact halla z hz
      · rcases List.mem_cons.1 hz with rfl | hz
        · exact hb
        · exact hallb z hz
    · cases h
      rw [not_not] at hne
      refine ⟨⟨⟨rfl, trivial⟩, fun z hz ↦ ?_⟩, ⟨⟨rfl, trivial⟩, fun z hz ↦ ?_⟩, [], [], a, b, rfl, rfl,
        hne⟩
      · exact List.mem_singleton.1 hz ▸ ha
      · exact List.mem_singleton.1 hz ▸ hb

/-- Different blocks lead down to different blocks with a common previous block. -/
theorem descendBoth_apart [DecidableEq ι] (hf : f.Tied) {fuel : ℕ} {a b : ForkItem β}
    {as bs : List (ForkItem β)} (ha : a ∈ f.alive) (hb : b ∈ f.alive) (hne : a.id ≠ b.id)
    (h : f.descendBoth fuel a b = some (as, bs)) :
    ∃ as' bs' x y, as = as' ++ [x] ∧ bs = bs' ++ [y] ∧ x.id ≠ y.id := by
  induction fuel generalizing a b as bs with
  | zero => cases h
  | succ fuel ih =>
    rw [descendBoth] at h
    split_ifs at h with hprev
    · simp only [Option.bind_eq_bind, Option.bind_eq_some_iff] at h
      obtain ⟨a', ha', b', hb', ⟨as₁, bs₁⟩, hrest, h⟩ := h
      cases h
      obtain ⟨hmema, hida⟩ := hf.previousOf_eq ha ha'
      obtain ⟨hmemb, hidb⟩ := hf.previousOf_eq hb hb'
      rw [← hida, ← hidb] at hprev
      obtain ⟨as', bs', x, y, rfl, rfl, hxy⟩ := ih hmema hmemb hprev hrest
      exact ⟨a :: as', b :: bs', x, y, rfl, rfl, hxy⟩
    · cases h
      exact ⟨[], [], a, b, rfl, rfl, hne⟩

theorem descend_eq_self {target fuel : ℕ} (hle : it.num ≤ target) :
    f.descend target (fuel + 1) it = some ([], it) := by
  rw [descend, if_neg (Nat.not_lt.2 hle)]

/-! ### Fetching -/

variable [DecidableEq ι]

theorem mem_of_fetchBlock {id : ι} (h : f.fetchBlock id = some it) : it ∈ f.index ∧ it.id = id :=
  ⟨List.mem_of_find?_eq_some h, by simpa using List.find?_some h⟩

theorem Linked.fetchBlock_eq (hf : f.Linked) (hit : it ∈ f.index) : f.fetchBlock it.id = some it := by
  rcases hfetch : f.fetchBlock it.id with - | q
  · have := List.find?_eq_none.1 hfetch it hit
    simp at this
  · obtain ⟨hq, hid⟩ := mem_of_fetchBlock hfetch
    rw [hf.id_inj q hq it hit hid]

theorem fetchBlock_eq_none_iff {id : ι} : f.fetchBlock id = none ↔ ∀ it ∈ f.index, it.id ≠ id := by
  rw [fetchBlock, List.find?_eq_none]
  simp

/-- **The branches that are fetched** lead from the two blocks down to a common previous block. -/
theorem Tied.fetchBranchFrom_branch (hf : f.Tied) {a b : ι} {first second : List (ForkItem β)}
    (h : f.fetchBranchFrom a b = some (first, second)) :
    (Branch a first ∧ ∀ x ∈ first, x ∈ f.alive) ∧ (Branch b second ∧ ∀ x ∈ second, x ∈ f.alive) ∧
      ∃ as bs x y, first = as ++ [x] ∧ second = bs ++ [y] ∧ x.previousId = y.previousId := by
  simp only [fetchBranchFrom, Option.bind_eq_bind, Option.bind_eq_some_iff] at h
  obtain ⟨x, hfx, y, hfy, ⟨as, x'⟩, has, ⟨bs, y'⟩, hbs, ⟨as', bs'⟩, hboth, h⟩ := h
  cases h
  obtain ⟨hx, rfl⟩ := mem_of_fetchBlock hfx
  obtain ⟨hy, rfl⟩ := mem_of_fetchBlock hfy
  replace hx := mem_alive.2 (.inl hx)
  replace hy := mem_alive.2 (.inl hy)
  obtain ⟨hbra, halla⟩ := descend_branch hf hx has
  obtain ⟨hbrb, hallb⟩ := descend_branch hf hy hbs
  have hx' : x' ∈ f.alive := halla x' (List.mem_append_right _ (List.mem_singleton.2 rfl))
  have hy' : y' ∈ f.alive := hallb y' (List.mem_append_right _ (List.mem_singleton.2 rfl))
  obtain ⟨⟨hbra', halla'⟩, ⟨hbrb', hallb'⟩, as₀, bs₀, u, v, rfl, rfl, huv⟩ :=
    descendBoth_branch hf hx' hy' hboth
  refine ⟨⟨hbra.append hbra', fun z hz ↦ ?_⟩, ⟨hbrb.append hbrb', fun z hz ↦ ?_⟩,
    as ++ as₀, bs ++ bs₀, u, v, (List.append_assoc _ _ _).symm, (List.append_assoc _ _ _).symm, huv⟩
  · rcases List.mem_append.1 hz with hz | hz
    · exact halla z (List.mem_append_left _ hz)
    · exact halla' z hz
  · rcases List.mem_append.1 hz with hz | hz
    · exact hallb z (List.mem_append_left _ hz)
    · exact hallb' z hz

/-- A block with the next number that does not extend the other one: the branches part above their root,
and the first of the two has a previous block. -/
theorem Tied.fetchBranchFrom_apart (hf : f.Tied) {a b : ι} {first second : List (ForkItem β)}
    (h : f.fetchBranchFrom a b = some (first, second))
    (hnum : ∀ x y, f.fetchBlock a = some x → f.fetchBlock b = some y → f.previousOf x ≠ none →
      x.num = y.num + 1 ∧ x.previousId ≠ y.id)
    (hlt : ∀ x y, f.fetchBlock a = some x → f.fetchBlock b = some y → y.num < x.num) :
    ∃ as bs x y, first = as ++ [x] ∧ second = bs ++ [y] ∧ x.id ≠ y.id := by
  simp only [fetchBranchFrom, Option.bind_eq_bind, Option.bind_eq_some_iff] at h
  obtain ⟨x, hfx, y, hfy, ⟨as, x'⟩, has, ⟨bs, y'⟩, hbs, ⟨as', bs'⟩, hboth, h⟩ := h
  cases h
  have hx := mem_alive.2 (.inl (mem_of_fetchBlock hfx).1)
  have hy := mem_alive.2 (.inl (mem_of_fetchBlock hfy).1)
  have hxy := hlt x y hfx hfy
  rw [descend, if_pos hxy] at has
  simp only [Option.bind_eq_bind, Option.bind_eq_some_iff] at has
  obtain ⟨p, hp, ⟨passed, stop⟩, hrest, has⟩ := has
  cases has
  obtain ⟨hsucc, hne⟩ := hnum x y hfx hfy (by rw [hp]; exact Option.some_ne_none _)
  obtain ⟨hpmem, hpid⟩ := hf.previousOf_eq hx hp
  -- the previous block has the number of the other one, so both descents stop there
  have hpnum : p.num = y.num := by
    have hsucc' : p.num + 1 = x.num := by
      rw [p.num_eq, hpid]
      rfl
    omega
  obtain ⟨fuel, hfuel⟩ : ∃ fuel, x.num = fuel + 1 := ⟨x.num - 1, by omega⟩
  rw [hfuel, descend_eq_self hpnum.le] at hrest
  cases hrest
  rw [descend_eq_self hpnum.ge] at hbs
  cases hbs
  obtain ⟨as₀, bs₀, u, v, rfl, rfl, huv⟩ := descendBoth_apart hf hpmem hy (hpid ▸ hne) hboth
  exact ⟨[x] ++ as₀, bs₀, u, v, (List.append_assoc _ _ _).symm, rfl, huv⟩

theorem fetchBranchFrom_branch (hf : f.Linked) {a b : ι} {first second : List (ForkItem β)}
    (h : f.fetchBranchFrom a b = some (first, second)) :
    (Branch a first ∧ ∀ x ∈ first, x ∈ f.index) ∧ (Branch b second ∧ ∀ x ∈ second, x ∈ f.index) ∧
      ∃ as bs x y, first = as ++ [x] ∧ second = bs ++ [y] ∧ x.previousId = y.previousId := by
  obtain ⟨⟨hfirst, hfirst'⟩, ⟨hsecond, hsecond'⟩, hroot⟩ := hf.tied.fetchBranchFrom_branch h
  exact ⟨⟨hfirst, fun x hx ↦ hf.mem_of_alive (hfirst' x hx)⟩,
    ⟨hsecond, fun x hx ↦ hf.mem_of_alive (hsecond' x hx)⟩, hroot⟩

/-! ### Pushing and removing -/

/-- The index with a new item; a block whose id is known is not inserted again. -/
def inserted (f : ForkDatabase β) (item : ForkItem β) : List (ForkItem β) :=
  if (f.fetchBlock item.id).isSome then f.index else item :: f.index

theorem mem_inserted {item : ForkItem β} (hit : it ∈ f.inserted item) : it = item ∨ it ∈ f.index := by
  rw [inserted] at hit
  split_ifs at hit
  · exact .inr hit
  · exact List.mem_cons.1 hit

theorem mem_inserted_of_mem (hit : it ∈ f.index) (item : ForkItem β) : it ∈ f.inserted item := by
  rw [inserted]
  split_ifs
  · exact hit
  · exact List.mem_cons_of_mem _ hit

/-- What `_push_block` does: a new item is linked to the previous block, if there is a head and a previous
block; and it becomes the head if it is the first one or has a greater number. -/
theorem pushBlock_eq_ok {b : β} (hpush : f.pushBlock b = .ok f') :
    ∃ item : ForkItem β, item.ref = f.nextRef ∧ item.data = b ∧ f'.nextRef = f.nextRef + 1 ∧
      f'.maxSize = f.maxSize ∧
      ((f.head = none ∧ item.prev = none ∧ f'.index = item :: f.index ∧ f'.head = some item) ∨
        ∃ h, f.head = some h ∧
          (item.prev = none ∧ Blocks.previous b = Blocks.noBlock β ∨
            ∃ p ∈ f.index, p.id = Blocks.previous b ∧ item.prev = some p.ref) ∧
          (h.num < item.num ∧ f'.head = some item ∧
              f'.index = (f.inserted item).filter (fun it ↦ item.num - f.maxSize ≤ it.num) ∨
            item.num ≤ h.num ∧ f'.head = some h ∧ f'.index = f.inserted item)) := by
  rw [ForkDatabase.pushBlock] at hpush
  rcases hhead : f.head with - | h
  · rw [hhead] at hpush
    obtain rfl := Except.ok.inj hpush
    exact ⟨_, rfl, rfl, rfl, rfl, .inl ⟨rfl, rfl, rfl, rfl⟩⟩
  rw [hhead] at hpush
  dsimp only at hpush
  by_cases hold : blockNum b ≤ h.num - f.maxSize
  · rw [if_pos hold] at hpush
    cases hpush
  rw [if_neg hold] at hpush
  generalize hprev : (if Blocks.previous b = Blocks.noBlock β then some none
    else (f.fetchBlock (Blocks.previous b)).map fun p ↦ some p.ref) = prev at hpush
  rcases prev with - | prev
  · cases hpush
  -- what the weak pointer of the new item points to
  have hlink : prev = none ∧ Blocks.previous b = Blocks.noBlock β ∨
      ∃ p ∈ f.index, p.id = Blocks.previous b ∧ prev = some p.ref := by
    split_ifs at hprev with hno
    · exact .inl ⟨(Option.some.inj hprev).symm, hno⟩
    · obtain ⟨p, hp, hpref⟩ := Option.map_eq_some_iff.1 hprev
      obtain ⟨hmem, hid⟩ := mem_of_fetchBlock hp
      exact .inr ⟨p, hmem, hid, hpref.symm⟩
  dsimp only at hpush
  by_cases hlt : h.num < blockNum b
  · rw [if_pos (show h.num < ForkItem.num ⟨f.nextRef, b, prev⟩ from hlt)] at hpush
    obtain rfl := Except.ok.inj hpush
    exact ⟨⟨f.nextRef, b, prev⟩, rfl, rfl, rfl, rfl, .inr ⟨h, rfl, hlink, .inl ⟨hlt, rfl, rfl⟩⟩⟩
  · rw [if_neg (show ¬h.num < ForkItem.num ⟨f.nextRef, b, prev⟩ from hlt)] at hpush
    obtain rfl := Except.ok.inj hpush
    exact ⟨⟨f.nextRef, b, prev⟩, rfl, rfl, rfl, rfl,
      .inr ⟨h, rfl, hlink, .inr ⟨Nat.le_of_not_lt hlt, rfl, rfl⟩⟩⟩

theorem maxSize_pushBlock {b : β} (hpush : f.pushBlock b = .ok f') : f'.maxSize = f.maxSize := by
  obtain ⟨-, -, -, -, hsize, -⟩ := pushBlock_eq_ok hpush
  exact hsize

/-- An item next to the new block stays. -/
theorem mem_pushBlock {b : β} (hpush : f.pushBlock b = .ok f') (hsize : 1 ≤ f.maxSize)
    (hit : it ∈ f.index) (hle : blockNum b ≤ it.num + 1) : it ∈ f'.index := by
  obtain ⟨item, -, rfl, -, -, ⟨-, -, hindex, -⟩ | ⟨h, -, -, ⟨-, -, hindex⟩ | ⟨-, -, hindex⟩⟩⟩ :=
    pushBlock_eq_ok hpush
  · rw [hindex]
    exact List.mem_cons_of_mem _ hit
  · rw [hindex]
    refine List.mem_filter.2 ⟨mem_inserted_of_mem hit item, decide_eq_true ?_⟩
    change item.num ≤ it.num + 1 at hle
    omega
  · rw [hindex]
    exact mem_inserted_of_mem hit item

/-- **What is pushed**: the head moves exactly to blocks with a greater number. -/
theorem Linked.pushBlock (hf : f.Linked) (hhead : f.head = some h)
    (hle : ∀ it ∈ f.index, it.num ≤ h.num) {b : β} (hpush : f.pushBlock b = .ok f') :
    f'.Linked ∧
      ((blockNum b ≤ h.num ∧ f'.head = some h ∧ ∀ it ∈ f'.index, it.num ≤ h.num) ∨
        h.num < blockNum b ∧ ∃ item : ForkItem β, f'.head = some item ∧ item.data = b ∧
          (∀ it ∈ f'.index, it = item ∨ it ∈ f.index) ∧
          (Blocks.previous b = Blocks.noBlock β ∨
            ∃ p ∈ f.index, p.id = Blocks.previous b ∧ item.prev = some p.ref)) := by
  obtain ⟨item, href, rfl, hnext, -, ⟨hnone, -⟩ | ⟨h', hh', hlink, hmove⟩⟩ := pushBlock_eq_ok hpush
  · rw [hhead] at hnone
    cases hnone
  obtain rfl := Option.some.inj (hhead.symm.trans hh')
  have hitem : item.num = blockNum item.data := rfl
  have hlink' : Blocks.previous item.data = Blocks.noBlock β ∨
      ∃ p ∈ f.index, p.id = Blocks.previous item.data ∧ item.prev = some p.ref :=
    hlink.imp And.right id
  -- a block that is inserted is new
  have hinsert : f.fetchBlock item.id = none → ∀ g : ForkDatabase β, g.nextRef = f.nextRef + 1 →
      (∀ it ∈ g.index, it = item ∨ it ∈ f.index) → (∀ x, g.head = some x → x ∈ g.index) → g.Linked := by
    intro hnew g hgnext hgindex hghead
    have hlinked : Linked { f with
        index := { ref := f.nextRef, data := item.data, prev := item.prev } :: f.index
        head := none
        nextRef := f.nextRef + 1 } := by
      refine hf.insert (fetchBlock_eq_none_iff.1 hnew) (fun r hr ↦ ?_) fun x hx ↦ (by cases hx)
      rcases hlink with ⟨hnone, -⟩ | ⟨p, hp, hid, hp'⟩
      · rw [hnone] at hr
        cases hr
      · exact ⟨p, hp, Option.some.inj (hp'.symm.trans hr), hid⟩
    have heq : item = { ref := f.nextRef, data := item.data, prev := item.prev } := by rw [← href]
    refine hlinked.sublist (fun it hit ↦ ?_) hgnext hghead
    rcases hgindex it hit with rfl | hit
    · exact heq ▸ List.mem_cons_self
    · exact List.mem_cons_of_mem _ hit
  rcases hmove with ⟨hlt, hhead', hindex⟩ | ⟨hge, hhead', hindex⟩
  -- the block is above the head, so it is not known
  · have hnew : f.fetchBlock item.id = none := by
      refine fetchBlock_eq_none_iff.2 fun it hit heq ↦ ?_
      have hitle := hle it hit
      rw [it.num_eq, heq, ← item.num_eq] at hitle
      omega
    have hsub : ∀ it ∈ f'.index, it = item ∨ it ∈ f.index := by
      intro it hit
      rw [hindex] at hit
      exact mem_inserted (List.mem_filter.1 hit).1
    refine ⟨hinsert hnew f' hnext hsub fun x hx ↦ ?_, .inr ⟨hlt, item, hhead', rfl, hsub, hlink'⟩⟩
    obtain rfl := Option.some.inj (hhead'.symm.trans hx)
    rw [hindex, inserted, hnew]
    exact List.mem_filter.2 ⟨List.mem_cons_self, decide_eq_true (Nat.sub_le _ _)⟩
  · have hsub : ∀ it ∈ f'.index, it = item ∨ it ∈ f.index := by
      intro it hit
      rw [hindex] at hit
      exact mem_inserted hit
    refine ⟨?_, .inl ⟨hge, hhead', fun it hit ↦ ?_⟩⟩
    · rcases hknown : f.fetchBlock item.id with - | q
      · refine hinsert hknown f' hnext hsub fun x hx ↦ ?_
        obtain rfl := Option.some.inj (hhead'.symm.trans hx)
        rw [hindex]
        exact mem_inserted_of_mem (hf.head_mem h hhead) item
      · have hindex' : f'.index = f.index := by rw [hindex, inserted, hknown]; rfl
        refine ⟨fun it hit ↦ ?_, fun it hit r hr ↦ ?_, hindex' ▸ hf.ref_inj, hindex' ▸ hf.id_inj,
          hindex' ▸ hf.prev_id, fun x hx ↦ ?_⟩
        · rw [hnext]
          exact (hf.ref_lt it (hindex' ▸ hit)).trans (Nat.lt_succ_self _)
        · rw [hnext]
          exact (hf.prev_lt it (hindex' ▸ hit) r hr).trans (Nat.lt_succ_self _)
        · obtain rfl := Option.some.inj (hhead'.symm.trans hx)
          exact hindex' ▸ hf.head_mem h hhead
    · rcases hsub it hit with rfl | hit
      · exact hge
      · exact hle it hit

/-- A new item is linked to the previous block, wherever the head is. -/
theorem Tied.pushBlock (hf : f.Tied) {b : β} (hpush : f.pushBlock b = .ok f') :
    f'.Tied ∧ ∀ it ∈ f'.alive, it ∈ f.alive ∨ it.data = b ∧ (it.prev = none ∨
      ∃ p ∈ f.index, p.id = Blocks.previous b ∧ it.prev = some p.ref) := by
  obtain ⟨item, href, rfl, hnext, -, hcases⟩ := pushBlock_eq_ok hpush
  have hlink : item.prev = none ∨
      ∃ p ∈ f.index, p.id = Blocks.previous item.data ∧ item.prev = some p.ref := by
    rcases hcases with ⟨-, hnone, -⟩ | ⟨h, -, hlink, -⟩
    · exact .inl hnone
    · exact hlink.imp And.left id
  have halive : ∀ it ∈ f'.alive, it = item ∨ it ∈ f.alive := by
    have hold : ∀ it, it ∈ f.inserted item → it = item ∨ it ∈ f.alive := fun it hit ↦
      (mem_inserted hit).imp id fun hit ↦ mem_alive.2 (.inl hit)
    intro it hit
    rcases hcases with ⟨-, -, hindex, hhead⟩ | ⟨h, hh, -, ⟨-, hhead, hindex⟩ | ⟨-, hhead, hindex⟩⟩
    all_goals rcases mem_alive.1 hit with hit | hit
    · rw [hindex] at hit
      exact (List.mem_cons.1 hit).imp id fun hit ↦ mem_alive.2 (.inl hit)
    · exact .inl (Option.some.inj (hit.symm.trans hhead))
    · rw [hindex] at hit
      exact hold it (List.mem_filter.1 hit).1
    · exact .inl (Option.some.inj (hit.symm.trans hhead))
    · rw [hindex] at hit
      exact hold it hit
    · obtain rfl := Option.some.inj (hit.symm.trans hhead)
      exact .inr (mem_alive.2 (.inr hh))
  have hfresh : ∀ p ∈ f.alive, p.ref ≠ item.ref := fun p hp ↦ href ▸ (hf.ref_lt p hp).ne
  refine ⟨⟨fun it hit ↦ ?_, fun it hit r hr ↦ ?_, fun a ha c hc hac ↦ ?_, fun a ha p hp hap ↦ ?_⟩,
    fun it hit ↦ ?_⟩
  · rw [hnext]
    rcases halive it hit with rfl | hit
    · exact href ▸ Nat.lt_succ_self _
    · exact (hf.ref_lt it hit).trans (Nat.lt_succ_self _)
  · rw [hnext]
    rcases halive it hit with rfl | hit
    · rcases hlink with hnone | ⟨p, hp, -, hp'⟩
      · rw [hnone] at hr
        cases hr
      · obtain rfl := Option.some.inj (hp'.symm.trans hr)
        exact (hf.ref_lt p (mem_alive.2 (.inl hp))).trans (Nat.lt_succ_self _)
    · exact (hf.prev_lt it hit r hr).trans (Nat.lt_succ_self _)
  · rcases halive a ha with rfl | ha <;> rcases halive c hc with rfl | hc
    · rfl
    · exact absurd hac.symm (hfresh c hc)
    · exact absurd hac (hfresh a ha)
    · exact hf.ref_inj a ha c hc hac
  · rcases halive a ha with rfl | ha
    · rcases hlink with hnone | ⟨q, hq, hid, hq'⟩
      · rw [hnone] at hap
        cases hap
      · have hqref := Option.some.inj (hq'.symm.trans hap)
        rcases halive p hp with rfl | hp
        · exact absurd hqref (hfresh q (mem_alive.2 (.inl hq)))
        · rw [← hf.ref_inj q (mem_alive.2 (.inl hq)) p hp hqref]
          exact hid
    · rcases halive p hp with rfl | hp
      · exact absurd (hf.prev_lt a ha _ hap) (href ▸ lt_irrefl _)
      · exact hf.prev_id a ha p hp hap
  · rcases halive it hit with rfl | hit
    · exact .inr ⟨rfl, hlink⟩
    · exact .inl hit

theorem popBlock_index (hpop : f.popBlock = some f') : f'.index = f.index ∧ f'.nextRef = f.nextRef := by
  simp only [popBlock, Option.bind_eq_bind, Option.bind_eq_some_iff] at hpop
  obtain ⟨h, -, p, -, hpop⟩ := hpop
  cases hpop
  exact ⟨rfl, rfl⟩

theorem remove_index (f : ForkDatabase β) (id : ι) :
    (f.remove id).index = f.index.filter (fun it ↦ it.id ≠ id) ∧ (f.remove id).nextRef = f.nextRef := by
  rw [remove]
  dsimp only
  split
  · exact ⟨rfl, rfl⟩
  · split_ifs
    · generalize hg : ({ f with index := f.index.filter fun it ↦ it.id ≠ id } : ForkDatabase β) = g
      rcases hpop : g.popBlock with - | g'
      · exact ⟨rfl, rfl⟩
      · obtain ⟨hindex, hnext⟩ := popBlock_index hpop
        rw [Option.getD_some, hindex, hnext, ← hg]
        exact ⟨rfl, rfl⟩
    · exact ⟨rfl, rfl⟩

theorem mem_remove {id : ι} : it ∈ (f.remove id).index ↔ it ∈ f.index ∧ it.id ≠ id := by
  rw [(remove_index f id).1, List.mem_filter, decide_eq_true_eq]

theorem mem_removeAll {items : List (ForkItem β)} :
    it ∈ (f.removeAll items).index ↔ it ∈ f.index ∧ ∀ x ∈ items, it.id ≠ x.id := by
  induction items generalizing f with
  | nil => simp [removeAll]
  | cons x items ih =>
    have hcons : f.removeAll (x :: items) = (f.remove x.id).removeAll items := rfl
    rw [hcons, ih, mem_remove, List.forall_mem_cons, and_assoc]

theorem nextRef_removeAll (f : ForkDatabase β) (items : List (ForkItem β)) :
    (f.removeAll items).nextRef = f.nextRef := by
  induction items generalizing f with
  | nil => rfl
  | cons x items ih => exact (ih _).trans (remove_index f x.id).2

/-- An item that is alive can be locked. -/
theorem lock_of_mem (hp : p ∈ f.index)
    (hinj : ∀ q ∈ f.index ++ f.head.toList, q.ref = p.ref → q = p) : f.lock p.ref = some p := by
  rcases hfind : f.lock p.ref with - | q
  · exact absurd (List.find?_eq_none.1 hfind p (List.mem_append_left _ hp)) (by simp)
  · rw [hinj q (List.mem_of_find?_eq_some hfind) (by simpa using List.find?_some hfind)]

/-- **Removing the head** puts back the previous block. -/
theorem Linked.remove_head (hf : f.Linked) {item : ForkItem β} (hhead : f.head = some item)
    (hp : p ∈ f.index) (hlink : item.prev = some p.ref) :
    (f.remove item.id).Linked ∧ (f.remove item.id).head = some p := by
  have hmem := hf.head_mem item hhead
  have hid := hf.prev_id item hmem p hp hlink
  have hne : p.id ≠ item.id := by
    intro heq
    have hnum : p.num + 1 = item.num := by
      rw [p.num_eq, hid]
      rfl
    rw [p.num_eq, heq, ← item.num_eq] at hnum
    omega
  obtain ⟨g, hg⟩ : ∃ g : ForkDatabase β, g = { f with index := f.index.filter fun it ↦ it.id ≠ item.id } :=
    ⟨_, rfl⟩
  -- the weak pointer to the previous block still holds: the index keeps it
  have hlock : g.lock p.ref = some p := by
    refine lock_of_mem ?_ fun q hq href ↦ ?_
    · rw [hg]
      exact List.mem_filter.2 ⟨hp, decide_eq_true hne⟩
    · refine hf.ref_inj q ?_ p hp href
      rw [hg] at hq
      rcases List.mem_append.1 hq with hq | hq
      · exact (List.mem_filter.1 hq).1
      · exact hf.head_mem q (Option.mem_toList.1 hq)
  have hpop : g.popBlock = some { g with head := some p } := by
    have hgh : g.head = some item := by rw [hg, hhead]
    rw [popBlock, hgh, Option.bind_eq_bind, Option.bind_some, previousOf, hlink, Option.bind_some, hlock]
    rfl
  have hhead' : (f.remove item.id).head = some p := by
    rw [remove]
    dsimp only
    rw [← hg, hhead]
    dsimp only
    rw [if_pos rfl, hpop]
    rfl
  refine ⟨hf.sublist (fun it hit ↦ (mem_remove.1 hit).1) (remove_index f item.id).2 fun x hx ↦ ?_,
    hhead'⟩
  rw [hhead'] at hx
  cases hx
  exact mem_remove.2 ⟨hp, hne⟩

end ForkDatabase

end Playchain
