import Playchain.Blocks.WitnessChain
import Playchain.Lib.Descent
import Playchain.Spec.ForkTree

/-!
# The fork point

Where the links of two blocks lead down to blocks with a common previous block, `fetchBranchFrom` finds such blocks
(`fetchBranchFrom_finds_fork_point`). It first brings both blocks to the same height. If they meet there, one of
the two is an ancestor of the other, and both branches end with it. Otherwise both go down in step, to the first blocks
with the same previous block: the branches have no block in common, and the previous block is the most recent common
ancestor.
-/

namespace Playchain

variable {β ι τ : Type*} [Blocks β ι τ]

namespace ForkDatabase

open Relation

variable {f : ForkDatabase β}

/-! ### Ancestors -/

/-- The block with one id is known, and the other id is that of its previous block. -/
def Parent (f : ForkDatabase β) (i j : ι) : Prop := ∃ it ∈ f.alive, it.id = i ∧ it.previousId = j

/-- A block is an ancestor of another one, or the same. -/
def Ancestor (f : ForkDatabase β) (older newer : ι) : Prop := ReflTransGen f.Parent newer older

theorem parent_rightUnique (f : ForkDatabase β) : Relator.RightUnique f.Parent := by
  rintro i j k ⟨it, -, rfl, rfl⟩ ⟨it', -, hid, rfl⟩
  exact congrArg Blocks.previous (Blocks.id_inj hid).symm

theorem numFromId_of_parent (f : ForkDatabase β) (i j : ι) (h : f.Parent i j) :
    Blocks.numFromId β i = Blocks.numFromId β j + 1 := by
  obtain ⟨it, -, rfl, rfl⟩ := h
  exact it.num_eq.symm

/-- The blocks of a branch are ancestors of the block it starts at, and so is the previous block of its last one. -/
theorem ancestor_of_branch {id : ι} {branch : List (ForkItem β)} (h : Branch id branch)
    (halive : ∀ it ∈ branch, it ∈ f.alive) {it : ForkItem β} (hit : it ∈ branch) :
    f.Ancestor it.id id ∧ f.Ancestor it.previousId id := by
  induction branch generalizing id with
  | nil => cases hit
  | cons x branch ih =>
    have hx : f.Parent x.id x.previousId := ⟨x, halive x List.mem_cons_self, rfl, rfl⟩
    obtain ⟨rfl, hrest⟩ := h
    rcases List.mem_cons.1 hit with rfl | hit
    · exact ⟨.refl, .single hx⟩
    · obtain ⟨h₁, h₂⟩ := ih hrest (fun it hit ↦ halive it (List.mem_cons_of_mem _ hit)) hit
      exact ⟨.head hx h₁, .head hx h₂⟩

/-- An ancestor that is not below a branch is one of its blocks. -/
theorem mem_branch_of_ancestor {id c : ι} {branch : List (ForkItem β)} {x : ForkItem β}
    (h : Branch id (branch ++ [x])) (hc : f.Ancestor c id) (hnum : x.num ≤ Blocks.numFromId β c) :
    ∃ it ∈ branch ++ [x], it.id = c := by
  induction branch generalizing id with
  | nil =>
    obtain ⟨rfl, -⟩ := h
    rw [x.num_eq] at hnum
    have heq := Descent.eq_of_reach_of_height_le f.numFromId_of_parent hc hnum
    exact ⟨x, List.mem_singleton.2 rfl, heq⟩
  | cons y branch ih =>
    obtain ⟨rfl, hrest⟩ := h
    rcases ReflTransGen.cases_head hc with rfl | ⟨k, hk, hkc⟩
    · exact ⟨y, List.mem_cons_self, rfl⟩
    · obtain ⟨y', -, hid, rfl⟩ := hk
      have hprev : y'.previousId = y.previousId := congrArg Blocks.previous (Blocks.id_inj hid)
      rw [hprev] at hkc
      obtain ⟨it, hit, hitc⟩ := ih hrest hkc
      exact ⟨it, List.mem_cons_of_mem _ hit, hitc⟩

/-! ### Links -/

/-- The links lead from one item to another. -/
def Leads (f : ForkDatabase β) : ForkItem β → ForkItem β → Prop := ReflTransGen fun it p ↦ f.previousOf it = some p

theorem Tied.num_previousOf (hf : f.Tied) {it p : ForkItem β} (hit : it ∈ f.alive) (hp : f.previousOf it = some p) :
    it.num = p.num + 1 := by
  rw [p.num_eq, (hf.previousOf_eq hit hp).2]
  rfl

theorem Tied.leads_num_le (hf : f.Tied) {it p : ForkItem β} (hit : it ∈ f.alive) (h : f.Leads it p) : p.num ≤ it.num := by
  induction h using ReflTransGen.head_induction_on with
  | refl => exact le_rfl
  | head hstep _ ih =>
    have hsucc := hf.num_previousOf hit hstep
    have hle := ih (hf.previousOf_eq hit hstep).1
    omega

/-- **The first two loops**: the links can be followed down to any height above the end. -/
theorem Tied.descend_of_leads (hf : f.Tied) {a x : ForkItem β} (ha : a ∈ f.alive) (h : f.Leads a x) (target : ℕ)
    {fuel : ℕ} (htarget : x.num ≤ target) (hfuel : a.num < fuel) :
    ∃ passed stop, f.descend target fuel a = some (passed, stop) ∧ stop.num = min a.num target ∧ f.Leads stop x := by
  induction h using ReflTransGen.head_induction_on generalizing fuel with
  | refl =>
    obtain ⟨fuel, rfl⟩ := Nat.exists_eq_succ_of_ne_zero (Nat.ne_zero_of_lt hfuel)
    exact ⟨[], x, descend_eq_self htarget, (min_eq_left htarget).symm, .refl⟩
  | head hstep hrest ih =>
    rename_i it p
    obtain ⟨fuel, rfl⟩ := Nat.exists_eq_succ_of_ne_zero (Nat.ne_zero_of_lt hfuel)
    have hsucc := hf.num_previousOf ha hstep
    by_cases habove : target < it.num
    · obtain ⟨passed, stop, hdescend, hnum, hleads⟩ := ih (hf.previousOf_eq ha hstep).1 (show p.num < fuel by omega)
      refine ⟨it :: passed, stop, ?_, by omega, hleads⟩
      rw [descend, if_pos habove, hstep, Option.bind_eq_bind, Option.bind_some, hdescend]
      rfl
    · exact ⟨[], it, descend_eq_self (not_lt.1 habove), by omega, .head hstep hrest⟩

/-- **The third loop** ends: at the latest, the ends have a common previous block. -/
theorem Tied.descendBoth_of_leads [DecidableEq ι] (hf : f.Tied) {a b x y : ForkItem β} (ha : a ∈ f.alive)
    (hb : b ∈ f.alive) (hax : f.Leads a x) (hby : f.Leads b y) (hroot : x.previousId = y.previousId)
    (hnum : a.num = b.num) {fuel : ℕ} (hfuel : a.num < fuel) : ∃ as bs, f.descendBoth fuel a b = some (as, bs) := by
  have hends : x.num = y.num := by rw [x.numFromId_previousId, y.numFromId_previousId, hroot]
  induction hax using ReflTransGen.head_induction_on generalizing b fuel with
  | refl =>
    obtain ⟨fuel, rfl⟩ := Nat.exists_eq_succ_of_ne_zero (Nat.ne_zero_of_lt hfuel)
    have hsame : b = y := by
      rcases ReflTransGen.cases_head hby with rfl | ⟨p, hp, hrest⟩
      · rfl
      · have hsucc := hf.num_previousOf hb hp
        have hle := hf.leads_num_le (hf.previousOf_eq hb hp).1 hrest
        omega
    rw [descendBoth, hsame, if_neg (not_not.2 hroot)]
    exact ⟨_, _, rfl⟩
  | head hstep hrest ih =>
    rename_i it p
    obtain ⟨fuel, rfl⟩ := Nat.exists_eq_succ_of_ne_zero (Nat.ne_zero_of_lt hfuel)
    rw [descendBoth]
    by_cases hprev : it.previousId = b.previousId
    · rw [if_neg (not_not.2 hprev)]
      exact ⟨_, _, rfl⟩
    · have hsucc := hf.num_previousOf ha hstep
      have hle := hf.leads_num_le (hf.previousOf_eq ha hstep).1 hrest
      rcases ReflTransGen.cases_head hby with rfl | ⟨q, hq, hqy⟩
      · omega
      · have hsucc' := hf.num_previousOf hb hq
        obtain ⟨as, bs, hboth⟩ :=
          ih (hf.previousOf_eq ha hstep).1 (hf.previousOf_eq hb hq).1 hqy (by omega) (show p.num < fuel by omega)
        rw [if_pos hprev, hstep, hq]
        simp only [Option.bind_eq_bind, Option.bind_some, hboth]
        exact ⟨_, _, rfl⟩

/-! ### The branches -/

/-- At most one of two blocks has to go down to meet the other's height. -/
theorem Tied.fetchBranchFrom_of_leads [DecidableEq ι] (hf : f.Tied) {first second : ι} {a b x y : ForkItem β}
    (ha : f.fetchBlock first = some a) (hb : f.fetchBlock second = some b) (hax : f.Leads a x) (hby : f.Leads b y)
    (hroot : x.previousId = y.previousId) :
    ∃ as a' bs b' as' bs', f.descend b.num (a.num + 1) a = some (as, a') ∧ f.descend a'.num (b.num + 1) b = some (bs, b') ∧
      a'.num = min a.num b.num ∧ b'.num = a'.num ∧ f.descendBoth (a'.num + 1) a' b' = some (as', bs') ∧
      f.fetchBranchFrom first second = some (as ++ as', bs ++ bs') := by
  have hends : x.num = y.num := by rw [x.numFromId_previousId, y.numFromId_previousId, hroot]
  have hamem : a ∈ f.alive := mem_alive.2 (.inl (mem_of_fetchBlock ha).1)
  have hbmem : b ∈ f.alive := mem_alive.2 (.inl (mem_of_fetchBlock hb).1)
  have hxle := hf.leads_num_le hamem hax
  have hyle := hf.leads_num_le hbmem hby
  obtain ⟨as, a', has, hanum, ha'x⟩ := hf.descend_of_leads hamem hax b.num (by omega) (Nat.lt_succ_self _)
  have hx'le : x.num ≤ a'.num := by omega
  obtain ⟨bs, b', hbs, hbnum, hb'y⟩ := hf.descend_of_leads hbmem hby a'.num (by omega) (Nat.lt_succ_self _)
  have hnum : b'.num = a'.num := by omega
  have ha'mem := (descend_branch hf hamem has).2 a' (List.mem_append_right _ (List.mem_singleton.2 rfl))
  have hb'mem := (descend_branch hf hbmem hbs).2 b' (List.mem_append_right _ (List.mem_singleton.2 rfl))
  obtain ⟨as', bs', hboth⟩ := hf.descendBoth_of_leads ha'mem hb'mem ha'x hb'y hroot hnum.symm (Nat.lt_succ_self _)
  refine ⟨as, a', bs, b', as', bs', has, hbs, hanum, hnum, hboth, ?_⟩
  simp only [fetchBranchFrom, ha, hb, has, hbs, hboth, Option.bind_eq_bind, Option.bind_some]
  rfl

/-- Branches that end with different blocks of one number have no block in common. -/
theorem Branch.disjoint {i j : ι} {as bs : List (ForkItem β)} {u v : ForkItem β} (ha : Branch i (as ++ [u]))
    (hb : Branch j (bs ++ [v])) (ha' : ∀ it ∈ as ++ [u], it ∈ f.alive) (hb' : ∀ it ∈ bs ++ [v], it ∈ f.alive)
    (hnum : u.num = v.num) (hne : u.id ≠ v.id) : ∀ s ∈ as ++ [u], ∀ t ∈ bs ++ [v], s.id ≠ t.id := by
  intro s hs t ht hst
  have hu : u ∈ as ++ [u] := List.mem_append_right _ (List.mem_singleton.2 rfl)
  have hv : v ∈ bs ++ [v] := List.mem_append_right _ (List.mem_singleton.2 rfl)
  have hule : Blocks.numFromId β u.id ≤ Blocks.numFromId β s.id := by
    rw [← u.num_eq, ← s.num_eq]
    have hlt := ha.root_lt s hs
    have hsucc := u.numFromId_previousId
    omega
  have hvle : Blocks.numFromId β v.id ≤ Blocks.numFromId β t.id := by
    rw [← v.num_eq, ← t.num_eq]
    have hlt := hb.root_lt t ht
    have hsucc := v.numFromId_previousId
    omega
  have hsu := Descent.reach_of_height_le f.parent_rightUnique f.numFromId_of_parent
    (ancestor_of_branch ha ha' hs).1 (ancestor_of_branch ha ha' hu).1 hule
  have htv := Descent.reach_of_height_le f.parent_rightUnique f.numFromId_of_parent
    (ancestor_of_branch hb hb' ht).1 (ancestor_of_branch hb hb' hv).1 hvle
  rw [← hst] at htv
  exact hne (Descent.eq_of_height_eq f.parent_rightUnique f.numFromId_of_parent hsu htv
    (by rw [← u.num_eq, ← v.num_eq, hnum]))

/-- What two branches that part say about their root: it is the most recent common ancestor. -/
theorem ancestor_of_common {i j c : ι} {as bs : List (ForkItem β)} {u v : ForkItem β} (ha : Branch i (as ++ [u]))
    (hb : Branch j (bs ++ [v])) (ha' : ∀ it ∈ as ++ [u], it ∈ f.alive) (hnum : u.num = v.num)
    (hdisjoint : ∀ s ∈ as ++ [u], ∀ t ∈ bs ++ [v], s.id ≠ t.id) (hi : f.Ancestor c i) (hj : f.Ancestor c j) :
    f.Ancestor c u.previousId := by
  have hu : u ∈ as ++ [u] := List.mem_append_right _ (List.mem_singleton.2 rfl)
  by_cases hlow : Blocks.numFromId β c ≤ Blocks.numFromId β u.previousId
  · exact Descent.reach_of_height_le f.parent_rightUnique f.numFromId_of_parent (ancestor_of_branch ha ha' hu).2 hi hlow
  -- a common ancestor above the root would be in both branches
  · have hsucc := u.numFromId_previousId
    obtain ⟨s, hs, hsc⟩ := mem_branch_of_ancestor ha hi (by omega)
    obtain ⟨t, ht, htc⟩ := mem_branch_of_ancestor hb hj (by omega)
    exact absurd (hsc.trans htc.symm) (hdisjoint s hs t ht)

/-- A block that is an ancestor of another one is met when that one goes down to its height. -/
theorem id_eq_of_ancestor {i j : ι} {as : List (ForkItem β)} {a : ForkItem β} (h : Branch i (as ++ [a]))
    (halive : ∀ it ∈ as ++ [a], it ∈ f.alive) (hj : f.Ancestor j i) (hnum : a.num = Blocks.numFromId β j) : a.id = j :=
  Descent.eq_of_height_eq f.parent_rightUnique f.numFromId_of_parent
    (ancestor_of_branch h halive (List.mem_append_right _ (List.mem_singleton.2 rfl))).1 hj (a.num_eq.symm.trans hnum)

/-- **The fork point is found.** Let the links of two blocks lead down to blocks with the same previous block. Then two
branches are returned that start with the two blocks and end with blocks with the same previous block.

* If neither block is an ancestor of the other, the branches have no block in common, and the previous block of the
  last ones, which differ, is the most recent common ancestor.
* If one of them is, both branches end with it. -/
theorem fetchBranchFrom_finds_fork_point [DecidableEq ι] (hf : f.Tied) {first second : ι} {a b x y : ForkItem β}
    (ha : f.fetchBlock first = some a) (hb : f.fetchBlock second = some b) (hax : f.Leads a x) (hby : f.Leads b y)
    (hroot : x.previousId = y.previousId) :
    ∃ as bs u v, f.fetchBranchFrom first second = some (as ++ [u], bs ++ [v]) ∧
      Branch first (as ++ [u]) ∧ Branch second (bs ++ [v]) ∧ u.previousId = v.previousId ∧
      (¬f.Ancestor first second → ¬f.Ancestor second first →
        (∀ s ∈ as ++ [u], ∀ t ∈ bs ++ [v], s.id ≠ t.id) ∧ u.id ≠ v.id ∧
        f.Ancestor u.previousId first ∧ f.Ancestor u.previousId second ∧
        ∀ c, f.Ancestor c first → f.Ancestor c second → f.Ancestor c u.previousId) ∧
      (f.Ancestor first second → u.id = first ∧ v.id = first) ∧
      (f.Ancestor second first → u.id = second ∧ v.id = second) := by
  obtain ⟨as, a', bs, b', as', bs', has, hbs, hanum, hbnum, hboth, hfetch⟩ :=
    hf.fetchBranchFrom_of_leads ha hb hax hby hroot
  obtain ⟨hamem, rfl⟩ := mem_of_fetchBlock ha
  obtain ⟨hbmem, rfl⟩ := mem_of_fetchBlock hb
  obtain ⟨hA, hA'⟩ := descend_branch hf (mem_alive.2 (.inl hamem)) has
  obtain ⟨hB, hB'⟩ := descend_branch hf (mem_alive.2 (.inl hbmem)) hbs
  have ha'mem := hA' a' (List.mem_append_right _ (List.mem_singleton.2 rfl))
  have hb'mem := hB' b' (List.mem_append_right _ (List.mem_singleton.2 rfl))
  -- the block that is not higher does not move
  have hstayA (hle : a.num ≤ b.num) : a' = a := by
    rw [descend_eq_self hle] at has
    exact (Prod.mk.inj (Option.some.inj has)).2.symm
  have hstayB (hle : b.num ≤ a.num) : b' = b := by
    rw [descend_eq_self (by omega)] at hbs
    exact (Prod.mk.inj (Option.some.inj hbs)).2.symm
  have hnumA (h : f.Ancestor a.id b.id) : a.num ≤ b.num := by
    rw [a.num_eq, b.num_eq]
    exact Descent.height_le f.numFromId_of_parent h
  have hnumB (h : f.Ancestor b.id a.id) : b.num ≤ a.num := by
    rw [a.num_eq, b.num_eq]
    exact Descent.height_le f.numFromId_of_parent h
  by_cases hmeet : a'.id = b'.id
  · have hprev : a'.previousId = b'.previousId := congrArg Blocks.previous (Blocks.id_inj hmeet)
    rw [descendBoth, if_neg (not_not.2 hprev)] at hboth
    obtain ⟨rfl, rfl⟩ := Prod.mk.inj (Option.some.inj hboth)
    refine ⟨as, bs, a', b', hfetch, hA, hB, hprev, fun hfirst hsecond ↦ ?_, fun h ↦ ?_, fun h ↦ ?_⟩
    · rcases le_total a.num b.num with hle | hle
      · have hanc := (ancestor_of_branch hB hB' (List.mem_append_right _ (List.mem_singleton.2 rfl))).1
        rw [← hmeet, hstayA hle] at hanc
        exact absurd hanc hfirst
      · have hanc := (ancestor_of_branch hA hA' (List.mem_append_right _ (List.mem_singleton.2 rfl))).1
        rw [hmeet, hstayB hle] at hanc
        exact absurd hanc hsecond
    · rw [← hmeet, hstayA (hnumA h)]
      exact ⟨rfl, rfl⟩
    · rw [hmeet, hstayB (hnumB h)]
      exact ⟨rfl, rfl⟩
  · obtain ⟨as₀, bs₀, u, v, rfl, rfl, hne⟩ := descendBoth_apart hf ha'mem hb'mem hmeet hboth
    obtain ⟨⟨hfirst, hfirst'⟩, ⟨hsecond, hsecond'⟩, as₁, bs₁, u', v', hu, hv, hprev⟩ := hf.fetchBranchFrom_branch hfetch
    rw [← List.append_assoc] at hu hv hfirst hfirst' hsecond hsecond' hfetch
    rw [← List.append_assoc] at hfetch
    obtain ⟨-, hu'⟩ := List.append_inj' hu rfl
    obtain ⟨-, hv'⟩ := List.append_inj' hv rfl
    obtain rfl := List.singleton_inj.1 hu'
    obtain rfl := List.singleton_inj.1 hv'
    have hnum : u.num = v.num := by rw [u.numFromId_previousId, v.numFromId_previousId, hprev]
    have humem : u ∈ as ++ as₀ ++ [u] := List.mem_append_right _ (List.mem_singleton.2 rfl)
    have hvmem : v ∈ bs ++ bs₀ ++ [v] := List.mem_append_right _ (List.mem_singleton.2 rfl)
    refine ⟨as ++ as₀, bs ++ bs₀, u, v, hfetch, hfirst, hsecond, hprev, fun _ _ ↦ ?_, fun h ↦ ?_, fun h ↦ ?_⟩
    · have hdisjoint := Branch.disjoint hfirst hsecond hfirst' hsecond' hnum hne
      have hroot₁ := (ancestor_of_branch hfirst hfirst' humem).2
      have hroot₂ := (ancestor_of_branch hsecond hsecond' hvmem).2
      rw [← hprev] at hroot₂
      exact ⟨hdisjoint, hne, hroot₁, hroot₂, fun c hi hj ↦
        ancestor_of_common hfirst hsecond hfirst' hnum hdisjoint hi hj⟩
    · have hle := hnumA h
      have hid := id_eq_of_ancestor hB hB' h (by rw [← a.num_eq]; omega)
      exact absurd (by rw [hid, hstayA hle]) hmeet
    · have hle := hnumB h
      have hid := id_eq_of_ancestor hA hA' h (by rw [← b.num_eq]; omega)
      exact absurd (by rw [hid, hstayB hle]) hmeet

open WitnessChain in
/-- Over a first block there is a branch of two blocks and one of one block. -/
def twoBranches : ForkDatabase Block where
  index := [⟨3, ⟨{ tag := 4 }, [{ tag := 2 }, { tag := 1 }]⟩, some 1⟩, ⟨2, ⟨{ tag := 3 }, [{ tag := 1 }]⟩, some 0⟩,
    ⟨1, ⟨{ tag := 2 }, [{ tag := 1 }]⟩, some 0⟩, ⟨0, ⟨{ tag := 1 }, []⟩, none⟩]
  head := some ⟨3, ⟨{ tag := 4 }, [{ tag := 2 }, { tag := 1 }]⟩, some 1⟩
  nextRef := 4

theorem tied_twoBranches : twoBranches.Tied where
  ref_lt := by decide
  prev_lt := by
    have h : ∀ it ∈ twoBranches.alive, it.prev.all (· < 4) = true := by decide
    intro it hit r hr
    have hlt := h it hit
    rw [hr] at hlt
    exact of_decide_eq_true hlt
  ref_inj := by decide
  prev_id := by decide

open WitnessChain in
/-- The two branches part above the first block. -/
theorem fetchBranchFrom_finds_fork_point_twoBranches :
    ∃ as bs u v, twoBranches.fetchBranchFrom [{ tag := 4 }, { tag := 2 }, { tag := 1 }] [{ tag := 3 }, { tag := 1 }] =
        some (as ++ [u], bs ++ [v]) ∧ u.previousId = v.previousId := by
  obtain ⟨as, bs, u, v, hfetch, -, -, hprev, -⟩ := fetchBranchFrom_finds_fork_point tied_twoBranches
    (show twoBranches.fetchBlock [{ tag := 4 }, { tag := 2 }, { tag := 1 }] = some _ from rfl)
    (show twoBranches.fetchBlock [{ tag := 3 }, { tag := 1 }] = some _ from rfl)
    (.single (show twoBranches.previousOf ⟨3, ⟨{ tag := 4 }, [{ tag := 2 }, { tag := 1 }]⟩, some 1⟩ =
      some ⟨1, ⟨{ tag := 2 }, [{ tag := 1 }]⟩, some 0⟩ from rfl)) .refl rfl
  exact ⟨as, bs, u, v, hfetch, hprev⟩

end ForkDatabase

end Playchain
