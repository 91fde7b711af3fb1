import Playchain.Db.DirectIndex
import Playchain.Lib.Chunks
import Playchain.Lib.Control

/-!
# The direct index agrees with the primary index

`Mirrors d f` says that the direct index `d` holds the pointers `f`: every place of its chunks, and its chunks reach
just as far as `next` needs. Where the source grows the chunks, whether for the next id or for a gap within a chunk or over
a boundary, exactly one chunk is added (`growTo_eq`): a gap is shorter than a chunk. Every insertion, removal and
modification therefore succeeds and carries `Mirrors` over to the pointers of the primary index.
-/

namespace Playchain

namespace DirectIndex

variable {Ptr : Type*} {b : ℕ}

/-! ### Places -/

/-- The places of the chunks hold the pointers. -/
def Holds (b : ℕ) (content : List (List (Option Ptr))) (f : ℕ → Option Ptr) : Prop :=
  Chunks.Uniform (2 ^ b) content ∧ ∀ i < 2 ^ b * content.length, Chunks.get? (2 ^ b) content i = some (f i)

variable {content : List (List (Option Ptr))} {f : ℕ → Option Ptr} {i : ℕ}

theorem slot_eq (h : Holds b content f) (hi : i < 2 ^ b * content.length) : slot b content i = .ok (f i) := by
  obtain ⟨chunk, p, hchunk, hp, -⟩ := Chunks.exists_get? (Nat.two_pow_pos b) h.1 hi
  have hget := h.2 i hi
  unfold Chunks.get? at hget
  rw [hchunk] at hget
  unfold slot mask
  rw [Nat.shiftRight_eq_div_pow, Nat.and_two_pow_sub_one_eq_mod, hchunk]
  dsimp only at hget ⊢
  rw [hget]

theorem setSlot_eq (h : Holds b content f) (hi : i < 2 ^ b * content.length) (p : Option Ptr) :
    setSlot b content i p = .ok (Chunks.set (2 ^ b) content i p) := by
  obtain ⟨chunk, q, hchunk, -, hlen⟩ := Chunks.exists_get? (Nat.two_pow_pos b) h.1 hi
  have hplace : i % 2 ^ b < chunk.length := by
    rw [hlen]
    exact Nat.mod_lt i (Nat.two_pow_pos b)
  unfold setSlot mask
  rw [Nat.shiftRight_eq_div_pow, Nat.and_two_pow_sub_one_eq_mod, hchunk]
  dsimp only
  rw [if_pos hplace, Chunks.set, List.modify_eq_set_getElem?, hchunk]
  rfl

theorem holds_set (h : Holds b content f) (hi : i < 2 ^ b * content.length) (p : Option Ptr) :
    Holds b (Chunks.set (2 ^ b) content i p) (Function.update f i p) := by
  refine ⟨Chunks.uniform_set h.1 i p, fun j hj ↦ ?_⟩
  rw [Chunks.length_set] at hj
  by_cases hij : i = j
  · rw [← hij, Chunks.get?_set_self (Nat.two_pow_pos b) h.1 hi, Function.update_self]
  · rw [Chunks.get?_set_of_ne hij, Function.update_of_ne (Ne.symm hij)]
    exact h.2 j hj

/-- **Growing** for a place just beyond the chunks adds one chunk. -/
theorem growTo_eq (hi : i / 2 ^ b = content.length) :
    growTo b content i = .ok (content ++ [List.replicate (2 ^ b) none]) := by
  unfold growTo resize
  rw [Nat.shiftRight_eq_div_pow, hi]
  simp

theorem holds_append (h : Holds b content f) (hf : ∀ i, 2 ^ b * content.length ≤ i → f i = none) :
    Holds b (content ++ [List.replicate (2 ^ b) none]) f := by
  refine ⟨Chunks.uniform_append h.1 none, fun i hi ↦ ?_⟩
  by_cases hold : i < 2 ^ b * content.length
  · rw [Chunks.get?_append hold]
    exact h.2 i hold
  · rw [hf i (by omega)]
    rw [List.length_append, List.length_singleton, Nat.mul_add, Nat.mul_one] at hi
    have hchunk : i / 2 ^ b = content.length :=
      Nat.div_eq_of_lt_le (by rw [Nat.mul_comm]; omega) (by rw [Nat.mul_comm, Nat.mul_add, Nat.mul_one]; omega)
    unfold Chunks.get?
    rw [hchunk, List.getElem?_append_right le_rfl, Nat.sub_self]
    exact List.getElem?_replicate_of_lt (Nat.mod_lt i (Nat.two_pow_pos b))

/-! ### The operations -/

/-- The direct index holds the pointers `f`, and its chunks end where `next` needs them to. -/
structure Mirrors (b : ℕ) (d : DirectIndex Ptr) (f : ℕ → Option Ptr) : Prop where
  holds : Holds b d.content f
  next_le : d.next ≤ 2 ^ b * d.content.length
  lt_next : 2 ^ b * d.content.length < d.next + 2 ^ b
  beyond : ∀ i, d.next ≤ i → f i = none
  idle : d.idsBeingModified = []

variable {d : DirectIndex Ptr}

theorem mirrors_empty (b : ℕ) : Mirrors b (empty : DirectIndex Ptr) fun _ ↦ none where
  holds := by
    refine ⟨?_, ?_⟩
    · intro chunk hchunk
      cases hchunk
    · intro i hi
      cases hi
  next_le := Nat.zero_le _
  lt_next := by simp [empty]
  beyond _ _ := rfl
  idle := rfl

theorem find_eq (h : Mirrors b d f) (i : ℕ) : d.find b i = .ok (f i) := by
  unfold find
  by_cases hi : d.next ≤ i
  · rw [if_pos hi, h.beyond i hi]
  · rw [if_neg hi]
    exact slot_eq h.holds ((not_le.1 hi).trans_le h.next_le)

/-- Clearing a gap where there is nothing changes nothing. -/
theorem clearHole_eq (n : ℕ) (d : DirectIndex Ptr) (h : Holds b d.content f) (hn : d.next + n ≤ 2 ^ b * d.content.length)
    (hf : ∀ i, d.next ≤ i → f i = none) :
    ∃ d', clearHole b n d = .ok d' ∧ Holds b d'.content f ∧ d'.next = d.next + n ∧
      d'.content.length = d.content.length ∧ d'.idsBeingModified = d.idsBeingModified := by
  induction n generalizing d with
  | zero => exact ⟨d, rfl, h, rfl, rfl, rfl⟩
  | succ n ih =>
    have hplace : d.next < 2 ^ b * d.content.length := by omega
    have hsame : Function.update f d.next none = f := by
      rw [← hf d.next le_rfl]
      exact Function.update_eq_self d.next f
    have hset := holds_set h hplace none
    rw [hsame] at hset
    obtain ⟨d', hd', hholds, hnext, hlen, hids⟩ :=
      ih { d with content := Chunks.set (2 ^ b) d.content d.next none, next := d.next + 1 } hset
        (by rw [Chunks.length_set]; dsimp only; omega) (fun i hi ↦ hf i (Nat.le_of_succ_le hi))
    refine ⟨d', ?_, hholds, ?_, ?_, hids⟩
    · rw [clearHole, setSlot_eq h hplace, Except.ok_bind, hd']
    · rw [hnext]
      dsimp only
      omega
    · rw [hlen, Chunks.length_set]

/-- When `next` is at a boundary, the chunks end there. -/
theorem next_eq_of_mod_eq_zero (h : Mirrors b d f) (hmod : d.next % 2 ^ b = 0) : d.next = 2 ^ b * d.content.length := by
  obtain ⟨q, hq⟩ := Nat.dvd_of_mod_eq_zero hmod
  have hle := h.next_le
  have hlt := h.lt_next
  rw [hq] at hle hlt
  have h₁ : q ≤ d.content.length := Nat.le_of_mul_le_mul_left hle (Nat.two_pow_pos b)
  have h₂ : d.content.length < q + 1 := by
    refine Nat.lt_of_mul_lt_mul_left (a := 2 ^ b) ?_
    rw [Nat.mul_add, Nat.mul_one]
    exact hlt
  rw [hq, show q = d.content.length by omega]

theorem div_eq_length {n : ℕ} (hlo : 2 ^ b * n ≤ i) (hhi : i < 2 ^ b * n + 2 ^ b) : i / 2 ^ b = n :=
  Nat.div_eq_of_lt_le (by rw [Nat.mul_comm]; exact hlo) (by rw [Nat.mul_comm, Nat.mul_add, Nat.mul_one]; exact hhi)

/-- A gap that calls for another chunk ends in the first one that is missing. -/
theorem length_le_of_other_chunk (h : Mirrors b d f) (hi : d.next ≤ i)
    (hgrow : d.next % 2 ^ b = 0 ∨ d.next / 2 ^ b ≠ i / 2 ^ b) : 2 ^ b * d.content.length ≤ i := by
  rcases hgrow with hmod | hother
  · rw [← next_eq_of_mod_eq_zero h hmod]
    exact hi
  · by_contra hlt
    have hle := h.next_le
    have hlt' := h.lt_next
    obtain ⟨n, hn⟩ : ∃ n, d.content.length = n + 1 := by
      refine Nat.exists_eq_succ_of_ne_zero fun hzero ↦ ?_
      rw [hzero] at hlt
      omega
    rw [hn, Nat.mul_add, Nat.mul_one] at hlt hle hlt'
    have hchunk : d.next / 2 ^ b = n := div_eq_length (by omega) (by omega)
    have hchunk' : i / 2 ^ b = n := div_eq_length (by omega) (by omega)
    exact hother (hchunk.trans hchunk'.symm)

/-- A gap that does not ends in the chunks there are. -/
theorem lt_length_of_same_chunk (h : Mirrors b d f) (hmod : d.next % 2 ^ b ≠ 0) (hsame : d.next / 2 ^ b = i / 2 ^ b) :
    i < 2 ^ b * d.content.length := by
  have hne : d.next ≠ 2 ^ b * d.content.length := fun heq ↦ hmod (by rw [heq, Nat.mul_mod_right])
  have hchunk : d.next / 2 ^ b < d.content.length := Nat.div_lt_of_lt_mul (lt_of_le_of_ne h.next_le hne)
  rw [hsame] at hchunk
  rw [Nat.mul_comm]
  exact Nat.lt_mul_of_div_lt hchunk (Nat.two_pow_pos b)

/-- **There is always a place** for an instance that leaves a gap of at most 100, and making it changes nothing. -/
theorem makeRoom_eq (hb : maxHole < 2 ^ b) (h : Mirrors b d f) (hfree : f i = none) (hhole : i ≤ d.next + maxHole) :
    ∃ d', makeRoom b d i = .ok d' ∧ Mirrors b d' f ∧ i < d'.next := by
  have hmask (n : ℕ) : n &&& mask b = n % 2 ^ b := Nat.and_two_pow_sub_one_eq_mod n b
  have hbeyond : ∀ i, 2 ^ b * d.content.length ≤ i → f i = none := fun i hi ↦ h.beyond i (h.next_le.trans hi)
  have hle := h.next_le
  have hlt := h.lt_next
  unfold makeRoom
  rw [hmask, Nat.shiftRight_eq_div_pow, Nat.shiftRight_eq_div_pow]
  by_cases hnext : i = d.next
  · rw [if_pos hnext]
    by_cases hmod : d.next % 2 ^ b = 0
    · have hend := next_eq_of_mod_eq_zero h hmod
      rw [if_pos hmod, growTo_eq (div_eq_length hend.ge (by omega))]
      refine ⟨_, rfl, ⟨holds_append h.holds hbeyond, ?_, ?_, fun j hj ↦ h.beyond j (Nat.le_of_succ_le hj), h.idle⟩, ?_⟩
      · rw [List.length_append, List.length_singleton, Nat.mul_add]
        dsimp only
        omega
      · rw [List.length_append, List.length_singleton, Nat.mul_add]
        dsimp only
        omega
      · dsimp only
        omega
    · rw [if_neg hmod]
      have hinside : d.next ≠ 2 ^ b * d.content.length := fun heq ↦ hmod (by rw [heq, Nat.mul_mod_right])
      refine ⟨_, rfl, ⟨h.holds, ?_, ?_, fun j hj ↦ h.beyond j (Nat.le_of_succ_le hj), h.idle⟩, ?_⟩ <;> dsimp only <;> omega
  · rw [if_neg hnext]
    by_cases hless : i < d.next
    · rw [if_pos hless, slot_eq h.holds (by omega), hfree]
      exact ⟨d, rfl, h, hless⟩
    · rw [if_neg hless, if_neg (by omega)]
      have hrounds : d.next + (i + 1 - d.next) = i + 1 := by omega
      by_cases hgrow : d.next % 2 ^ b = 0 ∨ d.next / 2 ^ b ≠ i / 2 ^ b
      · have hfirst := length_le_of_other_chunk h (by omega) hgrow
        rw [if_pos hgrow, growTo_eq (div_eq_length hfirst (by omega)), Except.ok_bind]
        obtain ⟨d', hd', hholds, hnext', hlen, hids⟩ :=
          clearHole_eq (i + 1 - d.next) { d with content := d.content ++ [List.replicate (2 ^ b) none] }
            (holds_append h.holds hbeyond)
            (by rw [List.length_append, List.length_singleton, Nat.mul_add]; dsimp only; omega) h.beyond
        dsimp only at hnext' hlen
        rw [hrounds] at hnext'
        rw [List.length_append, List.length_singleton] at hlen
        refine ⟨d', hd', ⟨hholds, ?_, ?_, fun j hj ↦ h.beyond j (by omega), hids.trans h.idle⟩, by omega⟩
        · rw [hlen, Nat.mul_add]
          omega
        · rw [hlen, Nat.mul_add]
          omega
      · rw [if_neg hgrow]
        obtain ⟨hmod, hsame⟩ := not_or.1 hgrow
        have hinside : i < 2 ^ b * d.content.length := lt_length_of_same_chunk h hmod (not_not.1 hsame)
        obtain ⟨d', hd', hholds, hnext', hlen, hids⟩ :=
          clearHole_eq (i + 1 - d.next) d h.holds (by rw [hrounds]; exact hinside) h.beyond
        rw [hrounds] at hnext'
        refine ⟨d', hd', ⟨hholds, ?_, ?_, fun j hj ↦ h.beyond j (by omega), hids.trans h.idle⟩, by omega⟩
        · rw [hlen]
          omega
        · rw [hlen]
          omega

/-- A pointer that is written at a place below `next`. -/
theorem mirrors_set (h : Mirrors b d f) (hi : i < d.next) (p : Option Ptr) :
    Mirrors b { d with content := Chunks.set (2 ^ b) d.content i p } (Function.update f i p) where
  holds := holds_set h.holds (hi.trans_le h.next_le) p
  next_le := by
    rw [Chunks.length_set]
    exact h.next_le
  lt_next := by
    rw [Chunks.length_set]
    exact h.lt_next
  beyond j hj := by
    rw [Function.update_of_ne (Nat.ne_of_gt (hi.trans_le hj))]
    exact h.beyond j hj
  idle := h.idle

theorem objectInserted_eq (hb : maxHole < 2 ^ b) (h : Mirrors b d f) (hfree : f i = none) (hhole : i ≤ d.next + maxHole)
    (p : Ptr) : ∃ d', d.objectInserted b i p = .ok d' ∧ Mirrors b d' (Function.update f i (some p)) := by
  obtain ⟨d', hd', hmirrors, hlt⟩ := makeRoom_eq hb h hfree hhole
  refine ⟨_, ?_, mirrors_set hmirrors hlt (some p)⟩
  unfold objectInserted
  rw [hd', Except.ok_bind, setSlot_eq hmirrors.holds (hlt.trans_le hmirrors.next_le), Except.ok_bind]
  rfl

theorem objectRemoved_eq {p : Ptr} (h : Mirrors b d f) (hi : f i = some p) :
    ∃ d', d.objectRemoved b i = .ok d' ∧ Mirrors b d' (Function.update f i none) := by
  have hlt : i < d.next := by
    by_contra hge
    rw [h.beyond i (not_lt.1 hge)] at hi
    cases hi
  have hplace : i < 2 ^ b * d.content.length := hlt.trans_le h.next_le
  refine ⟨_, ?_, mirrors_set h hlt none⟩
  unfold objectRemoved
  rw [if_neg (not_not.2 hlt), slot_eq h.holds hplace, hi]
  simp only [Except.ok_bind, Option.isNone_some, Bool.false_eq_true, if_false]
  rw [setSlot_eq h.holds hplace, Except.ok_bind]
  rfl

end DirectIndex

/-! ### The primary index -/

namespace PrimaryIndex

variable {Ptr α : Type*} (b : ℕ)

/-- The address of the object with an instance. -/
def address (s : PrimaryIndex Ptr α) (i : ℕ) : Option Ptr := (s.objects.find? i).map Prod.fst

/-- The instance an operation inserts, if any, leaves a gap of at most 100 to what the direct index has seen. -/
def LeavesSmallHole (s : PrimaryIndex Ptr α) : IndexOp Ptr α → Prop
  | .create _ _ => s.nextId ≤ s.direct.next + DirectIndex.maxHole
  | .insert i _ _ => i ≤ s.direct.next + DirectIndex.maxHole
  | _ => True

/-- The primary index itself cannot do this: the id is taken, or there is no such object. -/
def Refuses (s : PrimaryIndex Ptr α) : IndexOp Ptr α → Prop
  | .create _ _ => s.objects.contains s.nextId = true
  | .insert i _ _ => s.objects.contains i = true
  | .remove i => s.objects.contains i = false
  | .modify i _ => s.objects.contains i = false
  | .setNextId _ => False

/-- The states that are reached by any sequence of operations with small gaps. -/
inductive Reachable : PrimaryIndex Ptr α → Prop
  | empty : Reachable empty
  | step {s s' : PrimaryIndex Ptr α} {op : IndexOp Ptr α} (h : Reachable s) (hhole : s.LeavesSmallHole op)
      (happly : s.apply b op = .ok s') : Reachable s'

variable {b : ℕ} {s : PrimaryIndex Ptr α}

theorem address_eq_none_iff {i : ℕ} : s.address i = none ↔ s.objects.contains i = false := by
  unfold address
  rw [Option.map_eq_none_iff, FlatMap.contains_eq_false_iff]

theorem add_eq (hb : DirectIndex.maxHole < 2 ^ b) (hs : s.direct.Mirrors b s.address) {i : ℕ} (p : Ptr) (a : α)
    (hhole : i ≤ s.direct.next + DirectIndex.maxHole) (hfree : s.objects.contains i = false) :
    ∃ s', s.add b i p a = .ok s' ∧ s'.direct.Mirrors b s'.address := by
  obtain ⟨d, hd, hmirrors⟩ := DirectIndex.objectInserted_eq hb hs (address_eq_none_iff.2 hfree) hhole p
  refine ⟨{ s with objects := s.objects.insert i (p, a), direct := d }, ?_, ?_⟩
  · unfold add
    rw [if_neg (by rw [hfree]; exact Bool.false_ne_true), hd]
  · have haddress : Function.update s.address i (some p) =
        address { s with objects := s.objects.insert i (p, a), direct := d } := by
      funext j
      unfold address
      rw [FlatMap.find?_insert, Function.update_apply]
      by_cases hj : j = i
      · rw [if_pos hj, if_pos hj]
        rfl
      · rw [if_neg hj, if_neg hj]
    rw [← haddress]
    exact hmirrors

/-- **One operation.** It is refused by the primary index, or it succeeds and both indices agree afterwards. -/
theorem apply_cases (hb : DirectIndex.maxHole < 2 ^ b) (hs : s.direct.Mirrors b s.address) (op : IndexOp Ptr α)
    (hhole : s.LeavesSmallHole op) :
    (∃ s', s.apply b op = .ok s' ∧ s'.direct.Mirrors b s'.address) ∨ s.Refuses op ∧ s.apply b op = .error .refused := by
  cases op with
  | create p a =>
    by_cases hfree : s.objects.contains s.nextId = false
    · obtain ⟨s', hadd, hmirrors⟩ := add_eq hb hs p a hhole hfree
      refine Or.inl ⟨{ s' with nextId := s.nextId + 1 }, ?_, hmirrors⟩
      rw [apply, hadd]
      rfl
    · have htaken : s.objects.contains s.nextId = true := Bool.not_eq_false _ ▸ hfree
      refine Or.inr ⟨htaken, ?_⟩
      rw [apply, add, if_pos htaken]
      rfl
  | insert i p a =>
    by_cases hfree : s.objects.contains i = false
    · exact Or.inl (add_eq hb hs p a hhole hfree)
    · have htaken : s.objects.contains i = true := Bool.not_eq_false _ ▸ hfree
      exact Or.inr ⟨htaken, if_pos htaken⟩
  | remove i =>
    by_cases hhere : s.objects.contains i = true
    · obtain ⟨v, hv⟩ := FlatMap.mem_keys.1 (FlatMap.contains_iff.1 hhere)
      have hv' : s.address i = some v.1 := by rw [address, hv, Option.map_some]
      obtain ⟨d, hd, hmirrors⟩ := DirectIndex.objectRemoved_eq hs hv'
      refine Or.inl ⟨{ s with objects := s.objects.erase i, direct := d }, ?_, ?_⟩
      · rw [apply, if_pos hhere, hd]
      · have haddress : Function.update s.address i none =
            address { s with objects := s.objects.erase i, direct := d } := by
          funext j
          unfold address
          rw [FlatMap.find?_erase, Function.update_apply]
          by_cases hj : j = i
          · rw [if_pos hj, if_pos hj]
            rfl
          · rw [if_neg hj, if_neg hj]
        rw [← haddress]
        exact hmirrors
    · have hmissing : s.objects.contains i = false := Bool.not_eq_true _ ▸ hhere
      exact Or.inr ⟨hmissing, if_neg hhere⟩
  | modify i a =>
    rcases hfind : s.objects.find? i with _ | v
    · refine Or.inr ⟨FlatMap.contains_eq_false_iff.2 hfind, ?_⟩
      rw [apply, hfind]
    -- the pointer stays as it is, and the stack is popped again
    · have hmodified : (s.direct.aboutToModify i).objectModified i = .ok s.direct := if_pos rfl
      refine Or.inl ⟨{ s with objects := s.objects.insert i (v.1, a) }, ?_, ?_⟩
      · rw [apply, hfind]
        dsimp only
        rw [hmodified]
      · have haddress : s.address = address { s with objects := s.objects.insert i (v.1, a) } := by
          funext j
          unfold address
          rw [FlatMap.find?_insert]
          by_cases hj : j = i
          · rw [if_pos hj, hj, hfind]
            rfl
          · rw [if_neg hj]
        rw [← haddress]
        exact hs
  | setNextId n => exact Or.inl ⟨{ s with nextId := n }, rfl, hs⟩

theorem Reachable.mirrors (hb : DirectIndex.maxHole < 2 ^ b) (h : Reachable b s) : s.direct.Mirrors b s.address := by
  induction h with
  | empty => exact DirectIndex.mirrors_empty b
  | step _ hhole happly ih =>
    rcases apply_cases hb ih _ hhole with ⟨s', hs', hmirrors⟩ | ⟨-, hrefused⟩
    · obtain rfl := Except.ok.inj (happly.symm.trans hs')
      exact hmirrors
    · cases happly.symm.trans hrefused

/-- **The direct index agrees with the primary index.** In every state that a sequence of operations with small gaps
reaches, no such operation fails or leaves the vectors, unless the primary index itself refuses it; and the direct index
finds the object of the primary index, or none if there is none. -/
theorem direct_index_agrees (hb : DirectIndex.maxHole < 2 ^ b) (h : Reachable b s) :
    (∀ op, s.LeavesSmallHole op → (∃ s', s.apply b op = .ok s') ∨ s.Refuses op ∧ s.apply b op = .error .refused) ∧
      ∀ i, s.direct.find b i = .ok (s.address i) := by
  have hmirrors := h.mirrors hb
  refine ⟨fun op hhole ↦ ?_, fun i ↦ DirectIndex.find_eq hmirrors i⟩
  rcases apply_cases hb hmirrors op hhole with ⟨s', hs', -⟩ | hrefused
  · exact Or.inl ⟨s', hs'⟩
  · exact Or.inr hrefused

instance (s : PrimaryIndex Ptr α) (op : IndexOp Ptr α) : Decidable (s.LeavesSmallHole op) :=
  match op with
  | .create _ _ => inferInstanceAs (Decidable (_ ≤ _))
  | .insert _ _ _ => inferInstanceAs (Decidable (_ ≤ _))
  | .remove _ => inferInstanceAs (Decidable True)
  | .modify _ _ => inferInstanceAs (Decidable True)
  | .setNextId _ => inferInstanceAs (Decidable True)

/-- Every insertion of the sequence leaves a small gap. -/
def leaveSmallHoles (b : ℕ) (s : PrimaryIndex Ptr α) : List (IndexOp Ptr α) → Bool
  | [] => true
  | op :: ops =>
    decide (s.LeavesSmallHole op) &&
      match s.apply b op with
      | .ok s' => leaveSmallHoles b s' ops
      | .error _ => true

theorem Reachable.applyAll {s' : PrimaryIndex Ptr α} (h : Reachable b s) {ops : List (IndexOp Ptr α)}
    (hholes : s.leaveSmallHoles b ops = true) (happly : s.applyAll b ops = .ok s') : Reachable b s' := by
  induction ops generalizing s with
  | nil =>
    obtain rfl := Except.ok.inj happly
    exact h
  | cons op ops ih =>
    unfold PrimaryIndex.applyAll at happly
    rw [List.foldlM_cons] at happly
    obtain ⟨t, hop, hrest⟩ := Except.bind_eq_ok.1 happly
    rw [leaveSmallHoles, hop, Bool.and_eq_true] at hholes
    exact ih (.step h (of_decide_eq_true hholes.1) hop) hholes.2 hrest

/-- An object is created; in a session another one is created and the first removed; the session is undone, which brings
the first back at another address; and the second id is used again. -/
def recreateOps : List (IndexOp ℕ Unit) :=
  [.create 10 (), .create 11 (), .remove 0] ++
    undoOps { oldValues := [], newIds := [1], oldNextId := some 1, removed := [(0, 20, ())] } ++ [.create 21 ()]

/-- All of this succeeds, and both are found where they are now. -/
theorem direct_index_agrees_recreate :
    ∃ s, empty.applyAll 7 recreateOps = .ok s ∧ s.address 0 = some 20 ∧ s.address 1 = some 21 ∧
      ∀ i, s.direct.find 7 i = .ok (s.address i) := by
  have hrun : (match empty.applyAll 7 recreateOps with
      | .ok s => decide (s.address 0 = some 20 ∧ s.address 1 = some 21)
      | .error _ => false) = true := by decide +kernel
  rcases happly : empty.applyAll 7 recreateOps with e | s
  · rw [happly] at hrun
    cases hrun
  · rw [happly] at hrun
    have hreachable : Reachable 7 s := Reachable.empty.applyAll (by decide +kernel) happly
    obtain ⟨h₀, h₁⟩ := of_decide_eq_true hrun
    exact ⟨s, rfl, h₀, h₁, (direct_index_agrees (by decide) hreachable).2⟩

end PrimaryIndex

end Playchain
