import Playchain.Plugins.AccountHistory
import Playchain.Spec.Undo

/-!
# The lists of an account history

The records of an account form a list from the most recent one down (`ListOk`); a record is added at the
front, and the last one is dropped. `Inv` says so for all accounts, together with what is known about the
ids of operations and the references to them, and the lemmas `Inv.append`, `Inv.drop`, `Inv.skip` and
`Inv.create` say what each change of the objects does to it. The changes themselves go through the undo
database, which keeps a record of them (`Called`).
-/

namespace Playchain.AccountHistory

/-! ### Lists of records -/

/-- The records of an account, among all records, form a list that its statistics describe. -/
structure ListOk (rec : ℕ → Option AccountRecord) (a : ℕ) (st : AccountStatistics) : Prop where
  range : ∀ k r, rec k = some r → r.account = a → st.removedOps < r.sequence ∧ r.sequence ≤ st.totalOps
  last : ∀ k r, rec k = some r → r.account = a → r.sequence = st.removedOps + 1 → r.next = 0
  link : ∀ k r, rec k = some r → r.account = a → st.removedOps + 1 < r.sequence →
    ∃ r', rec r.next = some r' ∧ r'.account = a ∧ r'.sequence + 1 = r.sequence
  present : ∀ q, st.removedOps < q → q ≤ st.totalOps →
    ∃ k r, rec k = some r ∧ r.account = a ∧ r.sequence = q
  recent : 0 < st.totalOps →
    ∃ r, rec st.mostRecentOp = some r ∧ r.account = a ∧ r.sequence = st.totalOps
  empty : st.totalOps = 0 → st.mostRecentOp = 0
  le : st.removedOps ≤ st.totalOps
  pos : 0 < st.totalOps → st.removedOps < st.totalOps

namespace ListOk

variable {rec rec' : ℕ → Option AccountRecord} {a : ℕ} {st : AccountStatistics}

/-- An account without a history. -/
theorem new (h : ∀ k r, rec k = some r → r.account ≠ a) : ListOk rec a {} where
  range k r hr ha := absurd ha (h k r hr)
  last k r hr ha := absurd ha (h k r hr)
  link k r hr ha := absurd ha (h k r hr)
  present _ hlt hle := absurd hlt (not_lt.2 hle)
  recent hpos := absurd hpos (lt_irrefl 0)
  empty _ := rfl
  le := le_rfl
  pos hpos := absurd hpos (lt_irrefl 0)

/-- The records of other accounts do not matter. -/
theorem congr (h : ListOk rec a st)
    (hsame : ∀ k r, r.account = a → (rec' k = some r ↔ rec k = some r)) : ListOk rec' a st where
  range k r hr ha := h.range k r ((hsame k r ha).1 hr) ha
  last k r hr ha := h.last k r ((hsame k r ha).1 hr) ha
  link k r hr ha hlt := by
    obtain ⟨r', hr', ha', hseq⟩ := h.link k r ((hsame k r ha).1 hr) ha hlt
    exact ⟨r', (hsame _ _ ha').2 hr', ha', hseq⟩
  present q hlt hle := by
    obtain ⟨k, r, hr, ha, hseq⟩ := h.present q hlt hle
    exact ⟨k, r, (hsame k r ha).2 hr, ha, hseq⟩
  recent hpos := by
    obtain ⟨r, hr, ha, hseq⟩ := h.recent hpos
    exact ⟨r, (hsame _ r ha).2 hr, ha, hseq⟩
  empty := h.empty
  le := h.le
  pos := h.pos

/-- A record at the front. -/
theorem append (h : ListOk rec a st) {id operationId : ℕ} (hid : rec id = none)
    (hrec : ∀ k, rec' k = if k = id then some ⟨a, operationId, st.totalOps + 1, st.mostRecentOp⟩
      else rec k) :
    ListOk rec' a { st with mostRecentOp := id, totalOps := st.totalOps + 1 } := by
  have hold : ∀ {k r}, rec k = some r → rec' k = some r := by
    intro k r hr
    rw [hrec, if_neg, hr]
    rintro rfl
    rw [hid] at hr
    cases hr
  have hcases : ∀ {k r}, rec' k = some r →
      (k = id ∧ r = ⟨a, operationId, st.totalOps + 1, st.mostRecentOp⟩) ∨ rec k = some r := by
    intro k r hr
    rw [hrec] at hr
    split_ifs at hr with hk
    · exact .inl ⟨hk, (Option.some.inj hr).symm⟩
    · exact .inr hr
  have hself : rec' id = some ⟨a, operationId, st.totalOps + 1, st.mostRecentOp⟩ := by
    rw [hrec, if_pos rfl]
  refine ⟨fun k r hr ha ↦ ?_, fun k r hr ha hseq ↦ ?_, fun k r hr ha hlt ↦ ?_, fun q hlt hle ↦ ?_,
    fun _ ↦ ⟨_, hself, rfl, rfl⟩, fun hzero ↦ absurd hzero (Nat.succ_ne_zero _),
    h.le.trans (Nat.le_succ _), fun _ ↦ Nat.lt_succ_of_le h.le⟩
  · obtain ⟨-, rfl⟩ | hr := hcases hr
    · exact ⟨Nat.lt_succ_of_le h.le, le_rfl⟩
    · exact ⟨(h.range k r hr ha).1, (h.range k r hr ha).2.trans (Nat.le_succ _)⟩
  · obtain ⟨-, rfl⟩ | hr := hcases hr
    -- the first record of the account points to the end of the list
    · refine h.empty (Nat.eq_zero_of_not_pos fun hpos ↦ ?_)
      have hlt := h.pos hpos
      have hseq : st.totalOps + 1 = st.removedOps + 1 := hseq
      omega
    · exact h.last k r hr ha hseq
  · obtain ⟨-, rfl⟩ | hr := hcases hr
    · have hlt : st.removedOps + 1 < st.totalOps + 1 := hlt
      obtain ⟨r, hr, hra, hseq⟩ := h.recent (by omega)
      exact ⟨r, hold hr, hra, congrArg (· + 1) hseq⟩
    · obtain ⟨r', hr', ha', hseq⟩ := h.link k r hr ha hlt
      exact ⟨r', hold hr', ha', hseq⟩
  · by_cases hq : q = st.totalOps + 1
    · exact ⟨id, _, hself, rfl, hq.symm⟩
    · have hle : q ≤ st.totalOps + 1 := hle
      obtain ⟨k, r, hr, ha, hseq⟩ := h.present q hlt (by omega)
      exact ⟨k, r, hold hr, ha, hseq⟩

/-- The last record is dropped, and the one before it becomes the last. -/
theorem drop (h : ListOk rec a st)
    (hunique : ∀ {j k r r'}, rec j = some r → rec k = some r' → r.account = a → r'.account = a →
      r.sequence = r'.sequence → j = k)
    {first second : ℕ} {r₁ r₂ : AccountRecord} (hfirst : rec first = some r₁) (ha₁ : r₁.account = a)
    (hseq₁ : r₁.sequence = st.removedOps + 1) (hsecond : rec second = some r₂) (ha₂ : r₂.account = a)
    (hseq₂ : r₂.sequence = st.removedOps + 2)
    (hrec : ∀ k, rec' k = if k = second then some { r₂ with next := 0 }
      else if k = first then none else rec k) :
    ListOk rec' a { st with removedOps := st.removedOps + 1 } := by
  have hne : second ≠ first := by
    rintro rfl
    rw [hfirst] at hsecond
    obtain rfl := Option.some.inj hsecond
    omega
  have hcases : ∀ {k r}, rec' k = some r → (k = second ∧ r = { r₂ with next := 0 }) ∨
      (k ≠ second ∧ k ≠ first ∧ rec k = some r) := by
    intro k r hr
    rw [hrec] at hr
    split_ifs at hr with hk hk'
    · exact .inl ⟨hk, (Option.some.inj hr).symm⟩
    · exact .inr ⟨hk, hk', hr⟩
  -- every record but the first one is still there, up to its next pointer
  have hold : ∀ {k r}, rec k = some r → k ≠ first →
      ∃ r', rec' k = some r' ∧ r'.account = r.account ∧ r'.sequence = r.sequence := by
    intro k r hr hk
    by_cases hk' : k = second
    · rw [hk', hsecond] at hr
      obtain rfl := Option.some.inj hr
      exact ⟨{ r₂ with next := 0 }, by rw [hrec, if_pos hk'], rfl, rfl⟩
    · exact ⟨r, by rw [hrec, if_neg hk', if_neg hk, hr], rfl, rfl⟩
  have hlater : ∀ {k r}, rec k = some r → r.account = a → r.sequence ≠ st.removedOps + 1 → k ≠ first := by
    rintro k r hr - hseq rfl
    rw [hfirst] at hr
    obtain rfl := Option.some.inj hr
    exact hseq hseq₁
  have hbound : st.removedOps + 2 ≤ st.totalOps := hseq₂ ▸ (h.range _ _ hsecond ha₂).2
  refine ⟨fun k r hr ha ↦ ?_, fun k r hr ha hseq ↦ ?_, fun k r hr ha hlt ↦ ?_, fun q hlt hle ↦ ?_,
    fun hpos ↦ ?_, h.empty, Nat.le_of_succ_le hbound, fun _ ↦ hbound⟩
  · obtain ⟨rfl, rfl⟩ | ⟨-, hk, hr⟩ := hcases hr
    · exact ⟨show st.removedOps + 1 < r₂.sequence by omega, (h.range _ _ hsecond ha₂).2⟩
    · refine ⟨lt_of_le_of_ne (h.range k r hr ha).1 fun hseq ↦ hk ?_, (h.range k r hr ha).2⟩
      exact hunique hr hfirst ha ha₁ (hseq.symm.trans hseq₁.symm)
  · obtain ⟨rfl, rfl⟩ | ⟨hk, -, hr⟩ := hcases hr
    · rfl
    · exact absurd (hunique hr hsecond ha ha₂ (hseq.trans hseq₂.symm)) hk
  · obtain ⟨rfl, rfl⟩ | ⟨-, -, hr⟩ := hcases hr
    · have hlt : st.removedOps + 2 < r₂.sequence := hlt
      omega
    · have hlt : st.removedOps + 2 < r.sequence := hlt
      obtain ⟨r', hr', ha', hseq⟩ := h.link k r hr ha (by omega)
      obtain ⟨r'', hr'', ha'', hseq''⟩ := hold hr' (hlater hr' ha' (by omega))
      exact ⟨r'', hr'', ha''.trans ha', by omega⟩
  · have hlt : st.removedOps + 1 < q := hlt
    obtain ⟨k, r, hr, ha, hseq⟩ := h.present q (by omega) hle
    obtain ⟨r', hr', ha', hseq'⟩ := hold hr (hlater hr ha (by omega))
    exact ⟨k, r', hr', ha'.trans ha, hseq'.trans hseq⟩
  · obtain ⟨r, hr, ha, hseq⟩ := h.recent hpos
    obtain ⟨r', hr', ha', hseq'⟩ := hold hr (hlater hr ha (by omega))
    exact ⟨r', hr', ha'.trans ha, hseq'.trans hseq⟩

end ListOk

/-! ### Lookups -/

section Lookups

variable {τ : Type} {d d' : HistoryDatabase τ} {n : ℕ} {k : HistoryIndex} {o : HistoryObject τ}

theorem record?_eq_some_iff {r : AccountRecord} :
    record? d n = some r ↔ d.objects.find? (toLex (.record, n)) = some (.record r) := by
  unfold record?
  split
  · next h => simp [h]
  · next h =>
    constructor
    · intro hr
      cases hr
    · intro hr
      exact absurd hr (h r)

theorem operation?_eq_some_iff {c : Option τ} :
    operation? d n = some c ↔ d.objects.find? (toLex (.operation, n)) = some (.operation c) := by
  unfold operation?
  split
  · next h => simp [h]
  · next h =>
    constructor
    · intro hc
      cases hc
    · intro hc
      exact absurd hc (h c)

theorem statistics?_eq_some_iff {st : AccountStatistics} :
    statistics? d n = some st ↔ d.objects.find? (toLex (.statistics, n)) = some (.statistics st) := by
  unfold statistics?
  split
  · next h => simp [h]
  · next h =>
    constructor
    · intro hst
      cases hst
    · intro hst
      exact absurd hst (h st)

theorem mem_records {p : ℕ × AccountRecord} : p ∈ records d ↔ record? d p.1 = some p.2 := by
  rw [records, List.mem_filterMap, record?_eq_some_iff, FlatMap.find?_eq_some_iff]
  constructor
  · rintro ⟨⟨id, o⟩, hmem, hp⟩
    split at hp
    · next n r hid ho =>
      obtain rfl := Option.some.inj hp
      have hid : id = toLex (HistoryIndex.record, n) := hid
      have ho : o = .record r := ho
      rwa [hid, ho] at hmem
    · cases hp
  · intro hmem
    exact ⟨_, hmem, rfl⟩

theorem records_nodup (d : HistoryDatabase τ) : (records d).Nodup := by
  refine List.Nodup.filterMap (fun p q x hp hq ↦ ?_) (List.Nodup.of_map _ d.objects.nodup_fst)
  obtain ⟨id, o⟩ := p
  obtain ⟨id', o'⟩ := q
  split at hp
  · next n r hid ho =>
    have hid : id = toLex (HistoryIndex.record, n) := hid
    have ho : o = .record r := ho
    split at hq
    · next n' r' hid' ho' =>
      have hid' : id' = toLex (HistoryIndex.record, n') := hid'
      have ho' : o' = .record r' := ho'
      have hsame := Option.some.inj ((Option.mem_def.1 hp).trans (Option.mem_def.1 hq).symm)
      obtain ⟨rfl, rfl⟩ := Prod.mk.inj hsame
      rw [hid, ho, hid', ho']
    · cases hq
  · cases hp

theorem hasReference_eq_false_iff :
    hasReference d n = false ↔ ∀ k r, record? d k = some r → r.operationId ≠ n := by
  rw [hasReference, List.any_eq_false]
  constructor
  · intro h k r hr
    simpa using h (k, r) (mem_records.2 hr)
  · intro h p hp
    simpa using h p.1 p.2 (mem_records.1 hp)

theorem hasReference_congr (h : record? d' = record? d) : hasReference d' n = hasReference d n := by
  rw [Bool.eq_iff_iff, ← not_iff_not, Bool.not_eq_true, Bool.not_eq_true, hasReference_eq_false_iff,
    hasReference_eq_false_iff, h]

theorem mem_bySeq {a : ℕ} {p : ℕ × AccountRecord} :
    p ∈ bySeq d a ↔ record? d p.1 = some p.2 ∧ p.2.account = a := by
  rw [bySeq, List.mem_insertionSort, List.mem_filter, mem_records]
  simp

theorem bySeq_nodup (d : HistoryDatabase τ) (a : ℕ) : (bySeq d a).Nodup :=
  (List.perm_insertionSort _ _).nodup_iff.2 ((records_nodup d).filter _)

theorem bySeq_sorted (d : HistoryDatabase τ) (a : ℕ) :
    (bySeq d a).Pairwise fun p q ↦ p.2.sequence ≤ q.2.sequence := by
  have : Std.Total fun p q : ℕ × AccountRecord ↦ p.2.sequence ≤ q.2.sequence :=
    ⟨fun p q ↦ le_total _ _⟩
  have : IsTrans (ℕ × AccountRecord) fun p q ↦ p.2.sequence ≤ q.2.sequence :=
    ⟨fun _ _ _ h h' ↦ le_trans h h'⟩
  exact List.pairwise_insertionSort _ _

/-- Records are in their index. -/
def Shaped (d : HistoryDatabase τ) : Prop :=
  ∀ i r, d.objects.find? i = some (.record r) → (ofLex i).1 = .record

theorem Shaped.insert (h : Shaped d) (hd' : d'.objects = d.objects.insert (toLex (k, n)) o)
    (hk : ∀ r, o = .record r → k = .record) : Shaped d' := by
  intro i r hr
  rw [hd', FlatMap.find?_insert] at hr
  split_ifs at hr with hi
  · rw [hi]
    exact hk r (Option.some.inj hr)
  · exact h i r hr

theorem Shaped.erase (h : Shaped d) {i : ObjectId} (hd' : d'.objects = d.objects.erase i) :
    Shaped d' := by
  intro j r hr
  rw [hd', FlatMap.find?_erase] at hr
  split_ifs at hr
  exact h j r hr

/-! Lookups after an object has been inserted or erased -/

theorem find?_insert_object (hd' : d'.objects = d.objects.insert (toLex (k, n)) o) (j : HistoryIndex)
    (m : ℕ) : d'.objects.find? (toLex (j, m)) =
      if j = k ∧ m = n then some o else d.objects.find? (toLex (j, m)) := by
  rw [hd', FlatMap.find?_insert]
  simp only [EmbeddingLike.apply_eq_iff_eq, Prod.mk.injEq]

theorem find?_erase_object (hd' : d'.objects = d.objects.erase (toLex (k, n))) (j : HistoryIndex)
    (m : ℕ) : d'.objects.find? (toLex (j, m)) =
      if j = k ∧ m = n then none else d.objects.find? (toLex (j, m)) := by
  rw [hd', FlatMap.find?_erase]
  simp only [EmbeddingLike.apply_eq_iff_eq, Prod.mk.injEq]

theorem lookups_insert_record {r : AccountRecord}
    (hd' : d'.objects = d.objects.insert (toLex (.record, n)) (.record r)) :
    record? d' = Function.update (record? d) n (some r) ∧ operation? d' = operation? d ∧
      statistics? d' = statistics? d := by
  refine ⟨funext fun m ↦ ?_, funext fun m ↦ ?_, funext fun m ↦ ?_⟩
  · unfold record?
    rw [find?_insert_object hd']
    by_cases hm : m = n
    · subst hm
      simp
    · simp [hm]
  · simp [operation?, find?_insert_object hd']
  · simp [statistics?, find?_insert_object hd']

theorem lookups_insert_operation {c : Option τ}
    (hd' : d'.objects = d.objects.insert (toLex (.operation, n)) (.operation c)) :
    operation? d' = Function.update (operation? d) n (some c) ∧ record? d' = record? d ∧
      statistics? d' = statistics? d := by
  refine ⟨funext fun m ↦ ?_, funext fun m ↦ ?_, funext fun m ↦ ?_⟩
  · unfold operation?
    rw [find?_insert_object hd']
    by_cases hm : m = n
    · subst hm
      simp
    · simp [hm]
  · simp [record?, find?_insert_object hd']
  · simp [statistics?, find?_insert_object hd']

theorem lookups_insert_statistics {st : AccountStatistics}
    (hd' : d'.objects = d.objects.insert (toLex (.statistics, n)) (.statistics st)) :
    statistics? d' = Function.update (statistics? d) n (some st) ∧ record? d' = record? d ∧
      operation? d' = operation? d := by
  refine ⟨funext fun m ↦ ?_, funext fun m ↦ ?_, funext fun m ↦ ?_⟩
  · unfold statistics?
    rw [find?_insert_object hd']
    by_cases hm : m = n
    · subst hm
      simp
    · simp [hm]
  · simp [record?, find?_insert_object hd']
  · simp [operation?, find?_insert_object hd']

theorem lookups_erase_record (hd' : d'.objects = d.objects.erase (toLex (.record, n))) :
    record? d' = Function.update (record? d) n none ∧ operation? d' = operation? d ∧
      statistics? d' = statistics? d := by
  refine ⟨funext fun m ↦ ?_, funext fun m ↦ ?_, funext fun m ↦ ?_⟩
  · unfold record?
    rw [find?_erase_object hd']
    by_cases hm : m = n
    · subst hm
      simp
    · simp [hm]
  · simp [operation?, find?_erase_object hd']
  · simp [statistics?, find?_erase_object hd']

theorem lookups_erase_operation (hd' : d'.objects = d.objects.erase (toLex (.operation, n))) :
    operation? d' = Function.update (operation? d) n none ∧ record? d' = record? d ∧
      statistics? d' = statistics? d := by
  refine ⟨funext fun m ↦ ?_, funext fun m ↦ ?_, funext fun m ↦ ?_⟩
  · unfold operation?
    rw [find?_erase_object hd']
    by_cases hm : m = n
    · subst hm
      simp
    · simp [hm]
  · simp [record?, find?_erase_object hd']
  · simp [statistics?, find?_erase_object hd']

end Lookups

/-! ### Calls -/

section Calls

variable {τ : Type} {s s' s'' : Session τ} {i : ObjectId} {k : HistoryIndex} {o o' : HistoryObject τ}

/-- The unique keys of two objects are the same. -/
def SameKeys (o o' : HistoryObject τ) : Prop := ∀ c, UniqueKeys.collide c o = UniqueKeys.collide c o'

/-- The old values of modified objects have the keys of the objects. -/
def KeepsKeys (d : HistoryDatabase τ) (undo : HistoryUndo τ) : Prop :=
  ∀ i a, undo.oldValues.find? i = some a → ∃ b, d.objects.find? i = some b ∧ SameKeys a b

/-- The record of a session that started with given objects. -/
structure Kept (d₀ d : HistoryDatabase τ) (undo : HistoryUndo τ) : Prop where
  recorded : Recorded d₀ d undo
  keys : KeepsKeys d undo

/-- What all changes of the objects have in common. -/
structure Called (s s' : Session τ) : Prop where
  kept : ∀ d₀, Kept d₀ s.db s.undo → Kept d₀ s'.db s'.undo
  nextIds : ∀ j, s.undo.oldIndexNextIds.contains j = true → s'.undo.oldIndexNextIds.contains j = true
  isFirst : s'.isFirst = s.isFirst
  oho : s'.oho = s.oho

theorem Called.refl (s : Session τ) : Called s s := ⟨fun _ h ↦ h, fun _ h ↦ h, rfl, rfl⟩

theorem Called.trans (h : Called s s') (h' : Called s' s'') : Called s s'' where
  kept d₀ hd := h'.kept d₀ (h.kept d₀ hd)
  nextIds j hj := h'.nextIds j (h.nextIds j hj)
  isFirst := h'.isFirst.trans h.isFirst
  oho := h'.oho.trans h.oho

/-- An object with new keys is created. -/
theorem call_create (hvalid : s.db.Valid)
    (hkeys : ∀ i b, s.db.objects.find? i = some b → UniqueKeys.collide b o = false) :
    ∃ s', s.call (.create k o) = .ok s' ∧ Called s s' ∧ s'.db.Valid ∧
      s'.db.objects = s.db.objects.insert (toLex (k, s.db.nextId k)) o ∧
      s'.db.nextId = Function.update s.db.nextId k (s.db.nextId k + 1) ∧
      s'.undo.oldIndexNextIds.contains k = true := by
  have hfree : s.db.objects.find? (toLex (k, s.db.nextId k)) = none := by
    rcases h : s.db.objects.find? (toLex (k, s.db.nextId k)) with - | b
    · rfl
    · exact absurd (hvalid.lt_nextId k _ b h) (lt_irrefl _)
  have hadmits : s.db.admits (toLex (k, s.db.nextId k)) o = true :=
    admits_iff.2 fun j b hb _ ↦ hkeys j b hb
  obtain ⟨d', hd'⟩ : ∃ d', s.db.create k o = some d' := by
    rw [ObjectDatabase.create, ObjectDatabase.insert,
      if_pos ⟨FlatMap.contains_eq_false_iff.2 hfree, hadmits⟩]
    exact ⟨_, rfl⟩
  have hrecorded := (Recorded.start hvalid).create hd'
  have hobjects : d'.objects = s.db.objects.insert (toLex (k, s.db.nextId k)) o ∧
      d'.nextId = Function.update s.db.nextId k (s.db.nextId k + 1) := by
    rw [ObjectDatabase.create, ObjectDatabase.insert,
      if_pos ⟨FlatMap.contains_eq_false_iff.2 hfree, hadmits⟩] at hd'
    obtain rfl := Option.some.inj hd'
    exact ⟨rfl, rfl⟩
  refine ⟨{ s with db := d', undo := s.undo.onCreate k (s.db.nextId k) }, ?_,
    ⟨fun d₀ h ↦ ⟨h.recorded.create hd', fun i a ha ↦ ?_⟩, fun j hj ↦ ?_, rfl, rfl⟩, hrecorded.after,
    hobjects.1, hobjects.2, ?_⟩
  · rw [Session.call, Call.run, hd']
  · obtain ⟨b, hb, hsame⟩ := h.keys i a ha
    refine ⟨b, ?_, hsame⟩
    show d'.objects.find? i = some b
    rw [hobjects.1, FlatMap.find?_insert_of_ne, hb]
    rintro rfl
    rw [hfree] at hb
    cases hb
  · show (if s.undo.oldIndexNextIds.contains k = true then _ else _ : FlatMap _ _).contains j = true
    split_ifs
    · exact hj
    · rw [contains_insert, hj, ite_self]
  · show (if s.undo.oldIndexNextIds.contains k = true then _ else _ : FlatMap _ _).contains k = true
    split_ifs with hk
    · exact hk
    · rw [contains_insert, if_pos rfl]

/-- An object is modified and keeps its keys. -/
theorem call_modify (o' : HistoryObject τ) (hvalid : s.db.Valid) (hi : s.db.objects.find? i = some o)
    (hsame : SameKeys o o') :
    ∃ s', s.call (.modify i fun _ ↦ o') = .ok s' ∧ Called s s' ∧ s'.db.Valid ∧
      s'.db.objects = s.db.objects.insert i o' ∧ s'.db.nextId = s.db.nextId := by
  have hadmits : s.db.admits i o' = true := admits_iff.2 fun j b hb hne ↦
    (hsame b).symm.trans (hvalid.unique j i b o hb hi hne)
  obtain ⟨d', hd', hobjects, hnext⟩ : ∃ d', s.db.modify i o o' = .ok d' ∧
      d'.objects = s.db.objects.insert i o' ∧ d'.nextId = s.db.nextId := by
    rw [ObjectDatabase.modify, if_pos hadmits]
    exact ⟨_, rfl, rfl, rfl⟩
  have hids : (s.undo.onModify i o).oldIndexNextIds = s.undo.oldIndexNextIds := by
    unfold UndoState.onModify
    split_ifs
    · rfl
    · rfl
    · rfl
  refine ⟨{ s with db := d', undo := s.undo.onModify i o }, ?_,
    ⟨fun d₀ h ↦ ⟨h.recorded.modify hi hd', fun j a ha ↦ ?_⟩, fun j hj ↦ ?_, rfl, rfl⟩,
    ((Recorded.start hvalid).modify hi hd').after, hobjects, hnext⟩
  · rw [Session.call, Call.run, hi]
    dsimp only
    rw [hd']
  · show ∃ b, d'.objects.find? j = some b ∧ SameKeys a b
    rw [hobjects, FlatMap.find?_insert]
    have hentry : ((s.undo.onModify i o).entry j).old = some a := ha
    rw [entry_onModify] at hentry
    by_cases hj : j = i
    · subst hj
      rw [if_pos rfl] at hentry
      refine ⟨o', if_pos rfl, ?_⟩
      rcases hold : s.undo.oldValues.find? j with - | a'
      -- the first modification: the old value is the object before
      · have ha : a = o := by
          rcases hnew : s.undo.newIds.contains j with - | -
          · simp only [Entry.onModify, UndoState.entry, hold, hnew] at hentry
            exact (Option.some.inj hentry).symm
          · simp only [Entry.onModify, UndoState.entry, hold, hnew, if_true] at hentry
            cases hentry
        rw [ha]
        exact hsame
      · obtain ⟨b, hb, hab⟩ := h.keys j a' hold
        rw [hi] at hb
        obtain rfl := Option.some.inj hb
        have ha : a = a' := by
          simp only [Entry.onModify, UndoState.entry, hold, Option.isSome_some, if_true, ite_self] at hentry
          exact (Option.some.inj hentry).symm
        rw [ha]
        exact fun c ↦ (hab c).trans (hsame c)
    · rw [if_neg hj] at hentry ⊢
      exact h.keys j a hentry
  · show (s.undo.onModify i o).oldIndexNextIds.contains j = true
    rw [hids]
    exact hj

/-- An object is removed. -/
theorem call_remove (hvalid : s.db.Valid) (hi : s.db.objects.find? i = some o) :
    ∃ s', s.call (.remove i) = .ok s' ∧ Called s s' ∧ s'.db.Valid ∧
      s'.db.objects = s.db.objects.erase i ∧ s'.db.nextId = s.db.nextId := by
  have hids : (s.undo.onRemove i o).oldIndexNextIds = s.undo.oldIndexNextIds := by
    unfold UndoState.onRemove
    by_cases hnew : s.undo.newIds.contains i = true
    · rw [if_pos hnew]
    · rw [if_neg hnew]
      rcases s.undo.oldValues.find? i with - | old
      · dsimp only
        split_ifs
        · rfl
        · rfl
      · rfl
  refine ⟨{ s with db := s.db.remove i o, undo := s.undo.onRemove i o }, ?_,
    ⟨fun d₀ h ↦ ⟨h.recorded.remove hi, fun j a ha ↦ ?_⟩, fun j hj ↦ ?_, rfl, rfl⟩,
    ((Recorded.start hvalid).remove hi).after, rfl, rfl⟩
  · rw [Session.call, Call.run, hi]
  · show ∃ b, (s.db.objects.erase i).find? j = some b ∧ SameKeys a b
    have hentry : ((s.undo.onRemove i o).entry j).old = some a := ha
    rw [entry_onRemove] at hentry
    by_cases hj : j = i
    · obtain ⟨-, b, hb⟩ := (h.recorded.remove hi).old_eq ha
      have hb : (s.db.objects.erase i).find? j = some b := hb
      rw [hj, FlatMap.find?_erase_self] at hb
      cases hb
    · rw [if_neg hj] at hentry
      rw [FlatMap.find?_erase_of_ne _ hj]
      exact h.keys j a hentry
  · show (s.undo.onRemove i o).oldIndexNextIds.contains j = true
    rw [hids]
    exact hj

end Calls

/-! ### The invariant -/

section Invariant

variable {τ : Type} {cfg : Config} {limit : ℕ → ℕ} {entries : List (Option (AppliedOperation τ))}
  {pending : Option ℕ} {d d' : HistoryDatabase τ} {a : ℕ} {st : AccountStatistics}

/-- The invariant of the objects, for the operations that the chain has applied so far. An account has a
limit for its records; an operation that has just been created is `pending` until a record refers to
it. -/
structure Inv (cfg : Config) (limit : ℕ → ℕ) (entries : List (Option (AppliedOperation τ)))
    (pending : Option ℕ) (d : HistoryDatabase τ) : Prop where
  valid : d.Valid
  shaped : Shaped d
  accounts : ∀ a, a < d.nextId .statistics → ∃ st, statistics? d a = some st
  nextOperation : d.nextId .operation = entries.length
  /-- The id of an operation is its position. -/
  stored : ∀ n c, operation? d n = some c → ∃ op, entries[n]? = some (some op) ∧ c = some op.content
  lists : ∀ a st, statistics? d a = some st → ListOk (record? d) a st
  size : ∀ a st, statistics? d a = some st → st.totalOps - st.removedOps ≤ limit a
  owned : ∀ k r, record? d k = some r → ∃ st, statistics? d r.account = some st
  /-- The record with the id zero is the first one of its account. -/
  zero : ∀ r, record? d 0 = some r → r.sequence = 1
  refersBelow : ∀ k r, record? d k = some r → r.operationId < entries.length
  references : cfg.partialOperations = true → ∀ n, (∃ c, operation? d n = some c) ↔
    (∃ k r, record? d k = some r ∧ r.operationId = n) ∨ pending = some n

namespace Inv

/-- Two records of an account have different sequences and refer to different operations. -/
theorem unique (h : Inv cfg limit entries pending d) {j k : ℕ} {r r' : AccountRecord}
    (hr : record? d j = some r) (hr' : record? d k = some r') (ha : r.account = r'.account)
    (hkey : r.sequence = r'.sequence ∨ r.operationId = r'.operationId) : j = k := by
  by_contra hne
  have hcollide := h.valid.unique _ _ _ _ (record?_eq_some_iff.1 hr) (record?_eq_some_iff.1 hr')
    (fun heq ↦ hne (by simpa using heq))
  have htrue : r.collide r' = true := by
    simpa [AccountRecord.collide, ha] using hkey
  exact absurd (htrue.symm.trans hcollide) (by decide)

theorem record?_nextId (h : Inv cfg limit entries pending d) : record? d (d.nextId .record) = none := by
  rcases hr : record? d (d.nextId .record) with - | r
  · rfl
  · exact absurd (h.valid.lt_nextId .record _ _ (record?_eq_some_iff.1 hr)) (lt_irrefl _)

theorem operation?_nextId (h : Inv cfg limit entries pending d) :
    operation? d (d.nextId .operation) = none := by
  rcases hc : operation? d (d.nextId .operation) with - | c
  · rfl
  · exact absurd (h.valid.lt_nextId .operation _ _ (operation?_eq_some_iff.1 hc)) (lt_irrefl _)

/-- A record at the front of the list of an account. -/
theorem append (h : Inv cfg limit entries pending d) (hst : statistics? d a = some st)
    {operationId : ℕ} (hvalid : d'.Valid) (hshaped : Shaped d')
    (hrecord : record? d' = Function.update (record? d) (d.nextId .record)
      (some ⟨a, operationId, st.totalOps + 1, st.mostRecentOp⟩))
    (hstatistics : statistics? d' = Function.update (statistics? d) a
      (some { st with mostRecentOp := d.nextId .record, totalOps := st.totalOps + 1 }))
    (hoperation : operation? d' = operation? d)
    (hnext : ∀ j, j ≠ HistoryIndex.record → d'.nextId j = d.nextId j)
    (hid : operationId < entries.length) (hpending : pending = none ∨ pending = some operationId)
    (hexists : cfg.partialOperations = true → ∃ c, operation? d operationId = some c) :
    Inv cfg (Function.update limit a (limit a + 1)) entries none d' := by
  have hfree := h.record?_nextId
  have hupdate (k : ℕ) : record? d' k = if k = d.nextId .record then
      some ⟨a, operationId, st.totalOps + 1, st.mostRecentOp⟩ else record? d k := by
    rw [hrecord, Function.update_apply]
  have hcases {k : ℕ} {r : AccountRecord} (hr : record? d' k = some r) :
      (k = d.nextId .record ∧ r = ⟨a, operationId, st.totalOps + 1, st.mostRecentOp⟩) ∨
        record? d k = some r := by
    rw [hupdate] at hr
    split_ifs at hr with hk
    · exact .inl ⟨hk, (Option.some.inj hr).symm⟩
    · exact .inr hr
  have hself : record? d' (d.nextId .record) =
      some ⟨a, operationId, st.totalOps + 1, st.mostRecentOp⟩ := by
    rw [hupdate, if_pos rfl]
  have hold {k : ℕ} {r : AccountRecord} (hr : record? d k = some r) : record? d' k = some r := by
    rw [hupdate, if_neg, hr]
    rintro rfl
    rw [hfree] at hr
    cases hr
  have hstats (b : ℕ) : (∃ st, statistics? d b = some st) → ∃ st, statistics? d' b = some st := by
    rintro ⟨st', hst'⟩
    rw [hstatistics, Function.update_apply]
    split_ifs
    · exact ⟨_, rfl⟩
    · exact ⟨st', hst'⟩
  refine ⟨hvalid, hshaped, fun b hb ↦ hstats b (h.accounts b ?_), ?_, fun n c hc ↦ h.stored n c ?_,
    fun b st' hst' ↦ ?_, fun b st' hst' ↦ ?_, fun k r hr ↦ ?_, fun r hr ↦ ?_, fun k r hr ↦ ?_,
    fun hpart n ↦ ?_⟩
  · rwa [hnext _ (by decide)] at hb
  · rw [hnext _ (by decide), h.nextOperation]
  · rwa [hoperation] at hc
  · rw [hstatistics, Function.update_apply] at hst'
    split_ifs at hst' with hb
    · subst hb
      obtain rfl := Option.some.inj hst'
      exact (h.lists b st hst).append hfree hupdate
    · refine (h.lists b st' hst').congr fun k r hr ↦ ⟨fun hk ↦ ?_, hold⟩
      obtain ⟨-, rfl⟩ | hk := hcases hk
      · exact absurd hr.symm hb
      · exact hk
  · rw [hstatistics, Function.update_apply] at hst'
    rw [Function.update_apply]
    split_ifs at hst' ⊢ with hb
    · subst hb
      obtain rfl := Option.some.inj hst'
      have hsize := h.size b st hst
      show st.totalOps + 1 - st.removedOps ≤ limit b + 1
      omega
    · exact h.size b st' hst'
  · obtain ⟨-, rfl⟩ | hr := hcases hr
    · exact hstats a ⟨st, hst⟩
    · exact hstats _ (h.owned k r hr)
  · obtain ⟨hzero, rfl⟩ | hr := hcases hr
    -- there is no other record, so the account has no history
    · by_contra hseq
      have hpos : 0 < st.totalOps := Nat.pos_of_ne_zero fun h ↦ hseq (by simp [h])
      obtain ⟨r, hr, -, -⟩ := (h.lists a st hst).recent hpos
      have hlt := h.valid.lt_nextId .record _ _ (record?_eq_some_iff.1 hr)
      omega
    · exact h.zero r hr
  · obtain ⟨-, rfl⟩ | hr := hcases hr
    · exact hid
    · exact h.refersBelow k r hr
  · rw [hoperation, h.references hpart n]
    constructor
    · rintro (⟨k, r, hr, hn⟩ | hn)
      · exact .inl ⟨k, r, hold hr, hn⟩
      · obtain hnone | hsome := hpending
        · rw [hnone] at hn
          cases hn
        · rw [hsome] at hn
          exact .inl ⟨_, _, hself, Option.some.inj hn⟩
    · rintro (⟨k, r, hr, hn⟩ | hn)
      · obtain ⟨-, rfl⟩ | hr := hcases hr
        · obtain rfl : operationId = n := hn
          exact (h.references hpart _).1 (hexists hpart)
        · exact .inl ⟨k, r, hr, hn⟩
      · cases hn

/-- An operation takes up the next id and is not stored. -/
theorem skip (h : Inv cfg limit entries none d) (e : Option (AppliedOperation τ)) (hvalid : d'.Valid)
    (hshaped : Shaped d') (hoperation : operation? d' = operation? d) (hrecord : record? d' = record? d)
    (hstatistics : statistics? d' = statistics? d)
    (hnext : d'.nextId = Function.update d.nextId .operation (d.nextId .operation + 1)) :
    Inv cfg limit (entries ++ [e]) none d' where
  valid := hvalid
  shaped := hshaped
  accounts a ha := by
    rw [hnext, Function.update_of_ne (by decide)] at ha
    rw [hstatistics]
    exact h.accounts a ha
  nextOperation := by
    rw [hnext, Function.update_self, h.nextOperation, List.length_append, List.length_singleton]
  stored n c hc := by
    rw [hoperation] at hc
    obtain ⟨op, hop, hcontent⟩ := h.stored n c hc
    exact ⟨op, List.getElem?_append_left (List.getElem?_eq_some_iff.1 hop).1 ▸ hop, hcontent⟩
  lists := by
    rw [hrecord, hstatistics]
    exact h.lists
  size := by
    rw [hstatistics]
    exact h.size
  owned := by
    rw [hrecord, hstatistics]
    exact h.owned
  zero := by
    rw [hrecord]
    exact h.zero
  refersBelow k r hr := by
    rw [hrecord] at hr
    rw [List.length_append]
    exact Nat.lt_add_right _ (h.refersBelow k r hr)
  references := by
    rw [hoperation, hrecord]
    exact h.references

/-- An operation is stored with the next id. -/
theorem create (h : Inv cfg limit entries none d) (op : AppliedOperation τ) (hvalid : d'.Valid)
    (hshaped : Shaped d')
    (hoperation : operation? d' = Function.update (operation? d) entries.length (some (some op.content)))
    (hrecord : record? d' = record? d) (hstatistics : statistics? d' = statistics? d)
    (hnext : d'.nextId = Function.update d.nextId .operation (d.nextId .operation + 1)) :
    Inv cfg limit (entries ++ [some op]) (some entries.length) d' where
  valid := hvalid
  shaped := hshaped
  accounts a ha := by
    rw [hnext, Function.update_of_ne (by decide)] at ha
    rw [hstatistics]
    exact h.accounts a ha
  nextOperation := by
    rw [hnext, Function.update_self, h.nextOperation, List.length_append, List.length_singleton]
  stored n c hc := by
    rw [hoperation, Function.update_apply] at hc
    split_ifs at hc with hn
    · exact ⟨op, hn ▸ List.getElem?_concat_length, (Option.some.inj hc).symm⟩
    · obtain ⟨op', hop', hcontent⟩ := h.stored n c hc
      exact ⟨op', List.getElem?_append_left (List.getElem?_eq_some_iff.1 hop').1 ▸ hop', hcontent⟩
  lists := by
    rw [hrecord, hstatistics]
    exact h.lists
  size := by
    rw [hstatistics]
    exact h.size
  owned := by
    rw [hrecord, hstatistics]
    exact h.owned
  zero := by
    rw [hrecord]
    exact h.zero
  refersBelow k r hr := by
    rw [hrecord] at hr
    rw [List.length_append]
    exact Nat.lt_add_right _ (h.refersBelow k r hr)
  references hpart n := by
    have hbefore := h.references hpart n
    simp only [reduceCtorEq, or_false] at hbefore
    rw [hoperation, hrecord, ← hbefore, Function.update_apply, Option.some.injEq]
    split_ifs with hn
    · exact ⟨fun _ ↦ .inr hn.symm, fun _ ↦ ⟨_, rfl⟩⟩
    · exact ⟨.inl, fun h ↦ h.resolve_right fun heq ↦ hn heq.symm⟩

/-- Without partial operations references do not matter. -/
theorem settle (h : Inv cfg limit entries pending d) (hpart : cfg.partialOperations = false) :
    Inv cfg limit entries none d :=
  { h with references := fun htrue ↦ absurd (hpart.symm.trans htrue) (by decide) }

/-- The first two records of an account in the order of their sequences. -/
theorem bySeq_eq (h : Inv cfg limit entries pending d) (hst : statistics? d a = some st)
    (htwo : st.removedOps + 2 ≤ st.totalOps) : ∃ first second rest,
      bySeq d a = first :: second :: rest ∧ record? d first.1 = some first.2 ∧ first.2.account = a ∧
      first.2.sequence = st.removedOps + 1 ∧ record? d second.1 = some second.2 ∧
      second.2.account = a ∧ second.2.sequence = st.removedOps + 2 := by
  have hlist := h.lists a st hst
  obtain ⟨k₁, r₁, hr₁, ha₁, hseq₁⟩ := hlist.present (st.removedOps + 1) (by omega) (by omega)
  obtain ⟨k₂, r₂, hr₂, ha₂, hseq₂⟩ := hlist.present (st.removedOps + 2) (by omega) htwo
  have hmem₁ : (k₁, r₁) ∈ bySeq d a := mem_bySeq.2 ⟨hr₁, ha₁⟩
  have hmem₂ : (k₂, r₂) ∈ bySeq d a := mem_bySeq.2 ⟨hr₂, ha₂⟩
  have hsorted := bySeq_sorted d a
  have hget {p : ℕ × AccountRecord} (hp : p ∈ bySeq d a) : record? d p.1 = some p.2 ∧ p.2.account = a :=
    mem_bySeq.1 hp
  rcases hlist' : bySeq d a with - | ⟨first, l⟩
  · rw [hlist'] at hmem₁
    cases hmem₁
  rw [hlist'] at hmem₁ hmem₂ hsorted hget
  rw [List.pairwise_cons] at hsorted
  have hfirst := hget List.mem_cons_self
  have hseqFirst : first.2.sequence = st.removedOps + 1 := by
    refine le_antisymm ?_ (hlist.range _ _ hfirst.1 hfirst.2).1
    rcases List.mem_cons.1 hmem₁ with heq | hmem
    · rw [← heq, hseq₁]
    · exact hseq₁ ▸ hsorted.1 _ hmem
  rcases l with - | ⟨second, rest⟩
  · obtain rfl := List.mem_singleton.1 hmem₂
    have hseq : r₂.sequence = st.removedOps + 1 := hseqFirst
    omega
  have hsecond := hget (List.mem_cons_of_mem _ List.mem_cons_self)
  rw [List.pairwise_cons] at hsorted
  refine ⟨first, second, rest, rfl, hfirst.1, hfirst.2, hseqFirst, hsecond.1, hsecond.2, ?_⟩
  have hle : second.2.sequence ≤ st.removedOps + 2 := by
    rcases List.mem_cons.1 hmem₂ with heq | hmem
    · have hseq : r₂.sequence = st.removedOps + 1 := by rw [← hseqFirst, ← heq]
      omega
    · rcases List.mem_cons.1 hmem with heq | hmem
      · rw [← heq, hseq₂]
      · exact hseq₂ ▸ hsorted.2.1 _ hmem
  have hge := hsorted.1 second List.mem_cons_self
  have hne : second.2.sequence ≠ st.removedOps + 1 := by
    intro hseq
    have hid := h.unique hfirst.1 hsecond.1 (hfirst.2.trans hsecond.2.symm)
      (.inl (hseqFirst.trans hseq.symm))
    have heq : first = second := by
      refine Prod.ext hid (Option.some.inj ?_)
      rw [← hfirst.1, hid, hsecond.1]
    have hnodup := bySeq_nodup d a
    rw [hlist', heq] at hnodup
    exact (List.nodup_cons.1 hnodup).1 List.mem_cons_self
  omega

/-- The last record of an account is dropped, and its operation if no reference to it is left. -/
theorem drop (h : Inv cfg limit entries none d) (hst : statistics? d a = some st)
    {first second : ℕ} {r₁ r₂ : AccountRecord} (hfirst : record? d first = some r₁)
    (ha₁ : r₁.account = a) (hseq₁ : r₁.sequence = st.removedOps + 1)
    (hsecond : record? d second = some r₂) (ha₂ : r₂.account = a)
    (hseq₂ : r₂.sequence = st.removedOps + 2) (hvalid : d'.Valid) (hshaped : Shaped d')
    (hrecord : record? d' = Function.update (Function.update (record? d) first none) second
      (some { r₂ with next := 0 }))
    (hstatistics : statistics? d' = Function.update (statistics? d) a
      (some { st with removedOps := st.removedOps + 1 }))
    (hoperation : ∀ n, operation? d' n = operation? d n ∨ operation? d' n = none)
    (hgone : cfg.partialOperations = true → ∀ n, operation? d' n =
      if n = r₁.operationId ∧ hasReference d' n = false then none else operation? d n)
    (hnext : d'.nextId = d.nextId) :
    Inv cfg (Function.update limit a (limit a - 1)) entries none d' := by
  have hupdate (k : ℕ) : record? d' k = if k = second then some { r₂ with next := 0 }
      else if k = first then none else record? d k := by
    rw [hrecord, Function.update_apply, Function.update_apply]
  -- a record is one that was there before, up to its next pointer
  have hbefore {k : ℕ} {r : AccountRecord} (hr : record? d' k = some r) : ∃ r', record? d k = some r' ∧
      r'.account = r.account ∧ r'.sequence = r.sequence ∧ r'.operationId = r.operationId := by
    rw [hupdate] at hr
    split_ifs at hr with hk hk'
    · obtain rfl := Option.some.inj hr
      exact ⟨r₂, hk ▸ hsecond, rfl, rfl, rfl⟩
    · exact ⟨r, hr, rfl, rfl, rfl⟩
  have hafter {k : ℕ} {r : AccountRecord} (hr : record? d k = some r) (hk : k ≠ first) :
      ∃ r', record? d' k = some r' ∧ r'.operationId = r.operationId := by
    by_cases hk' : k = second
    · rw [hk', hsecond] at hr
      obtain rfl := Option.some.inj hr
      exact ⟨{ r₂ with next := 0 }, by rw [hupdate, if_pos hk'], rfl⟩
    · exact ⟨r, by rw [hupdate, if_neg hk', if_neg hk, hr], rfl⟩
  have hstats (b : ℕ) : (∃ st, statistics? d b = some st) → ∃ st, statistics? d' b = some st := by
    rintro ⟨st', hst'⟩
    rw [hstatistics, Function.update_apply]
    split_ifs
    · exact ⟨_, rfl⟩
    · exact ⟨st', hst'⟩
  refine ⟨hvalid, hshaped, fun b hb ↦ hstats b (h.accounts b ?_), ?_, fun n c hc ↦ h.stored n c ?_,
    fun b st' hst' ↦ ?_, fun b st' hst' ↦ ?_, fun k r hr ↦ ?_, fun r hr ↦ ?_, fun k r hr ↦ ?_,
    fun hpart n ↦ ?_⟩
  · rwa [hnext] at hb
  · rw [hnext, h.nextOperation]
  · obtain hsame | hnone := hoperation n
    · rw [← hsame, hc]
    · rw [hnone] at hc
      cases hc
  · rw [hstatistics, Function.update_apply] at hst'
    split_ifs at hst' with hb
    · subst hb
      obtain rfl := Option.some.inj hst'
      exact (h.lists b st hst).drop (fun hr hr' hra hra' hseq ↦
        h.unique hr hr' (hra.trans hra'.symm) (.inl hseq)) hfirst ha₁ hseq₁ hsecond ha₂ hseq₂ hupdate
    · refine (h.lists b st' hst').congr fun k r hr ↦ ?_
      rw [hupdate]
      by_cases hk : k = second
      · rw [if_pos hk, hk, hsecond]
        constructor
        · intro heq
          obtain rfl := Option.some.inj heq
          exact absurd (hr.symm.trans ha₂) hb
        · intro heq
          obtain rfl := Option.some.inj heq
          exact absurd (hr.symm.trans ha₂) hb
      · rw [if_neg hk]
        by_cases hk' : k = first
        · rw [if_pos hk', hk', hfirst]
          constructor
          · intro heq
            cases heq
          · intro heq
            obtain rfl := Option.some.inj heq
            exact absurd (hr.symm.trans ha₁) hb
        · rw [if_neg hk']
  · rw [hstatistics, Function.update_apply] at hst'
    rw [Function.update_apply]
    split_ifs at hst' ⊢ with hb
    · subst hb
      obtain rfl := Option.some.inj hst'
      have hsize := h.size b st hst
      show st.totalOps - (st.removedOps + 1) ≤ limit b - 1
      omega
    · exact h.size b st' hst'
  · obtain ⟨r', hr', hacc, -⟩ := hbefore hr
    rw [← hacc]
    exact hstats _ (h.owned k r' hr')
  · obtain ⟨r', hr', -, hseq, -⟩ := hbefore hr
    rw [← hseq]
    exact h.zero r' hr'
  · obtain ⟨r', hr', -, -, hop⟩ := hbefore hr
    rw [← hop]
    exact h.refersBelow k r' hr'
  · rw [hgone hpart n]
    split_ifs with hn
    · constructor
      · rintro ⟨c, hc⟩
        cases hc
      · rintro (⟨k, r, hr, hop⟩ | hnone)
        · exact absurd hop (hasReference_eq_false_iff.1 hn.2 k r hr)
        · cases hnone
    · rw [h.references hpart n]
      constructor
      · rintro (⟨k, r, hr, hop⟩ | hnone)
        · by_cases hk : k = first
          -- the reference is gone, and there must be another one
          · rw [hk, hfirst] at hr
            obtain rfl := Option.some.inj hr
            by_contra hcontra
            exact hn ⟨hop.symm, hasReference_eq_false_iff.2 fun j r hj hop' ↦
              hcontra (.inl ⟨j, r, hj, hop'⟩)⟩
          · obtain ⟨r', hr', hop'⟩ := hafter hr hk
            exact .inl ⟨k, r', hr', hop'.trans hop⟩
        · cases hnone
      · rintro (⟨k, r, hr, hop⟩ | hnone)
        · obtain ⟨r', hr', -, -, hop'⟩ := hbefore hr
          exact .inl ⟨k, r', hr', hop'.trans hop⟩
        · cases hnone

end Inv

end Invariant

end Playchain.AccountHistory
