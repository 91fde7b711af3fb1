import Playchain.Lib.FlatMap

/-!
# Maps under new keys

`FlatMap.rekey f g m` enters every value of `m`, changed by `g`, under the key that `f` gives. When
`f` is **injective on the keys**, nothing is overwritten: lookups and sums of the new map are those
of the old one.
-/

namespace FlatMap

variable {K K' V V' M : Type*} [LinearOrder K] [LinearOrder K']

/-- The entries of `m`, one after the other, under new keys. -/
def rekey (f : K → K') (g : V → V') (m : FlatMap K V) : FlatMap K' V' :=
  m.toList.foldl (fun c p ↦ c.insert (f p.1) (g p.2)) ∅

section Loop

variable {f : K → K'} {g : V → V'} {l : List (K × V)} {c : FlatMap K' V'}

omit [LinearOrder K] in
/-- The loop with an accumulator: entries with different new keys do not meet. -/
theorem find?_foldl_insert (hnd : (l.map fun p ↦ f p.1).Nodup) {k : K'} {v : V'} :
    (l.foldl (fun c p ↦ c.insert (f p.1) (g p.2)) c).find? k = some v ↔
      (∃ p ∈ l, f p.1 = k ∧ g p.2 = v) ∨ ((∀ p ∈ l, f p.1 ≠ k) ∧ c.find? k = some v) := by
  induction l generalizing c with
  | nil => simp
  | cons p l ih =>
    rw [List.map_cons, List.nodup_cons] at hnd
    rw [List.foldl_cons, ih hnd.2, find?_insert]
    constructor
    · rintro (⟨q, hq, hk, hv⟩ | ⟨hne, hc⟩)
      · exact Or.inl ⟨q, List.mem_cons_of_mem _ hq, hk, hv⟩
      · split_ifs at hc with hk
        · exact Or.inl ⟨p, List.mem_cons_self, hk.symm, Option.some.inj hc⟩
        · refine Or.inr ⟨fun q hq ↦ ?_, hc⟩
          rcases List.mem_cons.1 hq with rfl | hq
          · exact Ne.symm hk
          · exact hne q hq
    · rintro (⟨q, hq, hk, hv⟩ | ⟨hne, hc⟩)
      · rcases List.mem_cons.1 hq with rfl | hq
        · refine Or.inr ⟨fun r hr heq ↦ hnd.1 ?_, by rw [if_pos hk.symm, hv]⟩
          rw [hk, ← heq]
          exact List.mem_map_of_mem (f := fun p : K × V ↦ f p.1) hr
        · exact Or.inl ⟨q, hq, hk, hv⟩
      · refine Or.inr ⟨fun q hq ↦ hne q (List.mem_cons_of_mem _ hq), ?_⟩
        rw [if_neg (Ne.symm (hne p List.mem_cons_self)), hc]

omit [LinearOrder K] in
theorem sum_foldl_insert [AddCommMonoid M] (F : K' → V' → M) (hnd : (l.map fun p ↦ f p.1).Nodup)
    (hc : ∀ p ∈ l, c.find? (f p.1) = none) :
    (l.foldl (fun c p ↦ c.insert (f p.1) (g p.2)) c).sum F =
      c.sum F + (l.map fun p ↦ F (f p.1) (g p.2)).sum := by
  induction l generalizing c with
  | nil => simp
  | cons p l ih =>
    rw [List.map_cons, List.nodup_cons] at hnd
    have hnext : ∀ q ∈ l, (c.insert (f p.1) (g p.2)).find? (f q.1) = none := by
      intro q hq
      have hne : f q.1 ≠ f p.1 := fun heq ↦
        hnd.1 (heq ▸ List.mem_map_of_mem (f := fun p : K × V ↦ f p.1) hq)
      rw [find?_insert_of_ne _ _ hne]
      exact hc q (List.mem_cons_of_mem _ hq)
    rw [List.foldl_cons, ih hnd.2 hnext, sum_insert_of_find?_none _ (hc p List.mem_cons_self),
      List.map_cons, List.sum_cons]
    abel

omit [LinearOrder K] in
/-- A loop that checks every entry before it enters it. -/
theorem foldlM_insert_eq_some {step : FlatMap K' V' → K × V → Option (FlatMap K' V')}
    {Q : K × V → Prop}
    (hstep : ∀ c p c', step c p = some c' → Q p ∧ c' = c.insert (f p.1) (g p.2))
    {c' : FlatMap K' V'} (h : l.foldlM step c = some c') :
    (∀ p ∈ l, Q p) ∧ c' = l.foldl (fun c p ↦ c.insert (f p.1) (g p.2)) c := by
  induction l generalizing c with
  | nil =>
    rw [List.foldlM_nil] at h
    exact ⟨by simp, (Option.some.inj h).symm⟩
  | cons p l ih =>
    rw [List.foldlM_cons, Option.bind_eq_bind, Option.bind_eq_some_iff] at h
    obtain ⟨c₁, h₁, h₂⟩ := h
    obtain ⟨hp, rfl⟩ := hstep c p c₁ h₁
    obtain ⟨hl, rfl⟩ := ih h₂
    refine ⟨fun q hq ↦ ?_, rfl⟩
    rcases List.mem_cons.1 hq with rfl | hq
    · exact hp
    · exact hl q hq

omit [LinearOrder K] in
/-- A loop that enters every entry. -/
theorem foldlM_insert_eq_ok {ε : Type*} {step : FlatMap K' V' → K × V → Except ε (FlatMap K' V')}
    (hstep : ∀ c, ∀ p ∈ l, step c p = .ok (c.insert (f p.1) (g p.2))) :
    l.foldlM step c = .ok (l.foldl (fun c p ↦ c.insert (f p.1) (g p.2)) c) := by
  induction l generalizing c with
  | nil => rfl
  | cons p l ih =>
    rw [List.foldlM_cons, hstep c p List.mem_cons_self]
    exact ih fun c q hq ↦ hstep c q (List.mem_cons_of_mem _ hq)

end Loop

variable {f : K → K'} {g : V → V'} {m : FlatMap K V}

omit [LinearOrder K'] in
theorem nodup_of_injOn (hf : Set.InjOn f m.keys) : (m.toList.map fun p ↦ f p.1).Nodup := by
  have hmap : (m.toList.map fun p ↦ f p.1) = (m.toList.map Prod.fst).map f := by
    rw [List.map_map]
    rfl
  rw [hmap]
  refine m.nodup_fst.map_on fun x hx y hy hxy ↦ hf ?_ ?_ hxy
  · exact Finset.mem_coe.2 (List.mem_toFinset.2 hx)
  · exact Finset.mem_coe.2 (List.mem_toFinset.2 hy)

/-- **Lookups under the new keys.** -/
theorem find?_rekey (hf : Set.InjOn f m.keys) {k : K'} {v : V'} :
    (m.rekey f g).find? k = some v ↔ ∃ j w, m.find? j = some w ∧ f j = k ∧ g w = v := by
  rw [rekey, find?_foldl_insert (nodup_of_injOn hf)]
  constructor
  · rintro (⟨p, hp, hk, hv⟩ | ⟨-, hc⟩)
    · exact ⟨p.1, p.2, find?_eq_some_iff.2 hp, hk, hv⟩
    · simp at hc
  · rintro ⟨j, w, hw, hk, hv⟩
    exact Or.inl ⟨(j, w), find?_eq_some_iff.1 hw, hk, hv⟩

theorem find?_rekey_of_find? (hf : Set.InjOn f m.keys) {j : K} {w : V} (h : m.find? j = some w) :
    (m.rekey f g).find? (f j) = some (g w) :=
  (find?_rekey hf).2 ⟨j, w, h, rfl, rfl⟩

theorem rekey_id (m : FlatMap K V) : m.rekey id id = m := by
  refine ext_find? fun k ↦ Option.ext fun v ↦ ?_
  rw [find?_rekey Function.injective_id.injOn]
  exact ⟨fun ⟨_, _, hw, hk, hv⟩ ↦ hk ▸ hv ▸ hw, fun hv ↦ ⟨k, v, hv, rfl, rfl⟩⟩

/-- **Sums under the new keys.** -/
theorem sum_rekey [AddCommMonoid M] (hf : Set.InjOn f m.keys) (F : K' → V' → M) :
    (m.rekey f g).sum F = m.sum fun k v ↦ F (f k) (g v) := by
  rw [rekey, sum_foldl_insert F (nodup_of_injOn hf) fun _ _ ↦ find?_empty _, sum_empty, zero_add]
  rfl

end FlatMap
