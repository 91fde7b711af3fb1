import Playchain.Lib.Control
import Playchain.Lib.Holdings
import Playchain.Evaluators.Games
import Playchain.Spec.Seats

/-!
# Cash at a table

The cash maps of a table, seen as finitely supported functions from players to amounts (`held`). A
map that the evaluators keep has only positive amounts of the core asset (`CashOk`); such a map is
determined by `held`.

The adjustments of a table are additions: **an adjustment that takes no more than there is** adds its
delta at the player and erases nothing negative (`adjustEntry_spec`). The lemmas about whole loops
(`startPlaying_spec`, `settlePlaying_spec`, `returnPlaying_spec`, `rollingCash_spec`) follow by
induction on the entries still to be moved.
-/

namespace Playchain

open Finsupp

/-- The map has positive amounts of the core asset only. -/
def CashOk (m : FlatMap PlayerId Asset) : Prop :=
  ∀ p v, m.find? p = some v → 0 < v.amount ∧ v.assetId = coreAsset

/-- The amounts of a map by player. -/
noncomputable def held (m : FlatMap PlayerId Asset) : PlayerId →₀ ℤ := m.holdings Asset.amount

theorem held_of_find?_some {m : FlatMap PlayerId Asset} {p : PlayerId} {v : Asset}
    (h : m.find? p = some v) : held m p = v.amount :=
  FlatMap.holdings_of_find?_some h _

theorem held_of_find?_none {m : FlatMap PlayerId Asset} {p : PlayerId} (h : m.find? p = none) :
    held m p = 0 :=
  FlatMap.holdings_of_find?_none h _

@[simp] theorem held_empty : held ∅ = 0 := FlatMap.holdings_empty _

theorem held_eq_getD (m : FlatMap PlayerId Asset) (p : PlayerId) :
    held m p = ((m.find? p).getD {}).amount := by
  rcases h : m.find? p with - | v
  · rw [held_of_find?_none h]; rfl
  · rw [held_of_find?_some h]; rfl

theorem held_insert (m : FlatMap PlayerId Asset) (p : PlayerId) (v : Asset) :
    held (m.insert p v) = (held m).update p v.amount :=
  FlatMap.holdings_insert ..

theorem held_erase (m : FlatMap PlayerId Asset) (p : PlayerId) :
    held (m.erase p) = (held m).update p 0 :=
  FlatMap.holdings_erase ..

/-- Setting a value is adding the difference. -/
theorem update_eq_add_single (f : PlayerId →₀ ℤ) (p : PlayerId) (x y : ℤ) (h : x = f p + y) :
    f.update p x = f + single p y := by
  ext q
  rw [update_apply, Finsupp.add_apply, single_apply]
  by_cases hq : q = p
  · rw [if_pos hq, if_pos hq.symm, hq, h]
  · rw [if_neg hq, if_neg (Ne.symm hq), add_zero]

namespace CashOk

variable {m : FlatMap PlayerId Asset}

theorem empty : CashOk ∅ := fun _ _ h ↦ by simp at h

theorem insert (h : CashOk m) {p : PlayerId} {v : Asset} (hv : 0 < v.amount)
    (ha : v.assetId = coreAsset) : CashOk (m.insert p v) := by
  intro q w hq
  rw [FlatMap.find?_insert] at hq
  split_ifs at hq
  · obtain rfl := Option.some.inj hq
    exact ⟨hv, ha⟩
  · exact h q w hq

theorem erase (h : CashOk m) (p : PlayerId) : CashOk (m.erase p) := by
  intro q w hq
  rw [FlatMap.find?_erase] at hq
  split_ifs at hq
  exact h q w hq

theorem held_nonneg (h : CashOk m) (p : PlayerId) : 0 ≤ held m p := by
  rcases hp : m.find? p with - | v
  · rw [held_of_find?_none hp]
  · rw [held_of_find?_some hp]
    exact (h p v hp).1.le

/-- A player has an entry exactly when the amount is positive. -/
theorem held_pos_iff (h : CashOk m) {p : PlayerId} : 0 < held m p ↔ m.contains p = true := by
  rcases hp : m.find? p with - | v
  · rw [held_of_find?_none hp, FlatMap.contains, hp]
    simp
  · rw [held_of_find?_some hp, FlatMap.contains, hp]
    simp [(h p v hp).1]

theorem find?_eq_some (h : CashOk m) {p : PlayerId} {v : Asset} (hp : m.find? p = some v) :
    v = ⟨held m p, coreAsset⟩ := by
  rw [held_of_find?_some hp, ← (h p v hp).2]

/-- Nobody holds anything exactly when the map is empty. -/
theorem eq_empty_of_held (h : CashOk m) (hm : held m = 0) : m = ∅ := by
  rw [← FlatMap.isEmpty_iff, FlatMap.isEmpty_iff_find?]
  intro p
  rcases hp : m.find? p with - | v
  · rfl
  · have hpos := (h p v hp).1
    rw [← held_of_find?_some hp, hm, coe_zero, Pi.zero_apply] at hpos
    exact absurd hpos (lt_irrefl _)

end CashOk

/-! ### One adjustment -/

/-- What an adjustment does, case by case. -/
theorem adjustEntry_cases {m : FlatMap PlayerId Asset} {p : PlayerId} {delta : Asset} {r : Adjusted}
    (h : adjustEntry m p delta = .ok r) :
    (m.find? p = none ∧ 0 < delta.amount ∧ delta.assetId = coreAsset ∧
      r = ⟨m.insert p ⟨delta.amount, coreAsset⟩, .opened, 0⟩) ∨
    (m.find? p = none ∧ delta.amount ≤ 0 ∧ r = ⟨m, .unchanged, 0⟩) ∨
    (∃ old, m.find? p = some old ∧ old.assetId = delta.assetId ∧
      old.amount + delta.amount < 1 ∧
      r = ⟨m.erase p, .closed, min 0 (old.amount + delta.amount)⟩) ∨
    (∃ old, m.find? p = some old ∧ old.assetId = delta.assetId ∧
      1 ≤ old.amount + delta.amount ∧
      r = ⟨m.insert p ⟨old.amount + delta.amount, old.assetId⟩, .unchanged, 0⟩) := by
  rw [adjustEntry] at h
  rcases hp : m.find? p with - | old
  · rw [hp] at h
    simp only at h
    split_ifs at h with hpos
    · obtain ⟨v, hv, hr⟩ := Except.bind_eq_ok.1 h
      obtain ⟨ha, rfl⟩ := Asset.add_eq_ok.1 hv
      refine Or.inl ⟨rfl, hpos, ha.symm, ?_⟩
      have hr' := Except.pure_eq_ok.1 hr
      simpa [coreAsset] using hr'.symm
    · exact Or.inr (Or.inl ⟨rfl, not_lt.1 hpos, (Except.pure_eq_ok.1 h).symm⟩)
  · rw [hp] at h
    simp only at h
    obtain ⟨v, hv, hr⟩ := Except.bind_eq_ok.1 h
    obtain ⟨ha, rfl⟩ := Asset.add_eq_ok.1 hv
    simp only at hr
    split_ifs at hr with hlt
    · exact Or.inr (Or.inr (Or.inl ⟨old, rfl, ha, hlt, (Except.pure_eq_ok.1 hr).symm⟩))
    · exact Or.inr (Or.inr (Or.inr ⟨old, rfl, ha, by omega, (Except.pure_eq_ok.1 hr).symm⟩))

/-- **An adjustment that takes no more than there is** adds its delta at the player, and nothing
negative is erased. -/
theorem adjustEntry_spec {m : FlatMap PlayerId Asset} {p : PlayerId} {delta : Asset} {r : Adjusted}
    (hm : CashOk m) (h : adjustEntry m p delta = .ok r) (henough : 0 ≤ held m p + delta.amount) :
    CashOk r.cash ∧ held r.cash = held m + single p delta.amount ∧ r.overdrawn = 0 := by
  obtain ⟨hp, hpos, ha, rfl⟩ | ⟨hp, hneg, rfl⟩ | ⟨old, hp, ha, hlt, rfl⟩ | ⟨old, hp, ha, hge, rfl⟩ :=
    adjustEntry_cases h
  · refine ⟨hm.insert hpos rfl, ?_, rfl⟩
    rw [held_insert]
    exact update_eq_add_single _ _ _ _ (by rw [held_of_find?_none hp, zero_add])
  · rw [held_of_find?_none hp] at henough
    have h0 : delta.amount = 0 := by omega
    exact ⟨hm, by rw [h0, single_zero, add_zero], rfl⟩
  · rw [held_of_find?_some hp] at henough
    have h0 : old.amount + delta.amount = 0 := by omega
    refine ⟨hm.erase p, ?_, by rw [h0]; rfl⟩
    rw [held_erase]
    exact update_eq_add_single _ _ _ _ (by rw [held_of_find?_some hp, h0])
  · refine ⟨hm.insert hge (hm p old hp).2, ?_, rfl⟩
    rw [held_insert]
    exact update_eq_add_single _ _ _ _ (by rw [held_of_find?_some hp])

/-- An adjustment in the core asset does not fail. -/
theorem adjustEntry_total {m : FlatMap PlayerId Asset} (hm : CashOk m) (p : PlayerId) {delta : Asset}
    (ha : delta.assetId = coreAsset) : ∃ r, adjustEntry m p delta = .ok r := by
  rw [adjustEntry]
  rcases hp : m.find? p with - | old
  · simp only
    split_ifs with hpos
    · exact ⟨_, by rw [Asset.add_eq_ok.2 ⟨ha.symm, rfl⟩]; rfl⟩
    · exact ⟨_, rfl⟩
  · simp only
    have hadd := Asset.add_eq_ok.2 ⟨(hm p old hp).2.trans ha.symm, rfl⟩
    rw [hadd, Except.ok_bind]
    split_ifs
    · exact ⟨_, rfl⟩
    · exact ⟨_, rfl⟩

/-! ### Adjustments of a table -/

/-- The table after the money in its two maps has changed. -/
def TableObject.withCash (t : TableObject) (cash playingCash : FlatMap PlayerId Asset)
    (places : ℕ) : TableObject :=
  { t with cash := cash, playingCash := playingCash, occupiedPlaces := places }

/-- Both maps of the table are in order. -/
structure TableObject.CashesOk (t : TableObject) : Prop where
  cash : CashOk t.cash
  playingCash : CashOk t.playingCash

/-- The table changes in its money only, and the maps stay in order. -/
structure CashMove (t t' : TableObject) : Prop where
  eq : t' = t.withCash t'.cash t'.playingCash t'.occupiedPlaces
  ok : t'.CashesOk
  seats : t.SeatsOk → t'.SeatsOk

theorem CashMove.refl {t : TableObject} (h : t.CashesOk) : CashMove t t := ⟨rfl, h, fun hs ↦ hs⟩

theorem CashMove.trans {t₁ t₂ t₃ : TableObject} (h : CashMove t₁ t₂) (h' : CashMove t₂ t₃) :
    CashMove t₁ t₃ := by
  refine ⟨?_, h'.ok, fun hs ↦ h'.seats (h.seats hs)⟩
  have h₂ := h'.eq
  rw [h.eq] at h₂
  exact h₂

theorem adjustCash_spec {t t' : TableObject} {p : PlayerId} {delta : Asset} (ht : t.CashesOk)
    (h : t.adjustCash p delta = .ok t') (henough : 0 ≤ held t.cash p + delta.amount) :
    CashMove t t' ∧ held t'.cash = held t.cash + single p delta.amount ∧
      t'.playingCash = t.playingCash := by
  have hseats : t.SeatsOk → t'.SeatsOk := fun hs ↦ hs.adjustCash h
  obtain ⟨r, hr, h⟩ := Except.bind_eq_ok.1 h
  obtain ⟨hok, hheld, hover⟩ := adjustEntry_spec ht.cash hr henough
  obtain rfl := Except.pure_eq_ok.1 h
  refine ⟨⟨?_, ⟨hok, ht.playingCash⟩, hseats⟩, hheld, rfl⟩
  rw [hover, add_zero]
  rfl

theorem adjustPlayingCash_spec {t t' : TableObject} {p : PlayerId} {delta : Asset}
    (ht : t.CashesOk) (h : t.adjustPlayingCash p delta = .ok t')
    (henough : 0 ≤ held t.playingCash p + delta.amount) :
    CashMove t t' ∧ held t'.playingCash = held t.playingCash + single p delta.amount ∧
      t'.cash = t.cash := by
  have hseats : t.SeatsOk → t'.SeatsOk := fun hs ↦ hs.adjustPlayingCash h
  obtain ⟨r, hr, h⟩ := Except.bind_eq_ok.1 h
  obtain ⟨hok, hheld, hover⟩ := adjustEntry_spec ht.playingCash hr henough
  obtain rfl := Except.pure_eq_ok.1 h
  refine ⟨⟨?_, ⟨ht.cash, hok⟩, hseats⟩, hheld, rfl⟩
  rw [hover, add_zero]
  rfl

theorem adjustCash_total {t : TableObject} (ht : t.CashesOk) (p : PlayerId) {delta : Asset}
    (ha : delta.assetId = coreAsset) : ∃ t', t.adjustCash p delta = .ok t' := by
  obtain ⟨r, hr⟩ := adjustEntry_total ht.cash p ha
  exact ⟨_, by rw [TableObject.adjustCash, hr]; rfl⟩

theorem adjustPlayingCash_total {t : TableObject} (ht : t.CashesOk) (p : PlayerId) {delta : Asset}
    (ha : delta.assetId = coreAsset) : ∃ t', t.adjustPlayingCash p delta = .ok t' := by
  obtain ⟨r, hr⟩ := adjustEntry_total ht.playingCash p ha
  exact ⟨_, by rw [TableObject.adjustPlayingCash, hr]; rfl⟩

/-! ### Loops over the entries of a map -/

/-- The amounts of a list of entries. -/
noncomputable def entriesHeld (l : List (PlayerId × Asset)) : PlayerId →₀ ℤ :=
  (l.map fun p ↦ single p.1 p.2.amount).sum

@[simp] theorem entriesHeld_nil : entriesHeld [] = 0 := rfl

@[simp] theorem entriesHeld_cons (p : PlayerId × Asset) (l : List (PlayerId × Asset)) :
    entriesHeld (p :: l) = single p.1 p.2.amount + entriesHeld l := by
  rw [entriesHeld, List.map_cons, List.sum_cons, entriesHeld]

theorem entriesHeld_toList (m : FlatMap PlayerId Asset) : entriesHeld m.toList = held m :=
  (m.holdings_eq_sum_single _).symm

theorem entriesHeld_nonneg {l : List (PlayerId × Asset)} (h : ∀ p ∈ l, 0 ≤ p.2.amount)
    (q : PlayerId) : 0 ≤ entriesHeld l q := by
  induction l with
  | nil => simp
  | cons p l ih =>
    rw [entriesHeld_cons, Finsupp.add_apply, single_apply]
    have h₁ := h p List.mem_cons_self
    have h₂ := ih fun r hr ↦ h r (List.mem_cons_of_mem _ hr)
    split_ifs <;> omega

/-- The next entry is part of the amounts still to be moved. -/
theorem le_entriesHeld_cons {p : PlayerId × Asset} {l : List (PlayerId × Asset)}
    (h : ∀ q ∈ p :: l, 0 ≤ q.2.amount) : p.2.amount ≤ entriesHeld (p :: l) p.1 := by
  rw [entriesHeld_cons, Finsupp.add_apply, single_eq_same]
  have := entriesHeld_nonneg (fun q hq ↦ h q (List.mem_cons_of_mem _ hq)) p.1
  omega

theorem CashOk.of_mem {m : FlatMap PlayerId Asset} (h : CashOk m) {p : PlayerId × Asset}
    (hp : p ∈ m.toList) : 0 < p.2.amount ∧ p.2.assetId = coreAsset :=
  h p.1 p.2 (FlatMap.find?_eq_some_iff.2 hp)

/-- Moving cash into the game: what every player brings leaves the cash at the table and enters the
cash in the game. -/
theorem startPlaying_spec {t : TableObject} {c : FlatMap PlayerId Asset} (ht : t.CashesOk)
    (hc : CashOk c) (henough : ∀ p, held c p ≤ held t.cash p) :
    ∃ t', startPlaying c t = .ok t' ∧ CashMove t t' ∧ held t'.cash = held t.cash - held c ∧
      held t'.playingCash = held t.playingCash + held c := by
  let I (l : List (PlayerId × Asset)) (s : TableObject) : Prop :=
    CashMove t s ∧ (∀ p ∈ l, 0 < p.2.amount ∧ p.2.assetId = coreAsset) ∧
      held s.cash = held t.cash - held c + entriesHeld l ∧
      held s.playingCash + entriesHeld l = held t.playingCash + held c
  have hstep : ∀ p l s, I (p :: l) s → ∃ s', startPlayer s p = .ok s' ∧ I l s' := by
    rintro p l s ⟨hmove, hpos, hcash, hplay⟩
    obtain ⟨hp, hcore⟩ := hpos p List.mem_cons_self
    obtain ⟨s₁, hs₁⟩ := adjustPlayingCash_total hmove.ok p.1 hcore
    obtain ⟨hmove₁, hplay₁, hcash₁⟩ := adjustPlayingCash_spec hmove.ok hs₁
      (by have := hmove.ok.playingCash.held_nonneg p.1; omega)
    obtain ⟨s₂, hs₂⟩ := adjustCash_total hmove₁.ok p.1
      (show (-p.2).assetId = coreAsset from hcore)
    -- the table still has what the remaining entries take
    have hle : p.2.amount ≤ held s.cash p.1 := by
      have h₁ := le_entriesHeld_cons fun q hq ↦ (hpos q hq).1.le
      have h₂ := henough p.1
      rw [hcash, Finsupp.add_apply, Finsupp.sub_apply]
      omega
    obtain ⟨hmove₂, hcash₂, hplay₂⟩ := adjustCash_spec hmove₁.ok hs₂
      (by rw [hcash₁, Asset.neg_amount]; omega)
    refine ⟨s₂, by rw [startPlayer, hs₁, Except.ok_bind, hs₂], hmove.trans (hmove₁.trans hmove₂),
      fun q hq ↦ hpos q (List.mem_cons_of_mem _ hq), ?_, ?_⟩
    · rw [hcash₂, hcash₁, hcash, entriesHeld_cons, Asset.neg_amount, single_neg]
      abel
    · rw [hplay₂, hplay₁, ← hplay, entriesHeld_cons]
      abel
  have hI : I c.toList t := by
    refine ⟨CashMove.refl ht, fun p hp ↦ hc.of_mem hp, ?_, ?_⟩
    · rw [entriesHeld_toList]; abel
    · rw [entriesHeld_toList]
  obtain ⟨t', h, hmove, -, hcash, hplay⟩ := (Except.Ensures.foldlM_suffix I
    (fun a l s hs ↦ .of_exists (hstep a l s hs)) hI).exists_ok
  exact ⟨t', h, hmove, by rw [hcash, entriesHeld_nil, add_zero],
    by rw [← hplay, entriesHeld_nil, add_zero]⟩

/-- Returning cash to the table, entry by entry. -/
theorem returnPlaying_spec {t : TableObject} {c : FlatMap PlayerId Asset} (ht : t.CashesOk)
    (hc : CashOk c) :
    ∃ t', c.toList.foldlM (fun t p ↦ TableObject.adjustCash t p.1 p.2) t = .ok t' ∧
      CashMove t t' ∧ held t'.cash = held t.cash + held c ∧ t'.playingCash = t.playingCash := by
  let I (l : List (PlayerId × Asset)) (s : TableObject) : Prop :=
    CashMove t s ∧ (∀ p ∈ l, 0 < p.2.amount ∧ p.2.assetId = coreAsset) ∧
      held s.cash + entriesHeld l = held t.cash + held c ∧ s.playingCash = t.playingCash
  have hstep : ∀ p l s, I (p :: l) s → ∃ s', s.adjustCash p.1 p.2 = Except.ok s' ∧ I l s' := by
    rintro p l s ⟨hmove, hpos, hcash, hplay⟩
    obtain ⟨hp, hcore⟩ := hpos p List.mem_cons_self
    obtain ⟨s₁, hs₁⟩ := adjustCash_total hmove.ok p.1 hcore
    obtain ⟨hmove₁, hcash₁, hplay₁⟩ := adjustCash_spec hmove.ok hs₁
      (by have := hmove.ok.cash.held_nonneg p.1; omega)
    refine ⟨s₁, hs₁, hmove.trans hmove₁, fun q hq ↦ hpos q (List.mem_cons_of_mem _ hq), ?_,
      hplay₁.trans hplay⟩
    rw [hcash₁, ← hcash, entriesHeld_cons]
    abel
  have hI : I c.toList t :=
    ⟨CashMove.refl ht, fun p hp ↦ hc.of_mem hp, by rw [entriesHeld_toList], rfl⟩
  obtain ⟨t', h, hmove, -, hcash, hplay⟩ := (Except.Ensures.foldlM_suffix I
    (fun a l s hs ↦ .of_exists (hstep a l s hs)) hI).exists_ok
  exact ⟨t', h, hmove, by rw [← hcash, entriesHeld_nil, add_zero], hplay⟩

/-- The cash in the game and at the table, together. -/
theorem rollingCash_spec {t : TableObject} (ht : t.CashesOk) :
    ∃ c, rollingCash t = .ok c ∧ CashOk c ∧ held c = held t.playingCash + held t.cash := by
  let I (l : List (PlayerId × Asset)) (c : FlatMap PlayerId Asset) : Prop :=
    CashOk c ∧ (∀ p ∈ l, 0 < p.2.amount ∧ p.2.assetId = coreAsset) ∧
      held c + entriesHeld l = held t.playingCash + held t.cash
  have hstep : ∀ p l c, I (p :: l) c → ∃ c', (do
      let sum ← ((c.find? p.1).getD {}).add p.2
      return c.insert p.1 sum : Except ChainError (FlatMap PlayerId Asset)) = .ok c' ∧ I l c' := by
    rintro p l c ⟨hok, hpos, hheld⟩
    obtain ⟨hp, hcore⟩ := hpos p List.mem_cons_self
    have hasset : ((c.find? p.1).getD {}).assetId = coreAsset := by
      rcases hf : c.find? p.1 with - | v
      · rfl
      · exact (hok p.1 v hf).2
    have hnonneg := hok.held_nonneg p.1
    rw [held_eq_getD] at hnonneg
    let sum : Asset := ⟨((c.find? p.1).getD {}).amount + p.2.amount, coreAsset⟩
    have hadd : ((c.find? p.1).getD {}).add p.2 = .ok sum :=
      Asset.add_eq_ok.2 ⟨hasset.trans hcore.symm, by rw [hasset]⟩
    have hsum : 0 < sum.amount := by
      show 0 < ((c.find? p.1).getD {}).amount + p.2.amount
      omega
    refine ⟨c.insert p.1 sum, by rw [hadd]; rfl, hok.insert hsum rfl,
      fun q hq ↦ hpos q (List.mem_cons_of_mem _ hq), ?_⟩
    rw [held_insert, update_eq_add_single _ _ _ p.2.amount (by rw [held_eq_getD]), ← hheld,
      entriesHeld_cons]
    abel
  have hI : I t.cash.toList t.playingCash :=
    ⟨ht.playingCash, fun p hp ↦ ht.cash.of_mem hp, by rw [entriesHeld_toList]⟩
  obtain ⟨c, h, hok, -, hheld⟩ := (Except.Ensures.foldlM_suffix I
    (fun a l s hs ↦ .of_exists (hstep a l s hs)) hI).exists_ok
  exact ⟨c, h, hok, by rw [← hheld, entriesHeld_nil, add_zero]⟩

/-! ### The end of a game -/

/-- The stakes of the players of a result: what each of them has in the game. -/
noncomputable def stakes (playing : FlatMap PlayerId Asset) (l : List (PlayerId × Asset)) :
    PlayerId →₀ ℤ :=
  (l.map fun p ↦ single p.1 (held playing p.1)).sum

@[simp] theorem stakes_nil (playing : FlatMap PlayerId Asset) : stakes playing [] = 0 := rfl

@[simp] theorem stakes_cons (playing : FlatMap PlayerId Asset) (p : PlayerId × Asset)
    (l : List (PlayerId × Asset)) :
    stakes playing (p :: l) = single p.1 (held playing p.1) + stakes playing l := by
  rw [stakes, List.map_cons, List.sum_cons, stakes]

/-- The first loop at the end of a game: each player of the result gives up the stake and receives
the new amount. -/
theorem settleResult_spec {t : TableObject} {c : FlatMap PlayerId Asset} (ht : t.CashesOk)
    (hc : ∀ p ∈ c.toList, 0 ≤ p.2.amount ∧ p.2.assetId = coreAsset ∧ 0 < held t.playingCash p.1) :
    ∃ t', c.toList.foldlM settlePlayer t = .ok t' ∧ CashMove t t' ∧
      held t'.cash = held t.cash + held c ∧
      held t'.playingCash = held t.playingCash - stakes t.playingCash c.toList := by
  let I (l : List (PlayerId × Asset)) (s : TableObject) : Prop :=
    CashMove t s ∧ (l.map Prod.fst).Nodup ∧
      (∀ p ∈ l, 0 ≤ p.2.amount ∧ p.2.assetId = coreAsset ∧ 0 < held t.playingCash p.1 ∧
        held s.playingCash p.1 = held t.playingCash p.1) ∧
      held s.cash + entriesHeld l = held t.cash + held c ∧
      held s.playingCash = held t.playingCash - stakes t.playingCash c.toList +
        stakes t.playingCash l
  have hstep : ∀ p l s, I (p :: l) s → ∃ s', settlePlayer s p = .ok s' ∧ I l s' := by
    rintro p l s ⟨hmove, hnd, hpos, hcash, hplay⟩
    obtain ⟨hp, hcore, hstake, hsame⟩ := hpos p List.mem_cons_self
    -- first the new amount
    obtain ⟨s₁, hs₁, hmove₁, hcash₁, hplay₁⟩ : ∃ s₁,
        (if 0 < p.2.amount then s.adjustCash p.1 p.2 else pure s) = Except.ok s₁ ∧
        CashMove s s₁ ∧ held s₁.cash = held s.cash + single p.1 p.2.amount ∧
        s₁.playingCash = s.playingCash := by
      split_ifs with h
      · obtain ⟨s₁, hs₁⟩ := adjustCash_total hmove.ok p.1 hcore
        exact ⟨s₁, hs₁, adjustCash_spec hmove.ok hs₁
          (by have := hmove.ok.cash.held_nonneg p.1; omega)⟩
      · have h0 : p.2.amount = 0 := by omega
        exact ⟨s, rfl, CashMove.refl hmove.ok, by rw [h0, single_zero, add_zero], rfl⟩
    -- then the stake
    have hcontains : s₁.playingCash.contains p.1 = true := by
      rw [hplay₁, ← hmove.ok.playingCash.held_pos_iff, hsame]
      exact hstake
    obtain ⟨old, hold⟩ := FlatMap.mem_keys.1 (FlatMap.contains_iff.1 hcontains)
    obtain rfl := hmove₁.ok.playingCash.find?_eq_some hold
    have hamount : held s₁.playingCash p.1 = held t.playingCash p.1 := by rw [hplay₁, hsame]
    obtain ⟨s₂, hs₂⟩ := adjustPlayingCash_total hmove₁.ok p.1
      (show (-(⟨held s₁.playingCash p.1, coreAsset⟩ : Asset)).assetId = coreAsset from rfl)
    obtain ⟨hmove₂, hplay₂, hcash₂⟩ := adjustPlayingCash_spec hmove₁.ok hs₂
      (add_neg_cancel (held s₁.playingCash p.1)).ge
    rw [Asset.neg_amount, hamount, hplay₁] at hplay₂
    refine ⟨s₂, ?_, hmove.trans (hmove₁.trans hmove₂), (List.nodup_cons.1 hnd).2, ?_, ?_, ?_⟩
    · rw [settlePlayer, hs₁, Except.ok_bind]
      simp only [hcontains, hold, if_true, Option.getD_some]
      exact hs₂
    · intro q hq
      obtain ⟨h₁, h₂, h₃, h₄⟩ := hpos q (List.mem_cons_of_mem _ hq)
      refine ⟨h₁, h₂, h₃, ?_⟩
      have hne : q.1 ≠ p.1 := fun h ↦ (List.nodup_cons.1 hnd).1 (h ▸ List.mem_map_of_mem hq)
      rw [hplay₂, Finsupp.add_apply, single_eq_of_ne hne, add_zero, h₄]
    · rw [hcash₂, hcash₁, ← hcash, entriesHeld_cons]
      abel
    · rw [hplay₂, hplay, stakes_cons, single_neg]
      abel
  have hI : I c.toList t := by
    refine ⟨CashMove.refl ht, c.nodup_fst, fun p hp ↦ ?_, by rw [entriesHeld_toList], by abel⟩
    obtain ⟨h₁, h₂, h₃⟩ := hc p hp
    exact ⟨h₁, h₂, h₃, rfl⟩
  obtain ⟨t', h, hmove, -, -, hcash, hplay⟩ := (Except.Ensures.foldlM_suffix I
    (fun a l s hs ↦ .of_exists (hstep a l s hs)) hI).exists_ok
  exact ⟨t', h, hmove, by rw [← hcash, entriesHeld_nil, add_zero],
    by rw [hplay, stakes_nil, add_zero]⟩

/-- The second loop: everything that is left in the game goes back to the table. -/
theorem returnRest_spec {t : TableObject} (ht : t.CashesOk) :
    ∃ t', t.playingCash.toList.foldlM returnPlayer t = .ok t' ∧ CashMove t t' ∧
      held t'.cash = held t.cash + held t.playingCash ∧ t'.playingCash = ∅ := by
  let I (l : List (PlayerId × Asset)) (s : TableObject) : Prop :=
    CashMove t s ∧ (∀ p ∈ l, 0 < p.2.amount ∧ p.2.assetId = coreAsset) ∧
      held s.cash + entriesHeld l = held t.cash + held t.playingCash ∧
      held s.playingCash = entriesHeld l
  have hstep : ∀ p l s, I (p :: l) s → ∃ s', returnPlayer s p = .ok s' ∧ I l s' := by
    rintro p l s ⟨hmove, hpos, hcash, hplay⟩
    obtain ⟨hp, hcore⟩ := hpos p List.mem_cons_self
    obtain ⟨s₁, hs₁⟩ := adjustPlayingCash_total hmove.ok p.1
      (show (-p.2).assetId = coreAsset from hcore)
    obtain ⟨hmove₁, hplay₁, hcash₁⟩ := adjustPlayingCash_spec hmove.ok hs₁ (by
      have := le_entriesHeld_cons fun q hq ↦ (hpos q hq).1.le
      rw [hplay, Asset.neg_amount]
      omega)
    obtain ⟨s₂, hs₂⟩ := adjustCash_total hmove₁.ok p.1 hcore
    obtain ⟨hmove₂, hcash₂, hplay₂⟩ := adjustCash_spec hmove₁.ok hs₂
      (by have := hmove₁.ok.cash.held_nonneg p.1; omega)
    refine ⟨s₂, by rw [returnPlayer, hs₁, Except.ok_bind, hs₂],
      hmove.trans (hmove₁.trans hmove₂), fun q hq ↦ hpos q (List.mem_cons_of_mem _ hq), ?_, ?_⟩
    · rw [hcash₂, hcash₁, ← hcash, entriesHeld_cons]
      abel
    · rw [hplay₂, hplay₁, hplay, entriesHeld_cons, Asset.neg_amount, single_neg]
      abel
  have hI : I t.playingCash.toList t := by
    refine ⟨CashMove.refl ht, fun p hp ↦ ht.playingCash.of_mem hp, ?_, ?_⟩
    · rw [entriesHeld_toList]
    · rw [entriesHeld_toList]
  obtain ⟨t', h, hmove, -, hcash, hplay⟩ := (Except.Ensures.foldlM_suffix I
    (fun a l s hs ↦ .of_exists (hstep a l s hs)) hI).exists_ok
  exact ⟨t', h, hmove, by rw [← hcash, entriesHeld_nil, add_zero],
    hmove.ok.playingCash.eq_empty_of_held (by rw [hplay, entriesHeld_nil])⟩

/-- Moving cash out of the game: players of the result leave with their new amount instead of their
stake, everyone else with the stake, and nothing stays in the game. -/
theorem settlePlaying_spec {t : TableObject} {c : FlatMap PlayerId Asset} (ht : t.CashesOk)
    (hc : ∀ p ∈ c.toList, 0 ≤ p.2.amount ∧ p.2.assetId = coreAsset ∧ 0 < held t.playingCash p.1) :
    ∃ t', settlePlaying c t = .ok t' ∧ CashMove t t' ∧ t'.playingCash = ∅ ∧
      held t'.cash = held t.cash + held c + (held t.playingCash - stakes t.playingCash c.toList) := by
  obtain ⟨t₁, h₁, hmove₁, hcash₁, hplay₁⟩ := settleResult_spec ht hc
  obtain ⟨t₂, h₂, hmove₂, hcash₂, hplay₂⟩ := returnRest_spec hmove₁.ok
  refine ⟨t₂, by rw [settlePlaying, h₁, Except.ok_bind, h₂], hmove₁.trans hmove₂, hplay₂, ?_⟩
  rw [hcash₂, hcash₁, hplay₁]

end Playchain
