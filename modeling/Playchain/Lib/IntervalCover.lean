import Playchain.Lib.FlatMap

/-!
# Disjoint intervals that cover weighted points

Points with weights, and records of intervals kept under their lower ends. `Covers` says that the
intervals are disjoint, that every point lies in one of them, and that a record has the total weight of
the points of its interval. A point is added to a new record, which may absorb an old one (`Covers.add`);
it is taken out of its record (`Covers.takeOut`), or its record is dropped with it (`Covers.drop`).

A record may be without weight only when it contains an exempt position.
-/

/-- How records are intervals and how points have positions. -/
structure IntervalShape (K ρ α : Type*) where
  lo : ρ → K
  hi : ρ → K
  total : ρ → ℤ
  pos : α → K
  weight : α → ℤ
  /-- What else is asked of a record. -/
  Good : ρ → Prop

namespace IntervalShape

variable {K ρ α ι : Type*} [LinearOrder K] [LinearOrder ι] (s : IntervalShape K ρ α)

/-- A position in the interval of a record. -/
def Within (r : ρ) (x : K) : Prop := s.lo r ≤ x ∧ x ≤ s.hi r

instance (r : ρ) (x : K) : Decidable (s.Within r x) := inferInstanceAs (Decidable (_ ∧ _))

/-- Two intervals without a common position. -/
def Clear (r a : ρ) : Prop := s.hi r < s.lo a ∨ s.hi a < s.lo r

/-- The weight of the points in the interval of a record. -/
def weightWithin (points : FlatMap ι α) (r : ρ) : ℤ :=
  points.sum fun _ p ↦ if s.Within r (s.pos p) then s.weight p else 0

/-- **The records cover the points.** -/
structure Covers (points : FlatMap ι α) (exempt : Set K) (records : K → Option ρ) : Prop where
  key : ∀ {x r}, records x = some r → s.lo r = x
  le : ∀ {x r}, records x = some r → s.lo r ≤ s.hi r
  good : ∀ {x r}, records x = some r → s.Good r
  disjoint : ∀ {x y r r'}, records x = some r → records y = some r' → x < y → s.hi r < y
  covered : ∀ {i p}, points.find? i = some p → ∃ x r, records x = some r ∧ s.Within r (s.pos p)
  total : ∀ {x r}, records x = some r → s.total r = s.weightWithin points r
  positive : ∀ {x r}, records x = some r → 0 < s.total r ∨ ∃ y ∈ exempt, s.Within r y

variable {s} {points : FlatMap ι α} {exempt : Set K} {records records' : K → Option ρ} {r a : ρ}
  {x : K} {i : ι} {p : α}

theorem Clear.not_within (h : s.Clear r a) (hx : s.Within a x) : ¬s.Within r x := by
  intro hx'
  rcases h with h | h
  · exact absurd (hx'.2.trans_lt h) (not_lt.2 hx.1)
  · exact absurd (hx.2.trans_lt h) (not_lt.2 hx'.1)

theorem weightWithin_insert (h : points.find? i = none) :
    s.weightWithin (points.insert i p) r =
      (if s.Within r (s.pos p) then s.weight p else 0) + s.weightWithin points r :=
  FlatMap.sum_insert_of_find?_none _ h p

theorem weightWithin_eq_add_erase (h : points.find? i = some p) :
    s.weightWithin points r =
      (if s.Within r (s.pos p) then s.weight p else 0) + s.weightWithin (points.erase i) r :=
  FlatMap.sum_eq_add_erase _ h

theorem weightWithin_nonneg (hpos : ∀ i p, points.find? i = some p → 0 < s.weight p) :
    0 ≤ s.weightWithin points r := by
  refine FlatMap.sum_nonneg fun i p hp ↦ ?_
  split_ifs
  · exact (hpos i p hp).le
  · exact le_rfl

/-- Without weight there are no points. -/
theorem not_within_of_weightWithin_eq_zero (hpos : ∀ i p, points.find? i = some p → 0 < s.weight p)
    (hzero : s.weightWithin points r = 0) (hp : points.find? i = some p) : ¬s.Within r (s.pos p) := by
  intro hin
  have hrest : 0 ≤ s.weightWithin (points.erase i) r := by
    refine weightWithin_nonneg fun j q hq ↦ ?_
    rw [FlatMap.find?_erase] at hq
    split_ifs at hq
    exact hpos j q hq
  have hweight := hpos i p hp
  rw [weightWithin_eq_add_erase hp, if_pos hin] at hzero
  omega

namespace Covers

/-- Two records with a common position are one. -/
theorem eq_of_within (h : s.Covers points exempt records) {y : K} {r' : ρ} (hr : records x = some r)
    (hr' : records y = some r') {z : K} (hz : s.Within r z) (hz' : s.Within r' z) : x = y := by
  rcases lt_trichotomy x y with hlt | heq | hlt
  · have hlo := h.key hr'
    exact absurd (hz.2.trans_lt (h.disjoint hr hr' hlt)) (not_lt.2 (hlo ▸ hz'.1))
  · exact heq
  · have hlo := h.key hr
    exact absurd (hz'.2.trans_lt (h.disjoint hr' hr hlt)) (not_lt.2 (hlo ▸ hz.1))

/-- Different records are clear of each other. -/
theorem clear (h : s.Covers points exempt records) {y : K} {r' : ρ} (hr : records x = some r)
    (hr' : records y = some r') (hne : x ≠ y) : s.Clear r r' := by
  rcases hne.lt_or_gt with hlt | hlt
  · exact .inl (h.key hr' ▸ h.disjoint hr hr' hlt)
  · exact .inr (h.key hr ▸ h.disjoint hr' hr hlt)

/-- The points in an interval that absorbs a record are those of the record. -/
theorem weightWithin_absorb (h : s.Covers points exempt records) {old : Option ρ}
    (hold : ∀ r, old = some r → records (s.lo r) = some r ∧ s.lo a ≤ s.lo r ∧ s.hi r ≤ s.hi a)
    (hclear : ∀ x r, records x = some r → old = some r ∨ s.Clear r a) :
    s.weightWithin points a = old.elim 0 s.total := by
  cases old with
  | none =>
    refine (FlatMap.sum_congr fun i p hp ↦ ?_).trans (points.sum_zero)
    obtain ⟨x, r, hr, hin⟩ := h.covered hp
    rcases hclear x r hr with habsorbed | hclear
    · cases habsorbed
    · exact if_neg fun ha ↦ hclear.not_within ha hin
  | some r =>
    obtain ⟨hr, hlo, hhi⟩ := hold r rfl
    rw [Option.elim_some, h.total hr]
    refine FlatMap.sum_congr fun i p hp ↦ ?_
    obtain ⟨x, r', hr', hin⟩ := h.covered hp
    rcases hclear x r' hr' with habsorbed | hclear
    · obtain rfl := Option.some.inj habsorbed
      rw [if_pos hin, if_pos ⟨hlo.trans hin.1, hin.2.trans hhi⟩]
    · have hout : ¬s.Within a (s.pos p) := fun ha ↦ hclear.not_within ha hin
      rw [if_neg hout, if_neg fun hr ↦ hout ⟨hlo.trans hr.1, hr.2.trans hhi⟩]

/-- **A point is added** to a record that is new or absorbs an old one. -/
theorem add (h : s.Covers points exempt records) (a : ρ) (old : Option ρ)
    (hpos : ∀ i p, points.find? i = some p → 0 < s.weight p) (hi : points.find? i = none)
    (hp : 0 < s.weight p) (hin : s.Within a (s.pos p)) (hgood : s.Good a)
    (hold : ∀ r, old = some r → records (s.lo r) = some r ∧ s.lo a ≤ s.lo r ∧ s.hi r ≤ s.hi a)
    (hclear : ∀ x r, records x = some r → old = some r ∨ s.Clear r a)
    (htotal : s.total a = s.weight p + old.elim 0 s.total)
    (hrecords : ∀ x, records' x = if x = s.lo a then some a else
      if old.map s.lo = some x then none else records x)
    (hexempt : ∀ x ∈ exempt, s.Within a x) : s.Covers (points.insert i p) ∅ records' := by
  have hsum : s.total a = s.weightWithin (points.insert i p) a := by
    rw [weightWithin_insert hi, if_pos hin, h.weightWithin_absorb hold hclear, htotal]
  -- the other records are old ones, clear of the new one
  have hcases {x : K} {r : ρ} (hr : records' x = some r) :
      (x = s.lo a ∧ r = a) ∨ (x ≠ s.lo a ∧ records x = some r ∧ s.Clear r a) := by
    rw [hrecords] at hr
    split_ifs at hr with hx hmap
    · exact .inl ⟨hx, (Option.some.inj hr).symm⟩
    · refine .inr ⟨hx, hr, (hclear x r hr).resolve_left fun habsorbed ↦ hmap ?_⟩
      rw [habsorbed, Option.map_some, h.key hr]
  have hself : records' (s.lo a) = some a := by rw [hrecords, if_pos rfl]
  refine ⟨fun {x r} hr ↦ ?_, fun {x r} hr ↦ ?_, fun {x r} hr ↦ ?_, fun {x y r r'} hr hr' hlt ↦ ?_,
    fun {j q} hq ↦ ?_, fun {x r} hr ↦ ?_, fun {x r} hr ↦ ?_⟩
  · rcases hcases hr with ⟨rfl, rfl⟩ | ⟨-, hr, -⟩
    · rfl
    · exact h.key hr
  · rcases hcases hr with ⟨rfl, rfl⟩ | ⟨-, hr, -⟩
    · exact hin.1.trans hin.2
    · exact h.le hr
  · rcases hcases hr with ⟨rfl, rfl⟩ | ⟨-, hr, -⟩
    · exact hgood
    · exact h.good hr
  · rcases hcases hr with ⟨rfl, rfl⟩ | ⟨-, hr, hclear⟩
    · rcases hcases hr' with ⟨rfl, rfl⟩ | ⟨-, hr', hclear'⟩
      · exact absurd hlt (lt_irrefl _)
      · rw [← h.key hr'] at hlt ⊢
        refine hclear'.resolve_left fun hbelow ↦ ?_
        exact absurd ((h.le hr').trans_lt hbelow) (not_lt.2 hlt.le)
    · rcases hcases hr' with ⟨rfl, rfl⟩ | ⟨-, hr', -⟩
      · refine hclear.resolve_right fun habove ↦ ?_
        rw [← h.key hr] at hlt
        exact absurd ((hin.1.trans hin.2).trans_lt habove) (not_lt.2 hlt.le)
      · exact h.disjoint hr hr' hlt
  · rw [FlatMap.find?_insert] at hq
    split_ifs at hq with hj
    · obtain rfl := Option.some.inj hq
      exact ⟨s.lo a, a, hself, hin⟩
    · obtain ⟨x, r, hr, hwithin⟩ := h.covered hq
      rcases hclear x r hr with habsorbed | hclear
      · obtain ⟨-, hlo, hhi⟩ := hold r habsorbed
        exact ⟨s.lo a, a, hself, hlo.trans hwithin.1, hwithin.2.trans hhi⟩
      · refine ⟨x, r, ?_, hwithin⟩
        have hxa : x ≠ s.lo a := by
          rintro rfl
          exact hclear.not_within ⟨le_rfl, hin.1.trans hin.2⟩ ⟨(h.key hr).le, (h.key hr) ▸ h.le hr⟩
        rw [hrecords, if_neg hxa, if_neg, hr]
        intro hmap
        obtain ⟨r', hr', rfl⟩ := Option.map_eq_some_iff.1 hmap
        obtain ⟨hold', hlo, hhi⟩ := hold r' hr'
        obtain rfl := Option.some.inj (hold'.symm.trans hr)
        exact hclear.not_within ⟨hlo, (h.le hr).trans hhi⟩ ⟨le_rfl, h.le hr⟩
  · rcases hcases hr with ⟨rfl, rfl⟩ | ⟨-, hr, hclear⟩
    · exact hsum
    · rw [weightWithin_insert hi, if_neg (hclear.not_within hin), zero_add]
      exact h.total hr
  · left
    rcases hcases hr with ⟨rfl, rfl⟩ | ⟨-, hr, hclear⟩
    · rw [hsum, weightWithin_insert hi, if_pos hin]
      have := weightWithin_nonneg (r := r) hpos
      omega
    · exact (h.positive hr).resolve_right fun ⟨y, hy, hwithin⟩ ↦
        hclear.not_within (hexempt y hy) hwithin

/-- **A point is taken out of its record**, which stays. -/
theorem takeOut (h : s.Covers points ∅ records) (a : ρ) (hi : points.find? i = some p)
    (hr : records x = some r) (hin : s.Within r (s.pos p)) (hlo : s.lo a = s.lo r)
    (hhi : s.hi a = s.hi r) (hgood : s.Good a) (htotal : s.total a = s.total r - s.weight p)
    (hrecords : ∀ y, records' y = if y = x then some a else records y)
    (hpositive : 0 < s.total a ∨ s.pos p ∈ exempt) : s.Covers (points.erase i) exempt records' := by
  have hwithin (z : K) : s.Within a z ↔ s.Within r z := by
    unfold Within
    rw [hlo, hhi]
  have hsum {y : K} {r' : ρ} (hr' : records y = some r') (hne : y ≠ x) :
      s.weightWithin points r' = s.weightWithin (points.erase i) r' := by
    rw [weightWithin_eq_add_erase hi, if_neg ((h.clear hr' hr hne).not_within hin), zero_add]
  have hcases {y : K} {r' : ρ} (hr' : records' y = some r') :
      (y = x ∧ r' = a) ∨ (y ≠ x ∧ records y = some r') := by
    rw [hrecords] at hr'
    split_ifs at hr' with hy
    · exact .inl ⟨hy, (Option.some.inj hr').symm⟩
    · exact .inr ⟨hy, hr'⟩
  refine ⟨fun {y r'} hr' ↦ ?_, fun {y r'} hr' ↦ ?_, fun {y r'} hr' ↦ ?_,
    fun {y z r₁ r₂} h₁ h₂ hlt ↦ ?_, fun {j q} hq ↦ ?_, fun {y r'} hr' ↦ ?_, fun {y r'} hr' ↦ ?_⟩
  · rcases hcases hr' with ⟨rfl, rfl⟩ | ⟨-, hr'⟩
    · exact hlo.trans (h.key hr)
    · exact h.key hr'
  · rcases hcases hr' with ⟨rfl, rfl⟩ | ⟨-, hr'⟩
    · rw [hlo, hhi]
      exact h.le hr
    · exact h.le hr'
  · rcases hcases hr' with ⟨rfl, rfl⟩ | ⟨-, hr'⟩
    · exact hgood
    · exact h.good hr'
  · rcases hcases h₁ with ⟨rfl, rfl⟩ | ⟨-, h₁⟩
    · rcases hcases h₂ with ⟨rfl, rfl⟩ | ⟨-, h₂⟩
      · exact absurd hlt (lt_irrefl _)
      · exact hhi ▸ h.disjoint hr h₂ hlt
    · rcases hcases h₂ with ⟨rfl, rfl⟩ | ⟨-, h₂⟩
      · exact h.disjoint h₁ hr hlt
      · exact h.disjoint h₁ h₂ hlt
  · rw [FlatMap.find?_erase] at hq
    split_ifs at hq
    obtain ⟨y, r', hr', hq⟩ := h.covered hq
    by_cases hy : y = x
    · subst hy
      obtain rfl := Option.some.inj (hr.symm.trans hr')
      exact ⟨y, a, by rw [hrecords, if_pos rfl], (hwithin _).2 hq⟩
    · exact ⟨y, r', by rw [hrecords, if_neg hy, hr'], hq⟩
  · rcases hcases hr' with ⟨rfl, rfl⟩ | ⟨hne, hr'⟩
    · have hsame : s.weightWithin (points.erase i) r' = s.weightWithin (points.erase i) r :=
        FlatMap.sum_congr fun j q _ ↦ if_congr (hwithin _) rfl rfl
      rw [htotal, h.total hr, weightWithin_eq_add_erase hi, if_pos hin, hsame]
      omega
    · rw [h.total hr', hsum hr' hne]
  · rcases hcases hr' with ⟨rfl, rfl⟩ | ⟨-, hr'⟩
    · exact hpositive.imp id fun hp ↦ ⟨_, hp, (hwithin _).2 hin⟩
    · exact .inl ((h.positive hr').resolve_right fun ⟨_, hy, _⟩ ↦ hy)

/-- **A record is dropped** with its last point. -/
theorem drop (h : s.Covers points ∅ records)
    (hpos : ∀ i p, points.find? i = some p → 0 < s.weight p) (hi : points.find? i = some p)
    (hr : records x = some r) (hin : s.Within r (s.pos p)) (hlast : s.total r = s.weight p)
    (hrecords : ∀ y, records' y = if y = x then none else records y) :
    s.Covers (points.erase i) exempt records' := by
  have hpos' (j : ι) (q : α) (hq : (points.erase i).find? j = some q) : 0 < s.weight q := by
    rw [FlatMap.find?_erase] at hq
    split_ifs at hq
    exact hpos j q hq
  have hzero : s.weightWithin (points.erase i) r = 0 := by
    have htotal := h.total hr
    rw [weightWithin_eq_add_erase hi, if_pos hin] at htotal
    omega
  have hcases {y : K} {r' : ρ} (hr' : records' y = some r') : y ≠ x ∧ records y = some r' := by
    rw [hrecords] at hr'
    split_ifs at hr' with hy
    exact ⟨hy, hr'⟩
  refine ⟨fun hr' ↦ h.key (hcases hr').2, fun hr' ↦ h.le (hcases hr').2,
    fun hr' ↦ h.good (hcases hr').2, fun h₁ h₂ hlt ↦ h.disjoint (hcases h₁).2 (hcases h₂).2 hlt,
    fun {j q} hq ↦ ?_, fun {y r'} hr' ↦ ?_, fun {y r'} hr' ↦ ?_⟩
  · have hout := not_within_of_weightWithin_eq_zero hpos' hzero hq
    rw [FlatMap.find?_erase] at hq
    split_ifs at hq
    obtain ⟨y, r', hr', hwithin⟩ := h.covered hq
    have hy : y ≠ x := by
      rintro rfl
      obtain rfl := Option.some.inj (hr.symm.trans hr')
      exact hout hwithin
    exact ⟨y, r', by rw [hrecords, if_neg hy, hr'], hwithin⟩
  · obtain ⟨hne, hr'⟩ := hcases hr'
    rw [h.total hr', weightWithin_eq_add_erase hi, if_neg ((h.clear hr' hr hne).not_within hin),
      zero_add]
  · exact .inl ((h.positive (hcases hr').2).resolve_right fun ⟨_, hy, _⟩ ↦ hy)

end Covers

end IntervalShape
