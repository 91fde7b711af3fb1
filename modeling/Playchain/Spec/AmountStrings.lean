import Playchain.Graphene.AmountStrings
import Playchain.Lib.Control
import Playchain.Spec.VersionTexts

/-!
# Amounts as text are read exactly

A text has the form of an amount (`AmountText`) if it is a sign, digits, and a point with more digits, each of which may
be missing. The texts that the scan accepts and that have no sign after their first character are of this form
(`exists_eq_text`), and what is read of them is their value or nothing (`amountFromString_text`). A sign further back is
accepted too, but the text is cut as if the sign were in front; what is then read has nothing to do with the text
(`amount_from_string_iff`).
-/

namespace Playchain

namespace AmountString

/-! ### Digits -/

def Digits (ds : List Char) : Prop := ∀ c ∈ ds, c.isDigit = true

theorem ofDigitChars_lt {ds : List Char} (h : Digits ds) : Nat.ofDigitChars 10 ds 0 < 10 ^ ds.length := by
  induction ds with
  | nil => exact Nat.one_pos
  | cons c ds ih =>
    have hc : c.toNat - '0'.toNat ≤ 9 := by
      have hdigit := h c List.mem_cons_self
      simp only [Char.isDigit, ge_iff_le, Bool.and_eq_true, decide_eq_true_eq, UInt32.le_iff_toNat_le] at hdigit
      have hle : c.toNat ≤ 57 := hdigit.2
      have hzero : '0'.toNat = 48 := rfl
      omega
    have hrest := ih fun d hd ↦ h d (List.mem_cons_of_mem _ hd)
    rw [Nat.ofDigitChars_cons, Nat.ofDigitChars_eq_ofDigitChars_zero, Nat.mul_zero, Nat.zero_add, List.length_cons,
      Nat.pow_succ]
    calc 10 ^ ds.length * (c.toNat - '0'.toNat) + Nat.ofDigitChars 10 ds 0
        < 10 ^ ds.length * (c.toNat - '0'.toNat) + 10 ^ ds.length := Nat.add_lt_add_left hrest _
      _ = 10 ^ ds.length * (c.toNat - '0'.toNat + 1) := by ring
      _ ≤ 10 ^ ds.length * 10 := Nat.mul_le_mul_left _ (by omega)

/-- **Digits are read** up to what follows them. -/
theorem stoll_digits {ds rest : List Char} (hds : Digits ds) (hne : ds ≠ [])
    (hrest : ∀ c ∈ rest.head?, c.isDigit = false) :
    stoll (ds ++ rest) = if (Nat.ofDigitChars 10 ds 0 : ℤ) < 2 ^ 63 then .ok (Nat.ofDigitChars 10 ds 0)
      else .error .outOfRange := by
  obtain ⟨c, cs, rfl⟩ := List.exists_cons_of_ne_nil hne
  have hc : c.isDigit = true := hds c List.mem_cons_self
  have hsign {d : Char} (hd : d.isDigit = false) : (c :: cs ++ rest).head? ≠ some d := by
    rintro ⟨⟩
    rw [hc] at hd
    cases hd
  have hspace : (c :: cs ++ rest).dropWhile TextStream.isSpace = c :: cs ++ rest := by
    rw [List.cons_append, List.dropWhile_cons_of_neg]
    rw [TextStream.isSpace_eq_false_of_isDigit hc]
    exact Bool.false_ne_true
  have htake : (c :: cs ++ rest).takeWhile Char.isDigit = c :: cs := by
    rw [List.takeWhile_append_of_pos hds]
    cases rest with
    | nil => simp
    | cons d ds => simp [hrest d rfl]
  unfold stoll
  dsimp only
  rw [hspace, if_neg (not_or.2 ⟨hsign rfl, hsign rfl⟩), htake, if_neg (by simp), if_neg (hsign rfl)]
  by_cases hlt : (Nat.ofDigitChars 10 (c :: cs) 0 : ℤ) < 2 ^ 63
  · rw [if_pos hlt, if_pos ⟨by omega, hlt⟩]
  · rw [if_neg hlt, if_neg fun h ↦ hlt h.2]

/-! ### The form of an amount -/

/-- A text of the form of an amount: whether there is a sign, the digits before the point, and those after it if there is
one. -/
structure AmountText (precision : ℕ) where
  negative : Bool
  whole : List Char
  decimals : Option (List Char)
  digits_whole : Digits whole
  digits_decimals : ∀ ds, decimals = some ds → Digits ds ∧ ds.length ≤ precision

namespace AmountText

variable {p : ℕ} (t : AmountText p)

def sign : List Char := if t.negative then ['-'] else []

def point : List Char :=
  match t.decimals with
  | some ds => '.' :: ds
  | none => []

/-- The text itself. -/
def text : List Char := t.sign ++ t.whole ++ t.point

/-- The digits after the point, in units of the precision. -/
def decimalValue : ℕ :=
  match t.decimals with
  | some ds => Nat.ofDigitChars 10 ds 0 * 10 ^ (p - ds.length)
  | none => 0

/-- The value without its sign, in units of the precision. -/
def magnitude : ℕ := Nat.ofDigitChars 10 t.whole 0 * 10 ^ p + t.decimalValue

/-- **The decimal value of the text times `10 ^ p`.** -/
def value : ℤ := if t.negative then -(t.magnitude : ℤ) else t.magnitude

theorem decimalValue_lt : t.decimalValue < 10 ^ p := by
  unfold decimalValue
  split
  case h_1 ds hds =>
    obtain ⟨hdigits, hlen⟩ := t.digits_decimals ds hds
    calc Nat.ofDigitChars 10 ds 0 * 10 ^ (p - ds.length)
        < 10 ^ ds.length * 10 ^ (p - ds.length) := Nat.mul_lt_mul_of_pos_right (ofDigitChars_lt hdigits) (by positivity)
      _ = 10 ^ p := by rw [← Nat.pow_add, Nat.add_sub_cancel' hlen]
  case h_2 => positivity

end AmountText

/-! ### The scan -/

theorem scan_digits {ds : List Char} (h : Digits ds) (rest : List Char) (n d : Bool) :
    scan (ds ++ rest) n d = scan rest n d := by
  induction ds with
  | nil => rfl
  | cons c ds ih =>
    rw [List.cons_append, scan, if_pos (h c List.mem_cons_self)]
    exact ih fun x hx ↦ h x (List.mem_cons_of_mem _ hx)

theorem scan_text {p : ℕ} (t : AmountText p) : scan t.text false false = .ok (t.negative, t.decimals.isSome) := by
  have hpoint (n : Bool) : scan t.point n false = .ok (n, t.decimals.isSome) := by
    unfold AmountText.point
    rcases hds : t.decimals with _ | ds
    · rfl
    · have hdigits := scan_digits (t.digits_decimals ds hds).1 [] n true
      rw [List.append_nil] at hdigits
      dsimp only
      rw [scan, if_neg (by decide), if_neg (by simp), if_pos ⟨rfl, rfl⟩, hdigits]
      rfl
  unfold AmountText.text AmountText.sign
  cases t.negative with
  | false =>
    rw [if_neg Bool.false_ne_true, List.nil_append, scan_digits t.digits_whole]
    exact hpoint false
  | true =>
    rw [if_pos rfl, List.singleton_append, List.cons_append, scan, if_neg (by decide), if_pos ⟨rfl, rfl⟩,
      scan_digits t.digits_whole]
    exact hpoint true

/-- After a point, without a sign. -/
theorem digits_of_scan {s : List Char} {n : Bool} {r : Bool × Bool} (h : scan s n true = .ok r) (hminus : '-' ∉ s) :
    Digits s ∧ r = (n, true) := by
  induction s with
  | nil => exact ⟨fun c hc ↦ absurd hc List.not_mem_nil, (Except.ok.inj h).symm⟩
  | cons c cs ih =>
    obtain ⟨hc, hcs⟩ := not_or.1 (mt List.mem_cons.2 hminus)
    rw [scan] at h
    by_cases hdigit : c.isDigit = true
    · rw [if_pos hdigit] at h
      obtain ⟨hdigits, hr⟩ := ih h hcs
      refine ⟨fun x hx ↦ ?_, hr⟩
      rcases List.mem_cons.1 hx with rfl | hx
      · exact hdigit
      · exact hdigits x hx
    · rw [if_neg hdigit, if_neg fun h' ↦ hc h'.1.symm, if_neg (by simp)] at h
      cases h

/-- Without a sign: digits, or digits around a point. -/
theorem parts_of_scan {s : List Char} {n : Bool} {r : Bool × Bool} (h : scan s n false = .ok r) (hminus : '-' ∉ s) :
    (Digits s ∧ r = (n, false)) ∨
      ∃ ds fs, s = ds ++ '.' :: fs ∧ Digits ds ∧ Digits fs ∧ r = (n, true) := by
  induction s with
  | nil => exact Or.inl ⟨fun c hc ↦ absurd hc List.not_mem_nil, (Except.ok.inj h).symm⟩
  | cons c cs ih =>
    obtain ⟨hc, hcs⟩ := not_or.1 (mt List.mem_cons.2 hminus)
    rw [scan] at h
    by_cases hdigit : c.isDigit = true
    · rw [if_pos hdigit] at h
      have hcons {ds : List Char} (hds : Digits ds) : Digits (c :: ds) := by
        intro x hx
        rcases List.mem_cons.1 hx with rfl | hx
        · exact hdigit
        · exact hds x hx
      rcases ih h hcs with ⟨hdigits, hr⟩ | ⟨ds, fs, rfl, hds, hfs, hr⟩
      · exact Or.inl ⟨hcons hdigits, hr⟩
      · exact Or.inr ⟨c :: ds, fs, rfl, hcons hds, hfs, hr⟩
    · rw [if_neg hdigit, if_neg fun h' ↦ hc h'.1.symm] at h
      by_cases hpoint : c = '.'
      · rw [if_pos ⟨hpoint, rfl⟩] at h
        obtain ⟨hdigits, hr⟩ := digits_of_scan h hcs
        exact Or.inr ⟨[], cs, by rw [hpoint, List.nil_append], fun x hx ↦ absurd hx List.not_mem_nil, hdigits, hr⟩
      · rw [if_neg fun h' ↦ hpoint h'.1] at h
        cases h

/-- There is no second sign. -/
theorem minus_notMem_of_scan {s : List Char} {d : Bool} {r : Bool × Bool} (h : scan s true d = .ok r) : '-' ∉ s := by
  induction s generalizing d with
  | nil => exact List.not_mem_nil
  | cons c cs ih =>
    have hsplit : c ≠ '-' ∧ ∃ d', scan cs true d' = .ok r := by
      rw [scan] at h
      by_cases hdigit : c.isDigit = true
      · rw [if_pos hdigit] at h
        refine ⟨?_, d, h⟩
        rintro rfl
        exact absurd hdigit (by decide)
      · rw [if_neg hdigit, if_neg (by simp)] at h
        by_cases hpoint : c = '.' ∧ d = false
        · rw [if_pos hpoint] at h
          refine ⟨?_, true, h⟩
          rw [hpoint.1]
          decide
        · rw [if_neg hpoint] at h
          cases h
    obtain ⟨hc, d', hd'⟩ := hsplit
    rw [List.mem_cons, not_or]
    exact ⟨hc.symm, ih hd'⟩

/-! ### The two pieces -/

theorem Digits.notMem {ds : List Char} (h : Digits ds) {c : Char} (hc : c.isDigit = false) : c ∉ ds := by
  intro hmem
  rw [h c hmem] at hc
  cases hc

theorem findIdx?_point {l : List Char} (hl : '.' ∉ l) (r : List Char) :
    (l ++ '.' :: r).findIdx? (· = '.') = some l.length := by
  induction l with
  | nil => rfl
  | cons c l ih =>
    obtain ⟨hc, hl⟩ := not_or.1 (mt List.mem_cons.2 hl)
    rw [List.cons_append, List.findIdx?_cons, if_neg (by simpa using Ne.symm hc), ih hl]
    rfl

theorem findIdx?_no_point {l : List Char} (hl : '.' ∉ l) : l.findIdx? (· = '.') = none := by
  rw [List.findIdx?_eq_none_iff]
  intro c hc
  simp only [decide_eq_false_iff_not]
  rintro rfl
  exact hl hc

namespace AmountText

variable {p : ℕ} (t : AmountText p)

theorem point_notMem : '.' ∉ t.sign ++ t.whole := by
  rw [List.mem_append, not_or]
  refine ⟨?_, t.digits_whole.notMem rfl⟩
  unfold sign
  split
  · decide
  · exact List.not_mem_nil

theorem findIdx?_append_point {l : List Char} (hl : '.' ∉ l) :
    (l ++ t.point).findIdx? (· = '.') = t.decimals.map fun _ ↦ l.length := by
  unfold point
  rcases t.decimals with _ | ds
  · dsimp only
    rw [List.append_nil, findIdx?_no_point hl]
    rfl
  · exact findIdx?_point hl ds

/-- The first piece: the digits before the point, and with a sign the point as well. -/
theorem substr_text : substr t.text (if t.negative then 1 else 0) (t.text.findIdx? (· = '.')) =
    t.whole ++ (if t.negative = true ∧ t.decimals.isSome = true then ['.'] else []) := by
  rw [show t.text.findIdx? (· = '.') = _ from t.findIdx?_append_point t.point_notMem]
  unfold substr text point sign
  rcases t.decimals with _ | ds <;> cases t.negative
  · simp
  · simp
  · simp
  · simp [List.take_append]

theorem not_digit_after_whole :
    ∀ c ∈ (if t.negative = true ∧ t.decimals.isSome = true then ['.'] else [] : List Char).head?,
      c.isDigit = false := by
  split
  · rintro c ⟨⟩
    rfl
  · rintro c ⟨⟩

/-- A first piece with digits is read, if it is not too great. -/
theorem wholePart_text {scaled : ℕ} (hne : t.whole ≠ []) (hpos : 0 < scaled)
    (hlt : Nat.ofDigitChars 10 t.whole 0 * scaled < 2 ^ 63) :
    wholePart scaled t.text t.negative = .ok ((Nat.ofDigitChars 10 t.whole 0 * scaled : ℕ) : ℤ) := by
  have hle : Nat.ofDigitChars 10 t.whole 0 ≤ Nat.ofDigitChars 10 t.whole 0 * scaled := Nat.le_mul_of_pos_right _ hpos
  unfold wholePart
  dsimp only
  rw [t.substr_text, if_neg (by simp [hne]), stoll_digits t.digits_whole hne t.not_digit_after_whole, if_pos (by omega),
    Except.ok_bind, checked, ← Nat.cast_mul, if_pos (by omega)]

/-- If the first piece is read, then as its value. -/
theorem eq_of_wholePart {scaled : ℕ} {l : ℤ} (h : wholePart scaled t.text t.negative = .ok l) :
    l = ((Nat.ofDigitChars 10 t.whole 0 * scaled : ℕ) : ℤ) := by
  unfold wholePart at h
  dsimp only at h
  rw [t.substr_text] at h
  by_cases hne : t.whole = []
  · rw [hne, List.nil_append] at h
    rw [hne, Nat.ofDigitChars_nil, Nat.zero_mul]
    by_cases hpoint : t.negative = true ∧ t.decimals.isSome = true
    · rw [if_pos hpoint] at h
      cases h
    · rw [if_neg hpoint] at h
      exact (Except.ok.inj h).symm
  · rw [if_neg (by simp [hne]), stoll_digits t.digits_whole hne t.not_digit_after_whole] at h
    by_cases hlt : (Nat.ofDigitChars 10 t.whole 0 : ℤ) < 2 ^ 63
    · rw [if_pos hlt, Except.ok_bind, checked] at h
      split_ifs at h with hrange
      rw [← Except.ok.inj h, Nat.cast_mul]
    · rw [if_neg hlt] at h
      cases h

end AmountText

/-- The digits of `10 ^ p + d`. -/
theorem length_toDigits {p d : ℕ} (hd : d < 10 ^ p) : (Nat.toDigits 10 (10 ^ p + d)).length = p + 1 := by
  have hle : (Nat.toDigits 10 (10 ^ p + d)).length ≤ p + 1 := by
    rw [Nat.length_toDigits_le_iff (by decide) (Nat.succ_pos p), Nat.pow_succ]
    omega
  rcases Nat.eq_zero_or_pos p with rfl | hp
  · have hpos : 0 < (Nat.toDigits 10 (10 ^ 0 + d)).length := Nat.length_toDigits_pos
    omega
  · have hgt : ¬(Nat.toDigits 10 (10 ^ p + d)).length ≤ p := by
      rw [Nat.length_toDigits_le_iff (by decide) hp]
      omega
    omega

theorem length_tail_toDigits (p : ℕ) : (Nat.toDigits 10 (10 ^ p)).tail.length = p := by
  have hlen := length_toDigits (show 0 < 10 ^ p by positivity)
  rw [Nat.add_zero] at hlen
  rw [List.length_tail, hlen, Nat.add_sub_cancel]

theorem pow_lt_of_lt {p : ℕ} (hp : p < 19) : 10 ^ p < 2 ^ 63 :=
  (Nat.pow_le_pow_right (by decide) (show p ≤ 18 by omega)).trans_lt (by decide)

/-- The zeros that are put behind `n` characters after the point. -/
def zeros (p n : ℕ) : List Char := List.replicate (p - n) '0'

theorem digits_append_zeros {es : List Char} (hes : Digits es) (p n : ℕ) : Digits (es ++ zeros p n) := by
  intro c hc
  rcases List.mem_append.1 hc with hc | hc
  · exact hes c hc
  · rw [List.eq_of_mem_replicate hc]
    rfl

theorem drop_point (l r : List Char) : (l ++ '.' :: r).drop (l.length + 1) = r := by
  rw [List.drop_append, List.drop_of_length_le (Nat.le_succ _), Nat.add_sub_cancel_left]
  rfl

namespace AmountText

variable {p : ℕ} (t : AmountText p)

/-- **The second piece** is read as its value, whatever is in front of the point. -/
theorem decimalPart_append_point (hp : p < 19) {l : List Char} (hl : '.' ∉ l) :
    decimalPart (10 ^ p) (l ++ t.point) t.decimals.isSome = .ok (t.decimalValue : ℤ) := by
  have hlt := t.decimalValue_lt
  have hbound := pow_lt_of_lt hp
  unfold decimalPart
  rw [t.findIdx?_append_point hl]
  unfold decimalValue at hlt ⊢
  unfold point
  rcases hds : t.decimals with _ | ds
  · rfl
  · obtain ⟨hdigits, hlen⟩ := t.digits_decimals ds hds
    rw [hds] at hlt
    dsimp only [Option.map_some] at hlt ⊢
    rw [length_tail_toDigits, drop_point, if_pos (show (some ds).isSome = true from rfl), if_neg (by omega)]
    by_cases hempty : (ds ++ List.replicate (p - ds.length) '0').isEmpty = true
    · rw [if_pos hempty]
      have hnil := List.isEmpty_iff.1 hempty
      rw [(List.append_eq_nil_iff.1 hnil).1]
      simp
    · rw [if_neg hempty]
      have hread := @stoll_digits _ [] (digits_append_zeros hdigits p ds.length) (by simpa [zeros] using hempty) (by simp)
      rw [List.append_nil, zeros, Nat.ofDigitChars_append, Nat.ofDigitChars_replicate_zero, Nat.mul_comm] at hread
      rw [hread, if_pos (by omega)]

end AmountText

/-- Too many digits after the point are refused. -/
theorem length_le_of_decimalPart {p : ℕ} {l fs : List Char} (hl : '.' ∉ l) {r : ℤ}
    (h : decimalPart (10 ^ p) (l ++ '.' :: fs) true = .ok r) : fs.length ≤ p := by
  unfold decimalPart at h
  rw [findIdx?_point hl] at h
  dsimp only at h
  rw [length_tail_toDigits, drop_point, if_pos rfl] at h
  by_contra hlong
  rw [if_pos (by omega)] at h
  cases h

/-! ### The two pieces together -/

/-- What is accepted, and what it is read as. -/
theorem amountFromString_eq_ok_iff {p : ℕ} (hp : p < 19) {s : List Char} {a : ℤ} :
    amountFromString p s = .ok a ↔ ∃ found l r, scan s false false = .ok found ∧ wholePart (10 ^ p) s found.1 = .ok l ∧
      decimalPart (10 ^ p) s found.2 = .ok r ∧ (-2 ^ 63 ≤ l + r ∧ l + r ≤ maxShareSupply) ∧
      (found.1 = true → -2 ^ 63 < l + r) ∧ a = if found.1 then -(l + r) else l + r := by
  have hmax : (maxShareSupply : ℤ) < 2 ^ 63 := by decide
  constructor
  · intro h
    obtain ⟨found, hscan, h⟩ := Except.bind_eq_ok.1 h
    obtain ⟨scaled, hscaled, h⟩ := Except.bind_eq_ok.1 h
    rw [scaledPrecision, if_pos hp] at hscaled
    cases hscaled
    obtain ⟨l, hl, h⟩ := Except.bind_eq_ok.1 h
    obtain ⟨r, hr, h⟩ := Except.bind_eq_ok.1 h
    obtain ⟨satoshis, hsat, h⟩ := Except.bind_eq_ok.1 h
    rw [checked] at hsat
    by_cases hrange : -2 ^ 63 ≤ l + r ∧ l + r < 2 ^ 63
    · rw [if_pos hrange] at hsat
      cases hsat
      by_cases hle : (maxShareSupply : ℤ) < l + r
      · rw [if_pos hle] at h
        cases h
      · rw [if_neg hle] at h
        refine ⟨found, l, r, hscan, hl, hr, ⟨hrange.1, not_lt.1 hle⟩, ?_⟩
        cases hneg : found.1 with
        | false =>
          rw [hneg, if_neg Bool.false_ne_true] at h
          exact ⟨nofun, (Except.ok.inj h).symm⟩
        | true =>
          rw [hneg, if_pos rfl, checked] at h
          split_ifs at h with hin
          refine ⟨fun _ ↦ by omega, ?_⟩
          rw [if_pos rfl, ← Except.ok.inj h, mul_neg_one]
    · rw [if_neg hrange] at hsat
      cases hsat
  · rintro ⟨found, l, r, hscan, hl, hr, ⟨hlow, hle⟩, hneg, ha⟩
    unfold amountFromString
    rw [hscan, Except.ok_bind, scaledPrecision, if_pos hp, Except.ok_bind, hl, Except.ok_bind, hr, Except.ok_bind, checked,
      if_pos ⟨hlow, by omega⟩, Except.ok_bind, if_neg (not_lt.2 hle), ha]
    cases hfound : found.1 with
    | false => rfl
    | true =>
      have hlt := hneg hfound
      rw [if_pos rfl, checked, if_pos ⟨by omega, by omega⟩, if_pos rfl, mul_neg_one]

namespace AmountText

variable {p : ℕ} (t : AmountText p)

/-- **What is read of a text of this form is its value.** -/
theorem eq_value_of_amountFromString (hp : p < 19) {a : ℤ} (h : amountFromString p t.text = .ok a) : a = t.value := by
  obtain ⟨found, l, r, hscan, hl, hr, -, -, ha⟩ := (amountFromString_eq_ok_iff hp).1 h
  rw [scan_text t] at hscan
  cases hscan
  rw [show decimalPart _ t.text _ = _ from t.decimalPart_append_point hp t.point_notMem] at hr
  rw [ha, t.eq_of_wholePart hl, ← Except.ok.inj hr, value, magnitude, Nat.cast_add]

theorem natAbs_value : t.value.natAbs = t.magnitude := by
  unfold value
  split <;> omega

/-- **A text with a digit in front of the point is read**, if its value is not too great. -/
theorem amountFromString_text (hp : p < 19) (hne : t.whole ≠ []) (hle : t.value.natAbs ≤ maxShareSupply) :
    amountFromString p t.text = .ok t.value := by
  rw [natAbs_value, magnitude] at hle
  have hmax : maxShareSupply < 2 ^ 63 := by decide
  refine (amountFromString_eq_ok_iff hp).2 ⟨_, _, _, scan_text t,
    t.wholePart_text hne (by positivity) (by omega), t.decimalPart_append_point hp t.point_notMem, by omega, by omega, ?_⟩
  rw [value, magnitude, Nat.cast_add]

end AmountText

/-- **A text without a sign inside** that is accepted is of the form of an amount. -/
theorem exists_eq_text {p : ℕ} (hp : p < 19) {s : List Char} (hminus : '-' ∉ s.tail) {a : ℤ}
    (h : amountFromString p s = .ok a) : ∃ t : AmountText p, s = t.text := by
  obtain ⟨found, l, r, hscan, -, hr, -⟩ := (amountFromString_eq_ok_iff hp).1 h
  -- what the scan finds after the sign, if there is one
  have hparts : ∃ neg body, s = (if neg then ['-'] else []) ++ body ∧
      ((Digits body ∧ found = (neg, false)) ∨
        ∃ ds fs, body = ds ++ '.' :: fs ∧ Digits ds ∧ Digits fs ∧ found = (neg, true)) := by
    cases s with
    | nil => exact ⟨false, [], rfl, parts_of_scan hscan List.not_mem_nil⟩
    | cons c cs =>
      by_cases hc : c = '-'
      · rw [hc, scan, if_neg (by decide), if_pos ⟨rfl, rfl⟩] at hscan
        exact ⟨true, cs, by rw [hc]; rfl, parts_of_scan hscan hminus⟩
      · exact ⟨false, c :: cs, rfl, parts_of_scan hscan fun hmem ↦ (List.mem_cons.1 hmem).elim (hc ·.symm) hminus⟩
  obtain ⟨neg, body, rfl, ⟨hdigits, -⟩ | ⟨ds, fs, rfl, hds, hfs, rfl⟩⟩ := hparts
  · exact ⟨⟨neg, body, none, hdigits, nofun⟩, (List.append_nil _).symm⟩
  · have hfront : '.' ∉ (if neg then ['-'] else []) ++ ds := by
      rw [List.mem_append, not_or]
      refine ⟨?_, hds.notMem rfl⟩
      split
      · decide
      · exact List.not_mem_nil
    have hlen := length_le_of_decimalPart hfront (by rwa [← List.append_assoc] at hr)
    refine ⟨⟨neg, ds, some fs, hds, ?_⟩, (List.append_assoc _ _ _).symm⟩
    rintro _ ⟨⟩
    exact ⟨hfs, hlen⟩

/-! ### Printing -/

theorem digits_toDigits (n : ℕ) : Digits (Nat.toDigits 10 n) := fun _ hc ↦
  Nat.isDigit_of_mem_toDigits (by decide) (by decide) hc

/-- The digits of `10 ^ p + r` after the first are `r`. -/
theorem ofDigitChars_tail {p r : ℕ} (hr : r < 10 ^ p) : Nat.ofDigitChars 10 (Nat.toDigits 10 (10 ^ p + r)).tail 0 = r := by
  have hlen := length_toDigits hr
  have hvalue := Nat.ofDigitChars_ten_toDigits (n := 10 ^ p + r)
  have hdigits := digits_toDigits (10 ^ p + r)
  generalize Nat.toDigits 10 (10 ^ p + r) = ds at hlen hvalue hdigits ⊢
  cases ds with
  | nil => cases hlen
  | cons c cs =>
    have hcs : cs.length = p := Nat.succ_injective hlen
    have hlt := ofDigitChars_lt fun x hx ↦ hdigits x (List.mem_cons_of_mem c hx)
    rw [Nat.ofDigitChars_cons, Nat.ofDigitChars_eq_ofDigitChars_zero, Nat.mul_zero, Nat.zero_add, hcs] at hvalue
    rw [hcs] at hlt
    have hmod := congrArg (· % 10 ^ p) hvalue
    simp only [Nat.mul_add_mod, Nat.add_mod_left, Nat.mod_eq_of_lt hlt, Nat.mod_eq_of_lt hr] at hmod
    exact hmod

/-- The whole part as it is printed, with the sign of the amount. -/
theorem toText_tdiv (a : ℤ) {scaled : ℕ} (hscaled : 0 < scaled) :
    toText (a.tdiv scaled) =
      (if a < 0 ∧ a.natAbs / scaled ≠ 0 then ['-'] else []) ++ Nat.toDigits 10 (a.natAbs / scaled) := by
  have habs : (a.tdiv scaled).natAbs = a.natAbs / scaled := by rw [Int.natAbs_tdiv, Int.natAbs_natCast]; rfl
  have hsign : a.tdiv scaled < 0 ↔ a < 0 ∧ a.natAbs / scaled ≠ 0 := by
    rcases lt_or_ge a 0 with ha | ha
    · have hnonpos : 0 ≤ -(a.tdiv scaled) := by
        rw [← Int.neg_tdiv]
        exact Int.tdiv_nonneg (by omega) (by omega)
      omega
    · have hnonneg : 0 ≤ a.tdiv scaled := Int.tdiv_nonneg ha (by omega)
      omega
  unfold toText
  rw [habs]
  by_cases hneg : a.tdiv scaled < 0
  · rw [if_pos hneg, if_pos (hsign.1 hneg)]
    rfl
  · rw [if_neg hneg, if_neg (mt hsign.2 hneg)]
    rfl

/-- **What is printed of an amount** has the form of an amount, and its value is the amount. -/
theorem amountToString_eq {p : ℕ} (hp : p < 19) (a : ℤ) :
    ∃ t : AmountText p, amountToString p a = .ok t.text ∧ t.whole ≠ [] ∧ t.value = a := by
  have hpos : 0 < 10 ^ p := by positivity
  have hrem : (a.tmod ((10 ^ p : ℕ) : ℤ)).natAbs = a.natAbs % 10 ^ p := by rw [Int.natAbs_tmod, Int.natAbs_natCast]
  have hdivmod : a.natAbs / 10 ^ p * 10 ^ p + a.natAbs % 10 ^ p = a.natAbs := Nat.div_add_mod' _ _
  have hlt := Nat.mod_lt a.natAbs hpos
  have hne (n : ℕ) : Nat.toDigits 10 n ≠ [] := Nat.toDigits_ne_nil
  have hsigned {t : AmountText p} (hneg : t.negative = decide (a < 0)) (hmag : t.magnitude = a.natAbs) : t.value = a := by
    rw [AmountText.value, hneg, hmag]
    simp only [decide_eq_true_eq]
    split <;> omega
  unfold amountToString
  rw [scaledPrecision, if_pos hp, Except.ok_bind]
  dsimp only
  rw [hrem, toText_tdiv a hpos]
  by_cases hzero : a.natAbs % 10 ^ p = 0
  · refine ⟨⟨decide (a < 0), Nat.toDigits 10 (a.natAbs / 10 ^ p), none, digits_toDigits _, nofun⟩, ?_, hne _,
      hsigned rfl ?_⟩
    -- a negative amount without decimals has a whole part
    · have hwhole : (a < 0 ∧ a.natAbs / 10 ^ p ≠ 0) ↔ a < 0 := by
        refine ⟨And.left, fun ha ↦ ⟨ha, fun h ↦ ?_⟩⟩
        rw [h, hzero] at hdivmod
        omega
      rw [if_pos hzero]
      simp only [hwhole, AmountText.text, AmountText.sign, AmountText.point, decide_eq_true_eq, List.append_nil]
    · show Nat.ofDigitChars 10 _ 0 * 10 ^ p + 0 = a.natAbs
      rw [Nat.ofDigitChars_ten_toDigits]
      omega
  · have hlen := length_toDigits hlt
    have htail : Digits (Nat.toDigits 10 (10 ^ p + a.natAbs % 10 ^ p)).tail := fun c hc ↦
      digits_toDigits _ c (List.mem_of_mem_tail hc)
    refine ⟨⟨decide (a < 0), Nat.toDigits 10 (a.natAbs / 10 ^ p),
      some (Nat.toDigits 10 (10 ^ p + a.natAbs % 10 ^ p)).tail, digits_toDigits _, ?_⟩, ?_, hne _, hsigned rfl ?_⟩
    · rintro _ ⟨⟩
      rw [List.length_tail, hlen]
      exact ⟨htail, le_rfl⟩
    · rw [if_neg hzero]
      simp only [AmountText.text, AmountText.sign, AmountText.point, decide_eq_true_eq]
      by_cases ha : a < 0
      · by_cases hq : a.natAbs / 10 ^ p = 0
        · have hbare : (if a < 0 ∧ a.natAbs / 10 ^ p ≠ 0 then ['-'] else []) = [] := if_neg fun h ↦ h.2 hq
          rw [hbare, hq, Nat.toDigits_zero, if_pos ⟨ha, rfl⟩, if_pos ha]
          rfl
        · have hminus : (if a < 0 ∧ a.natAbs / 10 ^ p ≠ 0 then ['-'] else []) = ['-'] := if_pos ⟨ha, hq⟩
          rw [hminus, if_neg fun h ↦ by simp at h, if_pos ha]
      · rw [if_neg fun h ↦ ha h.1, if_neg fun h ↦ ha h.1, if_neg ha]
    · have hfull : (Nat.toDigits 10 (10 ^ p + a.natAbs % 10 ^ p)).tail.length = p := by
        rw [List.length_tail, hlen, Nat.add_sub_cancel]
      show Nat.ofDigitChars 10 _ 0 * 10 ^ p + Nat.ofDigitChars 10 _ 0 * 10 ^ (p - _) = a.natAbs
      rw [Nat.ofDigitChars_ten_toDigits, ofDigitChars_tail hlt, hfull, Nat.sub_self, Nat.pow_zero, Nat.mul_one, hdivmod]

/-! ### A sign inside -/

/-- What is read of digits, a sign and digits: the digits in front if there are any, else those behind with the sign. -/
def signedNumber (ds es : List Char) : ℤ :=
  if ds = [] then -(Nat.ofDigitChars 10 es 0 : ℤ) else Nat.ofDigitChars 10 ds 0

theorem stoll_sign {ds es rest : List Char} (hds : Digits ds) (hes : Digits es)
    (hrest : ∀ c ∈ rest.head?, c.isDigit = false) :
    stoll (ds ++ '-' :: (es ++ rest)) =
      if ds = [] ∧ es = [] then .error .invalidArgument
      else if -2 ^ 63 ≤ signedNumber ds es ∧ signedNumber ds es < 2 ^ 63 then .ok (signedNumber ds es)
      else .error .outOfRange := by
  by_cases hfront : ds = []
  · have htake : (es ++ rest).takeWhile Char.isDigit = es := by
      rw [List.takeWhile_append_of_pos hes]
      cases rest with
      | nil => simp
      | cons d ds => simp [hrest d rfl]
    have hspace : ('-' :: (es ++ rest)).dropWhile TextStream.isSpace = '-' :: (es ++ rest) :=
      List.dropWhile_cons_of_neg (by decide)
    rw [hfront, List.nil_append]
    unfold stoll signedNumber
    dsimp only
    rw [hspace, List.head?_cons, if_pos (Or.inl rfl), List.tail_cons, htake]
    by_cases hback : es = []
    · rw [if_pos (List.isEmpty_iff.2 hback), if_pos ⟨rfl, hback⟩]
    · have hempty : ¬(([] : List Char) = [] ∧ es = []) := fun h ↦ hback h.2
      rw [if_neg (mt List.isEmpty_iff.1 hback), if_neg hempty, if_pos rfl, if_pos rfl]
  · have hempty : ¬(ds = [] ∧ es = []) := fun h ↦ hfront h.1
    rw [stoll_digits hds hfront fun c hc ↦ by rw [← Option.some.inj hc]; rfl, if_neg hempty, signedNumber, if_neg hfront]
    by_cases hlt : (Nat.ofDigitChars 10 ds 0 : ℤ) < 2 ^ 63
    · rw [if_pos hlt, if_pos ⟨by omega, hlt⟩]
    · rw [if_neg hlt, if_neg fun h ↦ hlt h.2]

/-- **The texts with a sign inside that are accepted.** -/
inductive Misread (p : ℕ) : List Char → Prop
  /-- A sign before the point: the first digit is left out, and if there is only one the sign counts. -/
  | beforePoint (ds : List Char) (t : AmountText p) : Digits ds → ds ≠ [] → t.negative = true →
      ¬(ds.tail = [] ∧ t.whole = []) → -2 ^ 63 ≤ signedNumber ds.tail t.whole * 10 ^ p →
      -2 ^ 63 < signedNumber ds.tail t.whole * 10 ^ p + t.decimalValue →
      signedNumber ds.tail t.whole * 10 ^ p + t.decimalValue ≤ maxShareSupply → Misread p (ds ++ t.text)
  /-- A sign after the point: the first digit is left out, and of the digits after the point those behind the sign are
  ignored unless it comes first. -/
  | afterPoint (cs ds es : List Char) : Digits cs → Digits ds → Digits es → cs.length ≠ 1 →
      ds.length + 1 + es.length ≤ p → ¬(ds = [] ∧ p = 1) →
      (Nat.ofDigitChars 10 cs.tail 0 : ℤ) * 10 ^ p + signedNumber ds (es ++ zeros p (ds.length + 1 + es.length)) ≤
        maxShareSupply →
      Misread p (cs ++ '.' :: (ds ++ '-' :: es))

theorem Digits.tail {ds : List Char} (h : Digits ds) : Digits ds.tail := fun c hc ↦ h c (List.mem_of_mem_tail hc)

theorem scan_append_text {p : ℕ} {ds : List Char} (hds : Digits ds) {t : AmountText p} (hneg : t.negative = true) :
    scan (ds ++ t.text) false false = .ok (true, t.decimals.isSome) := by
  rw [scan_digits hds, scan_text, hneg]

/-- A sign before the point: the first piece. -/
theorem wholePart_append_text {p : ℕ} {ds : List Char} (hds : Digits ds) (hne : ds ≠ []) {t : AmountText p}
    (hneg : t.negative = true) {l : ℤ} :
    wholePart (10 ^ p) (ds ++ t.text) true = .ok l ↔
      ¬(ds.tail = [] ∧ t.whole = []) ∧ l = signedNumber ds.tail t.whole * 10 ^ p ∧ -2 ^ 63 ≤ l ∧ l < 2 ^ 63 := by
  obtain ⟨d, ds, rfl⟩ := List.exists_cons_of_ne_nil hne
  have hfront : '.' ∉ d :: ds ++ (t.sign ++ t.whole) := by
    rw [List.mem_append, not_or]
    exact ⟨hds.notMem rfl, t.point_notMem⟩
  have hpiece : substr (d :: ds ++ t.text) 1 ((d :: ds ++ t.text).findIdx? (· = '.')) =
      ds ++ '-' :: (t.whole ++ (if t.decimals.isSome = true then ['.'] else [])) := by
    have hpos := t.findIdx?_append_point hfront
    rw [List.append_assoc] at hpos
    rw [show (d :: ds ++ t.text).findIdx? (· = '.') = _ from hpos]
    unfold substr AmountText.text AmountText.point AmountText.sign
    rw [hneg]
    rcases t.decimals with _ | fs
    · simp
    · simp only [if_true, List.cons_append, List.nil_append, List.drop_one, List.tail_cons, Option.map_some,
        List.length_cons, List.length_append, Option.isSome_some]
      rw [show ds ++ '-' :: (t.whole ++ '.' :: fs) = ds ++ '-' :: (t.whole ++ ['.']) ++ fs by simp]
      refine List.take_left' ?_
      simp only [List.length_append, List.length_cons, List.length_nil]
      omega
  have hrest : ∀ c ∈ (if t.decimals.isSome = true then ['.'] else [] : List Char).head?, c.isDigit = false := by
    split
    · rintro c ⟨⟩
      rfl
    · rintro c ⟨⟩
  have hpow : (1 : ℤ) ≤ 10 ^ p := one_le_pow₀ (by norm_num)
  unfold wholePart
  dsimp only
  rw [if_pos rfl, hpiece, if_neg (by simp), stoll_sign (show Digits ds from hds.tail) t.digits_whole hrest, List.tail_cons]
  by_cases hempty : ds = [] ∧ t.whole = []
  · rw [if_pos hempty]
    exact ⟨nofun, fun h ↦ absurd hempty h.1⟩
  · rw [if_neg hempty]
    generalize signedNumber ds t.whole = n
    have hwider : -2 ^ 63 ≤ n * 10 ^ p ∧ n * 10 ^ p < 2 ^ 63 → -2 ^ 63 ≤ n ∧ n < 2 ^ 63 := by
      rintro ⟨hlow, hhigh⟩
      constructor <;> nlinarith
    constructor
    · intro h
      obtain ⟨m, hm, h⟩ := Except.bind_eq_ok.1 h
      split_ifs at hm with hrange
      cases hm
      rw [checked, Nat.cast_pow, Nat.cast_ofNat] at h
      split_ifs at h with hscaled
      cases h
      exact ⟨hempty, rfl, hscaled⟩
    · rintro ⟨-, rfl, hscaled⟩
      rw [if_pos (hwider hscaled), Except.ok_bind, checked, Nat.cast_pow, Nat.cast_ofNat, if_pos hscaled]

theorem scan_afterPoint {cs ds es : List Char} (hcs : Digits cs) (hds : Digits ds) (hes : Digits es) :
    scan (cs ++ '.' :: (ds ++ '-' :: es)) false false = .ok (true, true) := by
  have hback := scan_digits hes [] true true
  rw [List.append_nil] at hback
  rw [scan_digits hcs, scan, if_neg (by decide), if_neg (by simp), if_pos ⟨rfl, rfl⟩, scan_digits hds, scan,
    if_neg (by decide), if_pos ⟨rfl, rfl⟩, hback]
  rfl

/-- A sign after the point: the first piece. -/
theorem wholePart_afterPoint {p : ℕ} {cs : List Char} (hcs : Digits cs) (rest : List Char) {l : ℤ} :
    wholePart (10 ^ p) (cs ++ '.' :: rest) true = .ok l ↔
      cs.length ≠ 1 ∧ l = (Nat.ofDigitChars 10 cs.tail 0 : ℤ) * 10 ^ p ∧ l < 2 ^ 63 := by
  have hpow : (1 : ℤ) ≤ 10 ^ p := one_le_pow₀ (by norm_num)
  unfold wholePart
  dsimp only
  rw [findIdx?_point (hcs.notMem rfl), if_pos rfl]
  rcases cs with _ | ⟨c, cs⟩
  · rw [if_pos (by simp [substr]), List.tail_nil, Nat.ofDigitChars_nil, Nat.cast_zero, zero_mul]
    constructor
    · intro h
      cases h
      exact ⟨nofun, rfl, by norm_num⟩
    · rintro ⟨-, rfl, -⟩
      rfl
  · have hpiece : substr (c :: cs ++ '.' :: rest) 1 (some (c :: cs).length) = cs ++ ['.'] := by
      simp [substr, List.take_append]
    rw [hpiece, if_neg (by simp), List.tail_cons]
    by_cases hempty : cs = []
    · rw [hempty]
      exact ⟨nofun, fun h ↦ absurd rfl h.1⟩
    · rw [stoll_digits (show Digits cs from hcs.tail) hempty fun d hd ↦ by rw [← Option.some.inj hd]; rfl]
      have hlen : (c :: cs).length ≠ 1 := fun h ↦ hempty (List.length_eq_zero_iff.1 (Nat.succ_injective h))
      generalize Nat.ofDigitChars 10 cs 0 = n
      constructor
      · intro h
        obtain ⟨m, hm, h⟩ := Except.bind_eq_ok.1 h
        split_ifs at hm with hrange
        cases hm
        rw [checked, Nat.cast_pow, Nat.cast_ofNat] at h
        split_ifs at h with hscaled
        cases h
        exact ⟨hlen, rfl, hscaled.2⟩
      · rintro ⟨-, rfl, hscaled⟩
        have hlow : (-2 ^ 63 : ℤ) ≤ n * 10 ^ p := (by norm_num : (-2 ^ 63 : ℤ) ≤ 0).trans (by positivity)
        rw [if_pos (by nlinarith), Except.ok_bind, checked, Nat.cast_pow, Nat.cast_ofNat, if_pos ⟨hlow, hscaled⟩]

theorem signedNumber_bounds {p : ℕ} {ds es : List Char} (hds : Digits ds) (hes : Digits es) (hdsLen : ds.length ≤ p)
    (hesLen : es.length ≤ p) : -(10 ^ p : ℕ) < signedNumber ds es ∧ signedNumber ds es < (10 ^ p : ℕ) := by
  have hdsLt := (ofDigitChars_lt hds).trans_le (Nat.pow_le_pow_right (by decide) hdsLen)
  have hesLt := (ofDigitChars_lt hes).trans_le (Nat.pow_le_pow_right (by decide) hesLen)
  unfold signedNumber
  split <;> omega

/-- A sign after the point: the second piece. -/
theorem decimalPart_afterPoint {p : ℕ} (hp : p < 19) {cs ds es : List Char} (hcs : Digits cs) (hds : Digits ds)
    (hes : Digits es) {r : ℤ} :
    decimalPart (10 ^ p) (cs ++ '.' :: (ds ++ '-' :: es)) true = .ok r ↔
      ds.length + 1 + es.length ≤ p ∧ ¬(ds = [] ∧ p = 1) ∧
        r = signedNumber ds (es ++ zeros p (ds.length + 1 + es.length)) := by
  have hbound := pow_lt_of_lt hp
  have hlen : (ds ++ '-' :: es).length = ds.length + 1 + es.length := by
    rw [List.length_append, List.length_cons, Nat.add_assoc, Nat.add_comm 1]
  have hpadLen : (zeros p (ds.length + 1 + es.length)).length = p - (ds.length + 1 + es.length) := List.length_replicate
  unfold decimalPart
  rw [findIdx?_point (hcs.notMem rfl)]
  dsimp only
  rw [length_tail_toDigits, drop_point, if_pos rfl, hlen]
  by_cases hlong : p < ds.length + 1 + es.length
  · rw [if_pos hlong]
    exact ⟨nofun, fun h ↦ absurd h.1 (by omega)⟩
  · rw [if_neg hlong, if_neg (by simp)]
    have hback := digits_append_zeros hes p (ds.length + 1 + es.length)
    have hread := @stoll_sign ds _ [] hds hback (by simp)
    rw [List.append_nil] at hread
    rw [List.append_assoc, List.cons_append]
    show stoll (ds ++ '-' :: (es ++ zeros p (ds.length + 1 + es.length))) = _ ↔ _
    rw [hread]
    -- behind the sign there is a digit or a zero unless the sign is all there may be
    have hnil : es ++ zeros p (ds.length + 1 + es.length) = [] ↔ p = ds.length + 1 := by
      rw [← List.length_eq_zero_iff, List.length_append, hpadLen]
      omega
    have hnone : ds = [] ∧ es ++ zeros p (ds.length + 1 + es.length) = [] ↔ ds = [] ∧ p = 1 := by
      rw [hnil]
      refine and_congr_right fun h ↦ ?_
      rw [h, List.length_nil, Nat.zero_add]
    have hrange := signedNumber_bounds (p := p) hds hback (by omega) (by
      rw [List.length_append, hpadLen]
      omega)
    by_cases hempty : ds = [] ∧ es ++ zeros p (ds.length + 1 + es.length) = []
    · rw [if_pos hempty]
      exact ⟨nofun, fun h ↦ absurd (hnone.1 hempty) h.2.1⟩
    · rw [if_neg hempty, if_pos ⟨by omega, by omega⟩]
      constructor
      · intro h
        cases h
        exact ⟨by omega, mt hnone.2 hempty, rfl⟩
      · rintro ⟨-, -, rfl⟩
        rfl

/-- **A text of these forms is accepted.** -/
theorem Misread.exists_eq_ok {p : ℕ} (hp : p < 19) {s : List Char} (h : Misread p s) :
    ∃ a, amountFromString p s = .ok a := by
  have hbound := pow_lt_of_lt hp
  have hmax : maxShareSupply + 10 ^ 18 < 2 ^ 63 := by decide
  have hpow : 10 ^ p ≤ 10 ^ 18 := Nat.pow_le_pow_right (by decide) (by omega)
  cases h with
  | beforePoint ds t hds hne hneg hread hlow hlow' hle =>
    refine ⟨_, (amountFromString_eq_ok_iff hp).2 ⟨_, _, _, scan_append_text hds hneg,
      (wholePart_append_text hds hne hneg).2 ⟨hread, rfl, hlow, by omega⟩, ?_, ⟨hlow'.le, hle⟩, fun _ ↦ hlow', rfl⟩⟩
    have hfront : '.' ∉ ds ++ (t.sign ++ t.whole) := by
      rw [List.mem_append, not_or]
      exact ⟨hds.notMem rfl, t.point_notMem⟩
    rw [AmountText.text, ← List.append_assoc]
    exact t.decimalPart_append_point hp hfront
  | afterPoint cs ds es hcs hds hes hlen hshort hsome hle =>
    have hrange := signedNumber_bounds (p := p) hds (digits_append_zeros hes p (ds.length + 1 + es.length)) (by omega) (by
      rw [List.length_append, zeros, List.length_replicate]
      omega)
    have hwhole : (0 : ℤ) ≤ (Nat.ofDigitChars 10 cs.tail 0 : ℤ) * 10 ^ p := by positivity
    exact ⟨_, (amountFromString_eq_ok_iff hp).2 ⟨_, _, _, scan_afterPoint hcs hds hes,
      (wholePart_afterPoint hcs _).2 ⟨hlen, rfl, by omega⟩, (decimalPart_afterPoint hp hcs hds hes).2 ⟨hshort, hsome, rfl⟩,
      ⟨by omega, hle⟩, fun _ ↦ by omega, rfl⟩⟩

/-- The scan around the sign. -/
theorem exists_sign_of_scan {s : List Char} {d : Bool} {r : Bool × Bool} (h : scan s false d = .ok r) (hminus : '-' ∈ s) :
    ∃ u v d', s = u ++ '-' :: v ∧ '-' ∉ u ∧ '-' ∉ v ∧ scan u false d = .ok (false, d') ∧ scan v true d' = .ok r := by
  induction s generalizing d with
  | nil => exact absurd hminus List.not_mem_nil
  | cons c cs ih =>
    by_cases hc : c = '-'
    · rw [hc, scan, if_neg (by decide), if_pos ⟨rfl, rfl⟩] at h
      exact ⟨[], cs, d, by rw [hc, List.nil_append], List.not_mem_nil, minus_notMem_of_scan h, rfl, h⟩
    · have hcs : '-' ∈ cs := (List.mem_cons.1 hminus).resolve_left (hc ·.symm)
      have hfront {u : List Char} (hu : '-' ∉ u) : '-' ∉ c :: u := by
        rw [List.mem_cons, not_or]
        exact ⟨(hc ·.symm), hu⟩
      rw [scan] at h
      by_cases hdigit : c.isDigit = true
      · rw [if_pos hdigit] at h
        obtain ⟨u, v, d', rfl, hu, hv, hscan, hrest⟩ := ih h hcs
        exact ⟨c :: u, v, d', rfl, hfront hu, hv, by rw [scan, if_pos hdigit, hscan], hrest⟩
      · rw [if_neg hdigit, if_neg fun h' ↦ hc h'.1] at h
        by_cases hpoint : c = '.' ∧ d = false
        · rw [if_pos hpoint] at h
          obtain ⟨u, v, d', rfl, hu, hv, hscan, hrest⟩ := ih h hcs
          exact ⟨c :: u, v, d', rfl, hfront hu, hv,
            by rw [scan, if_neg hdigit, if_neg fun h' ↦ hc h'.1, if_pos hpoint, hscan], hrest⟩
        · rw [if_neg hpoint] at h
          cases h

/-- **A text with a sign inside that is accepted is of these forms.** -/
theorem misread_of_eq_ok {p : ℕ} (hp : p < 19) {s : List Char} (hminus : '-' ∈ s.tail) {a : ℤ}
    (h : amountFromString p s = .ok a) : Misread p s := by
  obtain ⟨found, l, r, hscan, hl, hr, ⟨hlow, hle⟩, hneg, -⟩ := (amountFromString_eq_ok_iff hp).1 h
  obtain ⟨u, v, d', rfl, hu, hv, hfront, hback⟩ := exists_sign_of_scan hscan (List.mem_of_mem_tail hminus)
  have hne : u ≠ [] := by
    rintro rfl
    exact hv hminus
  rcases parts_of_scan hfront hu with ⟨hdigits, hpair⟩ | ⟨cs, ds, rfl, hcs, hds, hpair⟩
  -- digits in front of the sign: what is behind it is an amount
  · cases hpair
    have hbefore (t : AmountText p) (htext : '-' :: v = t.text) (htneg : t.negative = true)
        (hfound : found = (true, t.decimals.isSome)) : Misread p (u ++ '-' :: v) := by
      have hpoint : '.' ∉ u ++ (t.sign ++ t.whole) := by
        rw [List.mem_append, not_or]
        exact ⟨hdigits.notMem rfl, t.point_notMem⟩
      rw [hfound, htext] at hl hr
      rw [hfound] at hneg
      obtain ⟨hread, hlEq, hlLow, -⟩ := (wholePart_append_text hdigits hne htneg).1 hl
      rw [AmountText.text, ← List.append_assoc,
        show decimalPart _ _ _ = _ from t.decimalPart_append_point hp hpoint] at hr
      cases hr
      have hstrict := hneg rfl
      rw [hlEq] at hlLow hstrict hle
      rw [htext]
      exact .beforePoint u t hdigits hne htneg hread hlLow hstrict hle
    rcases parts_of_scan hback hv with ⟨hes, hfound⟩ | ⟨es, fs, rfl, hes, hfs, hfound⟩
    · exact hbefore ⟨true, v, none, hes, nofun⟩ (by simp [AmountText.text, AmountText.sign, AmountText.point]) rfl hfound
    · have hpoint : '.' ∉ u ++ '-' :: es := by
        rw [List.mem_append, List.mem_cons, not_or, not_or]
        exact ⟨hdigits.notMem rfl, by decide, hes.notMem rfl⟩
      have hlen : fs.length ≤ p := by
        refine length_le_of_decimalPart hpoint (r := r) ?_
        rw [hfound] at hr
        rwa [List.append_assoc, List.cons_append]
      refine hbefore ⟨true, es, some fs, hes, ?_⟩ (by simp [AmountText.text, AmountText.sign, AmountText.point]) rfl hfound
      rintro _ ⟨⟩
      exact ⟨hfs, hlen⟩
  -- a point in front of the sign
  · cases hpair
    obtain ⟨hes, rfl⟩ := digits_of_scan hback hv
    rw [List.append_assoc, List.cons_append] at hl hr ⊢
    obtain ⟨hlen, rfl, -⟩ := (wholePart_afterPoint hcs _).1 hl
    obtain ⟨hshort, hsome, rfl⟩ := (decimalPart_afterPoint hp hcs hds hes).1 hr
    exact .afterPoint cs ds v hcs hds hes hlen hshort hsome hle

/-- In a text of the form of an amount the sign comes first. -/
theorem AmountText.minus_notMem_tail {p : ℕ} (t : AmountText p) : '-' ∉ t.text.tail := by
  have hbody : '-' ∉ t.whole ++ t.point := by
    rw [List.mem_append, not_or]
    refine ⟨t.digits_whole.notMem rfl, ?_⟩
    unfold point
    rcases hds : t.decimals with _ | ds
    · exact List.not_mem_nil
    · rw [List.mem_cons, not_or]
      exact ⟨by decide, (t.digits_decimals ds hds).1.notMem rfl⟩
  unfold text sign
  rw [List.append_assoc]
  cases t.negative with
  | true => exact hbody
  | false => exact fun hmem ↦ hbody (List.mem_of_mem_tail hmem)

theorem Misread.minus_mem_tail {p : ℕ} {s : List Char} (h : Misread p s) : '-' ∈ s.tail := by
  cases h with
  | beforePoint ds t _ hne hneg =>
    obtain ⟨d, ds, rfl⟩ := List.exists_cons_of_ne_nil hne
    simp [AmountText.text, AmountText.sign, hneg]
  | afterPoint cs ds es =>
    cases cs <;> simp

/-- **Amounts are read exactly, but for a sign inside**: what is accepted is of the form of an amount and read as its
value, and a text of the form with a digit before the point is accepted, exactly for the texts that are not misread. What
is printed of an amount is read back. -/
theorem amount_from_string_iff {p : ℕ} (hp : p ≤ 12) :
    (∀ s, ((∀ a, amountFromString p s = .ok a → ∃ t : AmountText p, s = t.text ∧ a = t.value) ∧
        ∀ t : AmountText p, s = t.text → t.whole ≠ [] → t.value.natAbs ≤ maxShareSupply →
          amountFromString p s = .ok t.value) ↔ ¬Misread p s) ∧
      ∀ a : ℤ, a.natAbs ≤ maxShareSupply → ∃ text, amountToString p a = .ok text ∧ amountFromString p text = .ok a := by
  have hp' : p < 19 := by omega
  refine ⟨fun s ↦ ⟨?_, fun hmisread ↦ ⟨fun a ha ↦ ?_, ?_⟩⟩, fun a ha ↦ ?_⟩
  · rintro ⟨hform, -⟩ hmisread
    obtain ⟨a, ha⟩ := hmisread.exists_eq_ok hp'
    obtain ⟨t, rfl, -⟩ := hform a ha
    exact t.minus_notMem_tail hmisread.minus_mem_tail
  · obtain ⟨t, rfl⟩ := exists_eq_text hp' (fun hminus ↦ hmisread (misread_of_eq_ok hp' hminus ha)) ha
    exact ⟨t, rfl, t.eq_value_of_amountFromString hp' ha⟩
  · rintro t rfl hne hle
    exact t.amountFromString_text hp' hne hle
  · obtain ⟨t, hprint, hne, hvalue⟩ := amountToString_eq hp' a
    refine ⟨t.text, hprint, ?_⟩
    rw [← hvalue] at ha ⊢
    exact t.amountFromString_text hp' hne ha

/-- A text is read exactly at a precision of two. -/
theorem amount_from_string_iff_two :
    ((∀ s, ((∀ a, amountFromString 2 s = .ok a → ∃ t : AmountText 2, s = t.text ∧ a = t.value) ∧
        ∀ t : AmountText 2, s = t.text → t.whole ≠ [] → t.value.natAbs ≤ maxShareSupply →
          amountFromString 2 s = .ok t.value) ↔ ¬Misread 2 s) ∧
      ∀ a : ℤ, a.natAbs ≤ maxShareSupply → ∃ text, amountToString 2 a = .ok text ∧ amountFromString 2 text = .ok a) ∧
      amountToString 2 (-50) = .ok "-0.50".toList ∧ amountFromString 2 "-0.50".toList = .ok (-50) :=
  ⟨amount_from_string_iff (by decide), by decide, by decide⟩

/-- `"1-2"` is not an amount, and is read as two. -/
theorem amount_from_string_sign_inside :
    amountFromString 2 "1-2".toList = .ok 200 ∧ ¬∃ t : AmountText 2, "1-2".toList = t.text := by
  refine ⟨by decide, ?_⟩
  rintro ⟨t, ht⟩
  refine t.minus_notMem_tail ?_
  rw [← ht]
  decide

end AmountString

end Playchain
