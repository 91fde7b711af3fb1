import Mathlib.Data.List.TakeWhile
import Playchain.Protocol.Version

/-!
# Texts of versions

Writing a version and reading the text gives the version back (`Version.fromVariant_toText`). For an
extended version this depends on the target that is read into: a text without a `+` says nothing about
metadata, and reading it keeps the metadata that the target already holds.
-/

namespace Playchain

namespace TextStream

/-! ### Reading what was written -/

/-- Digits are never skipped as white space. -/
theorem isSpace_eq_false_of_isDigit {c : Char} (h : c.isDigit) : isSpace c = false := by
  have hc : 48 ≤ c.toNat ∧ c.toNat ≤ 57 := by
    simp only [Char.isDigit, ge_iff_le, Bool.and_eq_true, decide_eq_true_eq,
      UInt32.le_iff_toNat_le] at h
    exact h
  have hne {d : Char} (hd : d.toNat < 48) : c ≠ d := by
    rintro rfl
    omega
  rw [isSpace, decide_eq_false_iff_not]
  rintro (h | h | h | h | h | h)
  · exact hne (by decide) h
  · exact hne (by decide) h
  · exact hne (by decide) h
  · exact hne (by decide) h
  · omega
  · omega

/-- The decimal digits of a number start with a digit. -/
theorem exists_cons_toDigits (n : ℕ) :
    ∃ c cs, Nat.toDigits 10 n = c :: cs ∧ c.isDigit := by
  obtain ⟨c, cs, h⟩ := List.exists_cons_of_ne_nil (Nat.toDigits_ne_nil (n := n) (b := 10))
  refine ⟨c, cs, h, Nat.isDigit_of_mem_toDigits (b := 10) (n := n) (by decide) le_rfl ?_⟩
  rw [h]
  exact List.mem_cons_self

/-- A number is read back from its digits, up to the first character that is not a digit. -/
theorem extractUInt32_toDigits {n : ℕ} (hn : n < 2 ^ 32) {rest : List Char}
    (hrest : ∀ c ∈ rest.head?, c.isDigit = false) :
    extractUInt32 { rest := Nat.toDigits 10 n ++ rest } =
      (n, { rest := rest, eof := rest.isEmpty }) := by
  obtain ⟨c, cs, hcs, hc⟩ := exists_cons_toDigits n
  have hall : ∀ d ∈ Nat.toDigits 10 n, d.isDigit := fun d hd ↦
    Nat.isDigit_of_mem_toDigits (by decide) le_rfl hd
  have hsentry : sentry { rest := Nat.toDigits 10 n ++ rest } =
      (some { rest := Nat.toDigits 10 n ++ rest }, { rest := Nat.toDigits 10 n ++ rest }) := by
    rw [hcs, sentry, if_neg (by simp), List.cons_append, List.dropWhile_cons_of_neg]
    simp [isSpace_eq_false_of_isDigit hc]
  have hsign {d : Char} (hd : d.isDigit = false) :
      (Nat.toDigits 10 n ++ rest).head? ≠ some d := by
    rw [hcs]
    rintro ⟨⟩
    simp [hc] at hd
  have htake : (Nat.toDigits 10 n ++ rest).takeWhile Char.isDigit = Nat.toDigits 10 n := by
    rw [List.takeWhile_append_of_pos hall]
    cases rest with
    | nil => simp
    | cons d ds => simp [hrest d rfl]
  have hdrop : (Nat.toDigits 10 n ++ rest).dropWhile Char.isDigit = rest := by
    rw [List.dropWhile_append_of_pos hall]
    cases rest with
    | nil => rfl
    | cons d ds => simp [hrest d rfl]
  have hvalue : digitsValue (Nat.toDigits 10 n) = n := Nat.ofDigitChars_ten_toDigits
  rw [extractUInt32, hsentry]
  simp only [hsign (show Char.isDigit '-' = false from rfl),
    hsign (show Char.isDigit '+' = false from rfl), or_self, if_false, htake, hdrop, hvalue]
  rw [if_neg (by simp [Nat.toDigits_ne_nil]), if_neg (by omega)]

/-- A character that is not white space is read back. -/
theorem extractChar_cons {c : Char} (hc : isSpace c = false) (rest : List Char) :
    extractChar { rest := c :: rest } = (some c, { rest := rest }) := by
  have hsentry : sentry { rest := c :: rest } =
      (some { rest := c :: rest }, { rest := c :: rest }) := by
    rw [sentry, if_neg (by simp), List.dropWhile_cons_of_neg (by simp [hc])]
  rw [extractChar, hsentry]

end TextStream

namespace Version

open TextStream

theorem majorV_lt (v : Version) : v.majorV < 2 ^ 8 := Nat.mod_lt _ (by decide)

theorem minorV_lt (v : Version) : v.minorV < 2 ^ 8 := Nat.mod_lt _ (by decide)

theorem patch_lt (v : Version) : v.patch < 2 ^ 16 := Nat.mod_lt _ (by decide)

/-- The three parts make up the packed number. -/
theorem vNum_eq {v : Version} (hv : v.vNum < 2 ^ 32) :
    v.majorV * 2 ^ 24 + v.minorV * 2 ^ 16 + v.patch = v.vNum := by
  rw [majorV, minorV, patch]
  omega

/-- **Round trip of a version.** -/
theorem fromVariant_toText {v : Version} (hv : v.vNum < 2 ^ 32) :
    fromVariant v.toText = .ok v := by
  have hmajor := v.majorV_lt
  have hminor := v.minorV_lt
  have hpatch := v.patch_lt
  have hdot {l : List Char} : ∀ c ∈ ('.' :: l).head?, c.isDigit = false := by
    rintro c ⟨⟩
    rfl
  have hend : extractUInt32 { rest := Nat.toDigits 10 v.patch } =
      (v.patch, { rest := [], eof := true }) := by
    have h := extractUInt32_toDigits (show v.patch < 2 ^ 32 by omega) (show ∀ c ∈ ([] : List Char).head?,
      c.isDigit = false by simp)
    simpa using h
  rw [fromVariant, toText, extractUInt32_toDigits (by omega) hdot, List.isEmpty_cons]
  dsimp only
  rw [extractChar_cons (by decide)]
  dsimp only
  rw [extractUInt32_toDigits (by omega) hdot, List.isEmpty_cons]
  dsimp only
  rw [extractChar_cons (by decide)]
  dsimp only
  rw [hend]
  dsimp only
  rw [fcAssert_of_true (by simp), fcAssert_of_true (by omega), fcAssert_of_true (by omega), fcAssert_of_true (by omega),
    fcAssert_of_true rfl, vNum_eq hv]
  rfl

/-- The text of a version has no `+`. -/
theorem plus_notMem_toText (v : Version) : '+' ∉ v.toText := by
  have hdigits (n : ℕ) : '+' ∉ Nat.toDigits 10 n := fun h ↦ by
    simpa using Nat.isDigit_of_mem_toDigits (by decide) le_rfl h
  simp [toText, hdigits]

theorem ne_plus_of_mem_toText (v : Version) : ∀ c ∈ v.toText, decide (c ≠ '+') = true := by
  intro c hc
  rw [decide_eq_true_eq]
  rintro rfl
  exact v.plus_notMem_toText hc

end Version

namespace VersionExt

/-! ### Extended versions -/

/-- What `from_variant` leaves in a target that held `w`, by the two parts of the text. -/
theorem fromVariant_eq (text : String) (w : VersionExt) :
    fromVariant text w =
      (Version.fromVariant (text.toList.takeWhile fun c ↦ c ≠ '+')).map fun base ↦
        { base := base
          metadata := if '+' ∈ text.toList then
              String.ofList (text.toList.dropWhile fun c ↦ c ≠ '+').tail
            else w.metadata } := by
  rw [fromVariant]
  by_cases hplus : '+' ∈ text.toList
  · have hne : text.toList.dropWhile (fun c ↦ c ≠ '+') ≠ [] := fun h ↦ by
      simpa using List.dropWhile_eq_nil_iff.1 h '+' hplus
    obtain ⟨c, cs, hcs⟩ := List.exists_cons_of_ne_nil hne
    rw [hcs, if_pos hplus]
    cases Version.fromVariant (text.toList.takeWhile fun c ↦ c ≠ '+') <;> rfl
  · have hnil : text.toList.dropWhile (fun c ↦ c ≠ '+') = [] :=
      List.dropWhile_eq_nil_iff.2 fun c hc ↦ by
        rw [decide_eq_true_eq]
        rintro rfl
        exact hplus hc
    rw [hnil, if_neg hplus]
    cases Version.fromVariant (text.toList.takeWhile fun c ↦ c ≠ '+') <;> rfl

/-- The text of an extended version has a `+` if there is metadata. -/
theorem plus_mem_toText_iff (v : VersionExt) : '+' ∈ v.toText.toList ↔ v.metadata ≠ "" := by
  rw [toText, String.toList_ofList]
  split
  case isTrue h => simp [v.base.plus_notMem_toText, h]
  case isFalse h => simp [h]

/-- The part of the text before the first `+` is the text of the version. -/
theorem takeWhile_toText (v : VersionExt) :
    v.toText.toList.takeWhile (fun c ↦ c ≠ '+') = v.base.toText := by
  rw [toText, String.toList_ofList]
  split
  case isTrue => exact List.takeWhile_eq_self_iff.2 v.base.ne_plus_of_mem_toText
  case isFalse =>
    rw [List.takeWhile_append_of_pos v.base.ne_plus_of_mem_toText]
    simp

/-- The part after the first `+` is the metadata, whatever it contains. -/
theorem tail_dropWhile_toText {v : VersionExt} (h : v.metadata ≠ "") :
    (v.toText.toList.dropWhile fun c ↦ c ≠ '+').tail = v.metadata.toList := by
  rw [toText, String.toList_ofList, if_neg h,
    List.dropWhile_append_of_pos v.base.ne_plus_of_mem_toText]
  simp

/-- Reading a written version into any target: the version comes back, and so does its metadata if
there is any. -/
theorem fromVariant_toText_eq {v : VersionExt} (hv : v.base.vNum < 2 ^ 32) (w : VersionExt) :
    fromVariant v.toText w =
      .ok { v with metadata := if v.metadata = "" then w.metadata else v.metadata } := by
  rw [fromVariant_eq, takeWhile_toText, Version.fromVariant_toText hv]
  by_cases h : v.metadata = ""
  · simp [plus_mem_toText_iff, h, Except.map]
  · rw [if_pos ((plus_mem_toText_iff v).2 h), tail_dropWhile_toText h, String.ofList_toList, if_neg h]
    rfl

/-- **Round trip of an extended version.** A version that is written and read into the target `w`
comes back exactly when it has metadata or the target has none; and what an accepted text leaves in
two targets agrees exactly when the text has a `+` or the two held the same metadata. -/
theorem fromVariant_toText_iff (v w : VersionExt) (hv : v.base.vNum < 2 ^ 32) :
    (fromVariant v.toText w = .ok v ↔ v.metadata ≠ "" ∨ w.metadata = "") ∧
      ∀ (text : String) (w' result : VersionExt), fromVariant text w = .ok result →
        (fromVariant text w' = .ok result ↔
          '+' ∈ text.toList ∨ w'.metadata = w.metadata) := by
  constructor
  · rw [fromVariant_toText_eq hv, Except.ok.injEq, VersionExt.mk.injEq, and_iff_right rfl]
    by_cases h : v.metadata = ""
    · simp [h]
    · simp [h]
  · intro text w' result hresult
    rw [fromVariant_eq] at hresult ⊢
    cases hbase : Version.fromVariant (text.toList.takeWhile fun c ↦ c ≠ '+') with
    | error e =>
      rw [hbase] at hresult
      cases hresult
    | ok base =>
      rw [hbase] at hresult
      simp only [Except.map, Except.ok.injEq] at hresult ⊢
      subst hresult
      by_cases hplus : '+' ∈ text.toList
      · simp [hplus]
      · simp [hplus]

/-- Metadata with a `+` of its own, read over other metadata. -/
theorem fromVariant_toText_iff_nested :
    fromVariant (toText { base := { vNum := 0x01020003 }, metadata := "a+b" })
      { metadata := "old" } = .ok { base := { vNum := 0x01020003 }, metadata := "a+b" } :=
  (fromVariant_toText_iff { base := { vNum := 0x01020003 }, metadata := "a+b" }
    { metadata := "old" } (by decide)).1.2 (Or.inl (by decide))

/-- The text of a version without metadata leaves the metadata of the target in place. -/
theorem fromVariant_keeps_metadata :
    fromVariant (toText { base := { vNum := 0x01020003 } }) { metadata := "old" } =
        .ok { base := { vNum := 0x01020003 }, metadata := "old" } ∧
      fromVariant (toText { base := { vNum := 0x01020003 } }) {} ≠
        fromVariant (toText { base := { vNum := 0x01020003 } }) { metadata := "old" } := by
  decide

end VersionExt

end Playchain
