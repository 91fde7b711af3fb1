import Playchain.Protocol.Extension

/-!
# Extensions round trip

What `pack` writes is the number of the members that are set and, in the order of their places, the place and the value
of each (`packMembers_eq`, `packCount_eq`). `unpack` undoes it (`unpackMembers_of_pack`). The place that is read ahead has
to be that of a later member, so that places that repeat, come in another order or belong to no member leave the counter
above zero. But the numbers of the stream are cut to their low 32 bits: exactly the streams that are right up to
multiples of `2 ^ 32` are read (`unpack_iff`). The variants have an entry for each member that is set, and the names tell
them apart.
-/

namespace Playchain

namespace Extension

variable (tag : Codec UInt64)

/-! ### What is written -/

/-- The members that are set, each with its place and its bytes; the first member has place `i`. -/
def setMembers : (ms : List ExtensionMember) → Values ms → ℕ → List (ℕ × List UInt8)
  | [], _, _ => []
  | m :: ms, vs, i =>
    match vs.1 with
    | some v => (i, m.codec.encode v) :: setMembers ms vs.2 (i + 1)
    | none => setMembers ms vs.2 (i + 1)

/-- Numbers, each with bytes behind it. -/
def numberedBytes (l : List (UInt64 × List UInt8)) : List UInt8 := l.flatMap fun e ↦ tag.encode e.1 ++ e.2

/-- The bytes of the members that are set. -/
def memberBytes (entries : List (ℕ × List UInt8)) : List UInt8 :=
  numberedBytes tag (entries.map fun e ↦ (e.1.toUInt64, e.2))

/-- The numbers are the places up to multiples of `2 ^ 32`, and the bytes are the same. -/
def Stands (l : List (UInt64 × List UInt8)) (entries : List (ℕ × List UInt8)) : Prop :=
  l.map (Prod.map UInt64.toUInt32 id) = entries.map (Prod.map Nat.toUInt32 id)

theorem length_setMembers_le (ms : List ExtensionMember) (vs : Values ms) (i : ℕ) :
    (setMembers ms vs i).length ≤ ms.length := by
  induction ms generalizing i with
  | nil => exact le_rfl
  | cons m ms ih =>
    obtain ⟨v, vs⟩ := vs
    have h := ih vs (i + 1)
    cases v with
    | none => exact h.trans (Nat.le_succ _)
    | some v => exact Nat.succ_le_succ h

/-- The places are those of members from the first on. -/
theorem mem_setMembers {ms : List ExtensionMember} {vs : Values ms} {i : ℕ} {e : ℕ × List UInt8}
    (h : e ∈ setMembers ms vs i) : i ≤ e.1 ∧ e.1 < i + ms.length := by
  induction ms generalizing i with
  | nil => cases h
  | cons m ms ih =>
    obtain ⟨v, vs⟩ := vs
    rw [List.length_cons]
    have hrest (he : e ∈ setMembers ms vs (i + 1)) : i ≤ e.1 ∧ e.1 < i + (ms.length + 1) := by
      have h' := ih he
      omega
    cases v with
    | none => exact hrest h
    | some v =>
      rcases List.mem_cons.1 h with rfl | he
      · dsimp only
        omega
      · exact hrest he

/-- The places increase. -/
theorem pairwise_setMembers (ms : List ExtensionMember) (vs : Values ms) (i : ℕ) :
    (setMembers ms vs i).Pairwise (·.1 < ·.1) := by
  induction ms generalizing i with
  | nil => exact List.Pairwise.nil
  | cons m ms ih =>
    obtain ⟨v, vs⟩ := vs
    cases v with
    | none => exact ih vs (i + 1)
    | some v => exact List.pairwise_cons.2 ⟨fun e he ↦ (mem_setMembers he).1, ih vs (i + 1)⟩

variable (m : ExtensionMember) (ms : List ExtensionMember) (v : m.Value) (vs : Values ms)

theorem packCount_none (count : UInt32) : packCount (m :: ms) (none, vs) count = packCount ms vs (count + 0) := rfl

theorem packCount_some (count : UInt32) : packCount (m :: ms) (some v, vs) count = packCount ms vs (count + 1) := rfl

theorem packMembers_none (which : UInt32) (stream : List UInt8) :
    packMembers tag (m :: ms) (none, vs) which stream = packMembers tag ms vs (which + 1) stream := rfl

theorem packMembers_some (which : UInt32) (stream : List UInt8) :
    packMembers tag (m :: ms) (some v, vs) which stream =
      packMembers tag ms vs (which + 1) (stream ++ tag.encode which.toUInt64 ++ m.codec.encode v) := rfl

theorem setMembers_none (i : ℕ) : setMembers (m :: ms) (none, vs) i = setMembers ms vs (i + 1) := rfl

theorem setMembers_some (i : ℕ) :
    setMembers (m :: ms) (some v, vs) i = (i, m.codec.encode v) :: setMembers ms vs (i + 1) := rfl

/-- The counter counts the members that are set. -/
theorem packCount_eq (ms : List ExtensionMember) (vs : Values ms) (count : UInt32) (i : ℕ) :
    packCount ms vs count = count + (setMembers ms vs i).length.toUInt32 := by
  induction ms generalizing count i with
  | nil => exact (UInt32.add_zero count).symm
  | cons m ms ih =>
    obtain ⟨v, vs⟩ := vs
    cases v with
    | none =>
      rw [packCount_none, ih vs _ (i + 1), setMembers_none, UInt32.add_zero]
    | some v =>
      rw [packCount_some, ih vs _ (i + 1), setMembers_some, List.length_cons, UInt32.add_assoc]
      congr 1
      rw [UInt32.add_comm]
      simp

theorem toNat_toUInt32 {n : ℕ} (h : n < 2 ^ 32) : n.toUInt32.toNat = n := by
  rw [UInt32.toNat_ofNat']
  exact Nat.mod_eq_of_lt h

theorem toUInt64_toUInt32 {n : ℕ} (h : n < 2 ^ 32) : n.toUInt32.toUInt64 = n.toUInt64 := by
  refine UInt64.toNat_inj.1 ?_
  rw [UInt32.toNat_toUInt64, toNat_toUInt32 h, UInt64.toNat_ofNat', Nat.mod_eq_of_lt (by omega)]

theorem toUInt32_toUInt64 {n : ℕ} (h : n < 2 ^ 32) : n.toUInt64.toUInt32 = n.toUInt32 := by
  rw [← toUInt64_toUInt32 h, UInt32.toUInt32_toUInt64]

/-- The visitor writes the members that are set. -/
theorem packMembers_eq (ms : List ExtensionMember) (vs : Values ms) (i : ℕ) (hlen : i + ms.length < 2 ^ 32)
    (stream : List UInt8) :
    packMembers tag ms vs i.toUInt32 stream = stream ++ memberBytes tag (setMembers ms vs i) := by
  induction ms generalizing i stream with
  | nil => exact (List.append_nil stream).symm
  | cons m ms ih =>
    obtain ⟨v, vs⟩ := vs
    rw [List.length_cons] at hlen
    have hnext : i.toUInt32 + 1 = (i + 1).toUInt32 := by simp
    cases v with
    | none =>
      rw [packMembers_none, setMembers_none, hnext, ih vs (i + 1) (by omega)]
    | some v =>
      rw [packMembers_some, setMembers_some, hnext, ih vs (i + 1) (by omega), toUInt64_toUInt32 (by omega)]
      simp [memberBytes, numberedBytes]

/-- **The form of what is packed.** -/
theorem pack_eq (T : ExtensionStruct) (stream : List UInt8) (vs : Values T.members) {maxDepth : ℕ} (h : 1 < maxDepth) :
    pack tag stream vs maxDepth =
      .ok (stream ++ tag.encode (setMembers T.members vs 0).length.toUInt64 ++
        memberBytes tag (setMembers T.members vs 0)) := by
  have hshort : (setMembers T.members vs 0).length < 2 ^ 32 :=
    (length_setMembers_le T.members vs 0).trans_lt T.length_lt
  unfold pack
  rw [if_neg (by omega)]
  dsimp only
  rw [if_neg (by omega), packCount_eq T.members vs 0 0, UInt32.zero_add, toUInt64_toUInt32 hshort]
  exact congrArg Except.ok (packMembers_eq tag T.members vs 0 (by rw [Nat.zero_add]; exact T.length_lt) _)

/-! ### Reading back -/

theorem read_encode {α : Type} (codec : Codec α) (a : α) (rest : List UInt8) :
    read codec (codec.encode a ++ rest) = .ok (a, rest) := by
  unfold read
  rw [codec.decode_encode]

theorem eq_of_read {α : Type} {codec : Codec α} {stream rest : List UInt8} {a : α}
    (h : read codec stream = .ok (a, rest)) : stream = codec.encode a ++ rest := by
  unfold read at h
  rcases hdecode : codec.decode stream with _ | r
  · rw [hdecode] at h
    cases h
  · rw [hdecode] at h
    cases h
    exact codec.eq_encode_of_decode _ _ _ hdecode

theorem toUInt32_pos {n : ℕ} (hpos : 0 < n) (h : n < 2 ^ 32) : 0 < n.toUInt32 := by
  rw [UInt32.lt_iff_toNat_lt, toNat_toUInt32 h]
  exact hpos

/-- The visitor's state in front of these numbers and bytes, with the first number read. -/
def ahead (l : List (UInt64 × List UInt8)) (rest : List UInt8) (which nextWhich : UInt32) : UnpackState :=
  match l with
  | [] => { stream := rest, which := which, nextWhich := nextWhich, countLeft := 0 }
  | e :: es =>
    { stream := e.2 ++ (numberedBytes tag es ++ rest)
      which := which
      nextWhich := e.1.toUInt32
      countLeft := (es.length + 1).toUInt32 }

theorem maybeReadNextWhich_numberedBytes (l : List (UInt64 × List UInt8)) (hlen : l.length < 2 ^ 32)
    (rest : List UInt8) (which nextWhich : UInt32) :
    maybeReadNextWhich tag ⟨numberedBytes tag l ++ rest, which, nextWhich, l.length.toUInt32⟩ =
      .ok (ahead tag l rest which nextWhich) := by
  unfold maybeReadNextWhich
  cases l with
  | nil => rfl
  | cons e es =>
    have hbytes : numberedBytes tag (e :: es) ++ rest = tag.encode e.1 ++ (e.2 ++ (numberedBytes tag es ++ rest)) := by
      simp [numberedBytes]
    have hpos : 0 < (e :: es).length.toUInt32 := toUInt32_pos (Nat.succ_pos es.length) hlen
    dsimp only
    rw [if_pos hpos, hbytes, read_encode, Except.ok_bind]
    rfl

theorem Stands.length_eq {l : List (UInt64 × List UInt8)} {entries : List (ℕ × List UInt8)}
    (h : Stands l entries) : l.length = entries.length := by
  have hlength := congrArg List.length h
  rwa [List.length_map, List.length_map] at hlength

/-- **What was written is read back**, member by member; of the numbers only the low bits matter. -/
theorem unpackMembers_of_pack (ms : List ExtensionMember) (vs : Values ms) (i : ℕ) (hlen : i + ms.length < 2 ^ 32)
    {l : List (UInt64 × List UInt8)} (hl : Stands l (setMembers ms vs i)) (rest : List UInt8) (nextWhich : UInt32) :
    ∃ s, unpackMembers tag ms (ahead tag l rest i.toUInt32 nextWhich) = .ok (vs, s) ∧
      s.countLeft = 0 ∧ s.stream = rest := by
  induction ms generalizing i nextWhich l with
  | nil =>
    obtain rfl : l = [] := List.length_eq_zero_iff.1 hl.length_eq
    exact ⟨_, rfl, rfl, rfl⟩
  | cons m ms ih =>
    obtain ⟨v, vs⟩ := vs
    rw [List.length_cons] at hlen
    have hnext : i.toUInt32 + 1 = (i + 1).toUInt32 := by simp
    have hshort : (setMembers ms vs (i + 1)).length ≤ ms.length := length_setMembers_le ms vs (i + 1)
    have hwhich (l : List (UInt64 × List UInt8)) (n : UInt32) : { ahead tag l rest i.toUInt32 n with
          which := (ahead tag l rest i.toUInt32 n).which + 1 } = ahead tag l rest (i + 1).toUInt32 n := by
      rw [← hnext]
      cases l <;> rfl
    cases v with
    | none =>
      rw [setMembers_none] at hl
      obtain ⟨s, hs, hs'⟩ := ih vs (i + 1) (by omega) hl nextWhich
      refine ⟨s, ?_, hs'⟩
      -- the place that was read ahead, if any, is that of a later member
      have hother : ¬(0 < (ahead tag l rest i.toUInt32 nextWhich).countLeft ∧
          (ahead tag l rest i.toUInt32 nextWhich).which = (ahead tag l rest i.toUInt32 nextWhich).nextWhich) := by
        cases l with
        | nil =>
          rintro ⟨hpos, -⟩
          exact UInt32.lt_irrefl 0 hpos
        | cons p l =>
          rintro ⟨-, heq⟩
          obtain ⟨e, es, hentries, hp, -⟩ := List.map_eq_cons_iff.1 hl.symm
          have hmem := mem_setMembers (hentries ▸ List.mem_cons_self : e ∈ setMembers ms vs (i + 1))
          have hplace : e.1.toUInt32 = p.1.toUInt32 := congrArg Prod.fst hp
          have heq' := congrArg UInt32.toNat (hplace.trans (show i.toUInt32 = p.1.toUInt32 from heq).symm)
          rw [toNat_toUInt32 (by omega), toNat_toUInt32 (by omega)] at heq'
          omega
      rw [unpackMembers, if_neg hother, hwhich, hs, Except.ok_bind]
      rfl
    | some v =>
      rw [setMembers_some] at hl
      obtain ⟨p, l, rfl, hp, hl⟩ := List.map_eq_cons_iff.1 hl
      have hplace : p.1.toUInt32 = i.toUInt32 := congrArg Prod.fst hp
      have hbytes : p.2 = m.codec.encode v := congrArg Prod.snd hp
      obtain ⟨s, hs, hs'⟩ := ih vs (i + 1) (by omega) hl p.1.toUInt32
      have hlength : l.length = (setMembers ms vs (i + 1)).length := Stands.length_eq hl
      refine ⟨s, ?_, hs'⟩
      have hcount : (l.length + 1).toUInt32 - 1 = l.length.toUInt32 := by simp
      have hturn : i.toUInt32 = p.1.toUInt32 := hplace.symm
      rw [unpackMembers, if_pos ⟨toUInt32_pos (Nat.succ_pos _) (by omega), hturn⟩]
      have hahead : ahead tag (p :: l) rest i.toUInt32 nextWhich =
          ⟨p.2 ++ (numberedBytes tag l ++ rest), i.toUInt32, p.1.toUInt32, (l.length + 1).toUInt32⟩ := rfl
      rw [hahead]
      dsimp only
      rw [hbytes, read_encode, Except.ok_bind, hcount, maybeReadNextWhich_numberedBytes tag _ (by omega),
        Except.ok_bind, hwhich, hs, Except.ok_bind]
      rfl

/-- What is left to read, with the number that was read ahead. -/
def Unread (s : UnpackState) (bytes : List UInt8) : Prop :=
  if 0 < s.countLeft then ∃ w, w.toUInt32 = s.nextWhich ∧ bytes = tag.encode w ++ s.stream else bytes = s.stream

theorem unread_of_maybeReadNextWhich {s t : UnpackState} (h : maybeReadNextWhich tag s = .ok t) :
    Unread tag t s.stream ∧ t.which = s.which ∧ t.countLeft = s.countLeft := by
  unfold maybeReadNextWhich at h
  by_cases hpos : 0 < s.countLeft
  · rw [if_pos hpos] at h
    obtain ⟨⟨w, stream⟩, hread, ht⟩ := Except.bind_eq_ok.1 h
    obtain rfl := Except.ok.inj ht
    refine ⟨?_, rfl, rfl⟩
    rw [Unread, if_pos hpos]
    exact ⟨w, rfl, eq_of_read hread⟩
  · rw [if_neg hpos] at h
    obtain rfl := Except.ok.inj h
    refine ⟨?_, rfl, rfl⟩
    rw [Unread, if_neg hpos]

/-- **Only what is written is read**, up to the high bits of the numbers. -/
theorem exists_stands_of_unpackMembers {ms : List ExtensionMember} {vs : Values ms} {i : ℕ} {s s' : UnpackState}
    {bytes : List UInt8} (hwhich : s.which = i.toUInt32) (hbytes : Unread tag s bytes)
    (h : unpackMembers tag ms s = .ok (vs, s')) (hzero : s'.countLeft = 0) :
    ∃ l, Stands l (setMembers ms vs i) ∧ bytes = numberedBytes tag l ++ s'.stream ∧
      s.countLeft = l.length.toUInt32 := by
  induction ms generalizing i s bytes with
  | nil =>
    obtain ⟨-, rfl⟩ := Prod.mk.inj (Except.ok.inj h)
    have hnone : ¬0 < s.countLeft := by
      rw [hzero]
      exact UInt32.lt_irrefl 0
    rw [Unread, if_neg hnone] at hbytes
    exact ⟨[], rfl, hbytes, hzero⟩
  | cons m ms ih =>
    have hnext : s.which + 1 = (i + 1).toUInt32 := by simp [hwhich]
    unfold unpackMembers at h
    by_cases hturn : 0 < s.countLeft ∧ s.which = s.nextWhich
    · rw [if_pos hturn] at h
      obtain ⟨⟨temp, stream⟩, hread, h⟩ := Except.bind_eq_ok.1 h
      obtain ⟨t, ht, h⟩ := Except.bind_eq_ok.1 h
      obtain ⟨⟨vs', t'⟩, hrest, hvs⟩ := Except.bind_eq_ok.1 h
      obtain ⟨rfl, rfl⟩ := Prod.mk.inj (Except.ok.inj hvs)
      obtain ⟨hunread, hwhich', hcount'⟩ := unread_of_maybeReadNextWhich tag ht
      have hnext' : t.which + 1 = (i + 1).toUInt32 := by rw [hwhich', hnext]
      obtain ⟨l, hl, hstream, hcount⟩ := ih (s := { t with which := t.which + 1 }) hnext' hunread hrest
      rw [Unread, if_pos hturn.1] at hbytes
      obtain ⟨w, hw, rfl⟩ := hbytes
      rw [setMembers_some]
      refine ⟨(w, m.codec.encode temp) :: l, ?_, ?_, ?_⟩
      · have hplace : w.toUInt32 = i.toUInt32 := hw.trans (hturn.2.symm.trans hwhich)
        exact congrArg₂ List.cons (Prod.ext hplace rfl) hl
      · dsimp only at hstream
        rw [eq_of_read hread, hstream]
        simp [numberedBytes]
      · have hcount'' : s.countLeft - 1 = l.length.toUInt32 := hcount'.symm.trans hcount
        rw [List.length_cons, ← UInt32.sub_add_cancel s.countLeft 1, hcount'']
        simp
    · rw [if_neg hturn] at h
      obtain ⟨⟨vs', t'⟩, hrest, hvs⟩ := Except.bind_eq_ok.1 h
      obtain ⟨rfl, rfl⟩ := Prod.mk.inj (Except.ok.inj hvs)
      rw [setMembers_none]
      exact ih (s := { s with which := s.which + 1 }) hnext hbytes hrest

/-- **What is unpacked**: a number that stands for how many members are set, and these members in the order of their
places, each behind a number that stands for its place. -/
theorem unpack_iff (T : ExtensionStruct) (bytes : List UInt8) (vs : Values T.members) (rest : List UInt8)
    {maxDepth : ℕ} (h : 1 < maxDepth) :
    unpack tag T.members bytes maxDepth = .ok (vs, rest) ↔
      ∃ (c : UInt64) (l : List (UInt64 × List UInt8)), c.toUInt32 = l.length.toUInt32 ∧
        Stands l (setMembers T.members vs 0) ∧ bytes = tag.encode c ++ numberedBytes tag l ++ rest := by
  unfold unpack
  rw [if_neg (by omega)]
  dsimp only
  unfold unpackInit
  rw [if_neg (by omega)]
  constructor
  · intro hunpack
    obtain ⟨s, hinit, hunpack⟩ := Except.bind_eq_ok.1 hunpack
    obtain ⟨⟨vs', s'⟩, hmembers, hunpack⟩ := Except.bind_eq_ok.1 hunpack
    obtain ⟨⟨c, stream⟩, hread, hahead⟩ := Except.bind_eq_ok.1 hinit
    dsimp only at hunpack
    by_cases hzero : s'.countLeft = 0
    · rw [if_pos hzero] at hunpack
      obtain ⟨rfl, rfl⟩ := Prod.mk.inj (Except.ok.inj hunpack)
      obtain ⟨hunread, hwhich, hcount⟩ := unread_of_maybeReadNextWhich tag hahead
      obtain ⟨l, hl, hstream, hcount'⟩ :=
        exists_stands_of_unpackMembers tag (show s.which = Nat.toUInt32 0 from hwhich) hunread hmembers hzero
      refine ⟨c, l, hcount.symm.trans hcount', hl, ?_⟩
      rw [eq_of_read hread, List.append_assoc]
      exact congrArg _ hstream
    · rw [if_neg hzero] at hunpack
      cases hunpack
  · rintro ⟨c, l, hc, hl, rfl⟩
    have hshort : l.length < 2 ^ 32 :=
      hl.length_eq ▸ (length_setMembers_le T.members vs 0).trans_lt T.length_lt
    obtain ⟨s, hs, hzero, hrest⟩ :
        ∃ s, unpackMembers tag T.members (ahead tag l rest 0 0) = .ok (vs, s) ∧ s.countLeft = 0 ∧ s.stream = rest :=
      unpackMembers_of_pack tag T.members vs 0 (by rw [Nat.zero_add]; exact T.length_lt) hl rest 0
    rw [List.append_assoc, read_encode]
    dsimp only [Except.ok_bind]
    rw [hc, maybeReadNextWhich_numberedBytes tag _ hshort, Except.ok_bind, hs, Except.ok_bind]
    dsimp only
    rw [if_pos hzero, hrest]
    rfl

/-! ### Numbers that are cut -/

/-- A codec tells its values apart, whatever follows them. -/
theorem encode_append_inj {α : Type} (codec : Codec α) {a b : α} {s t : List UInt8}
    (h : codec.encode a ++ s = codec.encode b ++ t) : a = b ∧ s = t := by
  have hdecode := congrArg codec.decode h
  rw [codec.decode_encode, codec.decode_encode] at hdecode
  exact Prod.mk.inj (Option.some.inj hdecode)

theorem eq_of_narrow {w : UInt64} {n : ℕ} (hw : w < 4294967296) (h : w.toUInt32 = n.toUInt32) (hn : n < 2 ^ 32) :
    w = n.toUInt64 := by
  have hnat := congrArg UInt32.toNat h
  have hlt : w.toNat < 2 ^ 32 := UInt64.lt_iff_toNat_lt.1 hw
  rw [UInt64.toNat_toUInt32, toNat_toUInt32 hn, Nat.mod_eq_of_lt hlt] at hnat
  refine UInt64.toNat_inj.1 ?_
  rw [UInt64.toNat_ofNat', Nat.mod_eq_of_lt (by omega), hnat]

theorem toUInt64_lt {n : ℕ} (hn : n < 2 ^ 32) : n.toUInt64 < 4294967296 := by
  rw [UInt64.lt_iff_toNat_lt, UInt64.toNat_ofNat', Nat.mod_eq_of_lt (by omega)]
  exact hn

/-- **The numbers are the places** exactly if they fit 32 bits. -/
theorem numberedBytes_eq_iff {l : List (UInt64 × List UInt8)} {entries : List (ℕ × List UInt8)}
    (h : Stands l entries) (hentries : ∀ e ∈ entries, e.1 < 2 ^ 32) (rest : List UInt8) :
    numberedBytes tag l ++ rest = memberBytes tag entries ++ rest ↔ ∀ e ∈ l, e.1 < 4294967296 := by
  induction entries generalizing l with
  | nil =>
    obtain rfl : l = [] := List.length_eq_zero_iff.1 h.length_eq
    exact iff_of_true rfl fun e he ↦ absurd he List.not_mem_nil
  | cons e entries ih =>
    obtain ⟨p, l, rfl, hp, hl⟩ := List.map_eq_cons_iff.1 h
    have hplace : p.1.toUInt32 = e.1.toUInt32 := congrArg Prod.fst hp
    have hbytes : p.2 = e.2 := congrArg Prod.snd hp
    have he : e.1 < 2 ^ 32 := hentries e List.mem_cons_self
    have hrest := ih hl fun e' he' ↦ hentries e' (List.mem_cons_of_mem _ he')
    have hleft : numberedBytes tag (p :: l) ++ rest = tag.encode p.1 ++ (p.2 ++ (numberedBytes tag l ++ rest)) := by
      simp [numberedBytes]
    have hright : memberBytes tag (e :: entries) ++ rest =
        tag.encode e.1.toUInt64 ++ (e.2 ++ (memberBytes tag entries ++ rest)) := by
      simp [memberBytes, numberedBytes]
    rw [hleft, hright, List.forall_mem_cons, ← hrest, hbytes]
    constructor
    · intro heq
      obtain ⟨hfirst, heq⟩ := encode_append_inj tag heq
      exact ⟨hfirst ▸ toUInt64_lt he, List.append_cancel_left heq⟩
    · rintro ⟨hnarrow, heq⟩
      rw [eq_of_narrow hnarrow hplace he, heq]

/-! ### Variants -/

/-- The entries of the members that are set. -/
def variantEntries : (ms : List ExtensionMember) → Values ms → List (String × Variant)
  | [], _ => []
  | m :: ms, vs => if vs.1.isSome then (m.name, m.toVariant vs.1) :: variantEntries ms vs.2 else variantEntries ms vs.2

theorem variantEntries_none : variantEntries (m :: ms) (none, vs) = variantEntries ms vs := rfl

theorem variantEntries_some :
    variantEntries (m :: ms) (some v, vs) = (m.name, m.toVariant (some v)) :: variantEntries ms vs := rfl

/-- The visitor adds an entry for each member that is set. -/
theorem toVariantMembers_eq (ms : List ExtensionMember) (vs : Values ms) (mvo : List (String × Variant))
    (hnew : ∀ m ∈ ms, ∀ e ∈ mvo, e.1 ≠ m.name) (hnodup : (ms.map (·.name)).Nodup) :
    toVariantMembers ms vs mvo = mvo ++ variantEntries ms vs := by
  induction ms generalizing mvo with
  | nil => exact (List.append_nil mvo).symm
  | cons m ms ih =>
    obtain ⟨v, vs⟩ := vs
    obtain ⟨hm, hnodup⟩ := List.nodup_cons.1 hnodup
    have hnew' : ∀ m' ∈ ms, ∀ e ∈ mvo, e.1 ≠ m'.name := fun m' hm' ↦ hnew m' (List.mem_cons_of_mem _ hm')
    cases v with
    | none => exact ih vs mvo hnew' hnodup
    | some v =>
      have hset : Variant.set mvo m.name (m.toVariant (some v)) = mvo ++ [(m.name, m.toVariant (some v))] := by
        refine if_neg fun h ↦ ?_
        obtain ⟨e, he, hname⟩ := List.any_eq_true.1 h
        exact hnew m List.mem_cons_self e he (of_decide_eq_true hname)
      have hstep : toVariantMembers (m :: ms) (some v, vs) mvo =
          toVariantMembers ms vs (Variant.set mvo m.name (m.toVariant (some v))) := rfl
      rw [hstep, hset, ih vs _ ?_ hnodup, variantEntries_some, List.append_assoc, List.singleton_append]
      intro m' hm' e he
      rcases List.mem_append.1 he with he | he
      · exact hnew' m' hm' e he
      · obtain rfl := List.mem_singleton.1 he
        exact fun hname ↦ hm (List.mem_map.2 ⟨m', hm', hname.symm⟩)

theorem find_variantEntries_eq_none {ms : List ExtensionMember} (vs : Values ms) {name : String}
    (h : name ∉ ms.map (·.name)) : Variant.find (variantEntries ms vs) name = none := by
  induction ms with
  | nil => rfl
  | cons m ms ih =>
    obtain ⟨v, vs⟩ := vs
    obtain ⟨hm, hms⟩ := not_or.1 (fun h' ↦ h (List.mem_cons.2 h'))
    cases v with
    | none => exact ih vs hms
    | some v =>
      have hrest := ih vs hms
      unfold Variant.find at hrest ⊢
      rw [variantEntries_some, List.find?_cons_of_neg (by simpa using fun h' : m.name = name ↦ hm h'.symm), hrest]

/-- An object holds what these members are. -/
def Holds (vo : List (String × Variant)) : (ms : List ExtensionMember) → Values ms → Prop
  | [], _ => True
  | m :: ms, vs => Variant.find vo m.name = (if vs.1.isSome then some (m.toVariant vs.1) else none) ∧ Holds vo ms vs.2

theorem holds_append {ms : List ExtensionMember} {vs : Values ms} {vo : List (String × Variant)} {e : String × Variant}
    (h : Holds vo ms vs) (he : e.1 ∉ ms.map (·.name)) : Holds (e :: vo) ms vs := by
  induction ms with
  | nil => trivial
  | cons m ms ih =>
    obtain ⟨hm, hms⟩ := not_or.1 (fun h' ↦ he (List.mem_cons.2 h'))
    refine ⟨?_, ih h.2 hms⟩
    rw [← h.1]
    unfold Variant.find
    rw [List.find?_cons_of_neg (by simpa using hm)]

theorem holds_variantEntries (ms : List ExtensionMember) (vs : Values ms) (hnodup : (ms.map (·.name)).Nodup) :
    Holds (variantEntries ms vs) ms vs := by
  induction ms with
  | nil => trivial
  | cons m ms ih =>
    obtain ⟨v, vs⟩ := vs
    obtain ⟨hm, hnodup⟩ := List.nodup_cons.1 hnodup
    cases v with
    | none => exact ⟨find_variantEntries_eq_none vs hm, ih vs hnodup⟩
    | some v =>
      refine ⟨?_, ?_⟩
      · rw [variantEntries_some]
        unfold Variant.find
        rw [List.find?_cons_of_pos (by simp)]
        rfl
      · exact holds_append (ih vs hnodup) hm

/-- **The entries are read back**, and counted. -/
theorem fromVariantMembers_of_holds {vo : List (String × Variant)} (ms : List ExtensionMember) (vs : Values ms)
    (hvo : Holds vo ms vs) (hround : ∀ m ∈ ms, ∀ v, m.fromVariant (m.toVariant (some v)) = .ok (some v)) (k : ℕ) :
    fromVariantMembers vo ms (empty ms) ((variantEntries ms vs).length + k).toUInt32 = .ok (vs, k.toUInt32) := by
  induction ms with
  | nil =>
    rw [variantEntries, List.length_nil, Nat.zero_add]
    rfl
  | cons m ms ih =>
    obtain ⟨v, vs⟩ := vs
    have hrest := ih vs hvo.2 (fun m' hm' ↦ hround m' (List.mem_cons_of_mem _ hm'))
    cases v with
    | none =>
      have hfind : Variant.find vo m.name = none := hvo.1
      unfold fromVariantMembers
      rw [hfind, variantEntries_none]
      dsimp only [empty]
      rw [hrest]
      rfl
    | some v =>
      have hfind : Variant.find vo m.name = some (m.toVariant (some v)) := hvo.1
      have hcount : ((variantEntries ms vs).length + 1 + k).toUInt32 - 1 =
          ((variantEntries ms vs).length + k).toUInt32 := by
        rw [Nat.add_right_comm]
        simp
      unfold fromVariantMembers
      rw [hfind, variantEntries_some, List.length_cons]
      dsimp only [empty]
      rw [hround m List.mem_cons_self v, Except.ok_bind, hcount, hrest]
      rfl

/-- Reading the variant that was made of a value. -/
theorem fromVariant_of_toVariant (T : ExtensionStruct) (vs : Values T.members)
    (hround : ∀ m ∈ T.members, ∀ v, m.fromVariant (m.toVariant (some v)) = .ok (some v)) {maxDepth : ℕ}
    (h : 0 < maxDepth) :
    ∃ var, toVariant vs maxDepth = .ok var ∧ fromVariant T.members var maxDepth = .ok vs := by
  refine ⟨.object (variantEntries T.members vs), ?_, ?_⟩
  · unfold toVariant
    rw [if_neg (by omega)]
    dsimp only
    rw [toVariantMembers_eq T.members vs [] (by simp) T.nodup_names, List.nil_append]
    rfl
  · unfold fromVariant
    dsimp only
    rw [if_neg (by omega)]
    have hall := fromVariantMembers_of_holds T.members vs (holds_variantEntries _ vs T.nodup_names) hround 0
    rw [Nat.add_zero] at hall
    rw [hall]
    rfl

/-! ### Round trips -/

/-- The stream is what packing the value gives, and what is left. -/
def IsPacked {ms : List ExtensionMember} (bytes : List UInt8) (vs : Values ms) (rest : List UInt8) (maxDepth : ℕ) :
    Prop :=
  ∃ packed, pack tag [] vs maxDepth = .ok packed ∧ bytes = packed ++ rest

/-- **The numbers of a stream fit 32 bits**: however it reads as a number that stands for how many members of a value are
set and as these members, each behind a number that stands for its place. -/
def NarrowNumbers (ms : List ExtensionMember) (bytes : List UInt8) : Prop :=
  ∀ (vs : Values ms) (rest : List UInt8) (c : UInt64) (l : List (UInt64 × List UInt8)),
    c.toUInt32 = l.length.toUInt32 → Stands l (setMembers ms vs 0) → bytes = tag.encode c ++ numberedBytes tag l ++ rest →
      c < 4294967296 ∧ ∀ e ∈ l, e.1 < 4294967296

/-- A stream that reads as these members is what packing them gives exactly if its numbers fit 32 bits. -/
theorem isPacked_iff (T : ExtensionStruct) {vs : Values T.members} {rest : List UInt8} {c : UInt64}
    {l : List (UInt64 × List UInt8)} (hc : c.toUInt32 = l.length.toUInt32) (hl : Stands l (setMembers T.members vs 0))
    {maxDepth : ℕ} (h : 1 < maxDepth) :
    IsPacked tag (tag.encode c ++ numberedBytes tag l ++ rest) vs rest maxDepth ↔
      c < 4294967296 ∧ ∀ e ∈ l, e.1 < 4294967296 := by
  have hshort : (setMembers T.members vs 0).length < 2 ^ 32 :=
    (length_setMembers_le T.members vs 0).trans_lt T.length_lt
  have hplaces : ∀ e ∈ setMembers T.members vs 0, e.1 < 2 ^ 32 := fun e he ↦ by
    have hplace := (mem_setMembers he).2
    have hlength := T.length_lt
    omega
  rw [hl.length_eq] at hc
  have hpacked : IsPacked tag (tag.encode c ++ numberedBytes tag l ++ rest) vs rest maxDepth ↔
      tag.encode c ++ (numberedBytes tag l ++ rest) =
        tag.encode (setMembers T.members vs 0).length.toUInt64 ++ (memberBytes tag (setMembers T.members vs 0) ++ rest) := by
    rw [IsPacked, pack_eq tag T [] vs h, List.nil_append, ← List.append_assoc, ← List.append_assoc]
    constructor
    · rintro ⟨packed, hpacked, heq⟩
      rwa [Except.ok.inj hpacked]
    · exact fun heq ↦ ⟨_, rfl, heq⟩
  rw [hpacked, ← numberedBytes_eq_iff tag hl hplaces rest]
  constructor
  · intro heq
    obtain ⟨hcount, heq⟩ := encode_append_inj tag heq
    exact ⟨hcount ▸ toUInt64_lt hshort, heq⟩
  · rintro ⟨hnarrow, heq⟩
    rw [eq_of_narrow hnarrow hc hshort, heq]

/-- **Extensions round trip, and are canonical if their numbers fit 32 bits.** The numbers and the members being written
and read by codecs, and the variant of a member that is set being read as this member, at every depth that the assertions
accept (the library's own is 1000):

* unpacking gives back what was packed, whatever follows it;
* what is packed is the number of the members that are set, and these members in the order of their places, each at most
  once;
* a stream is unpacked only as the value whose packing it starts with, exactly if its numbers fit 32 bits;
* the value is read back from its variant. -/
theorem extension_round_trip_iff (T : ExtensionStruct)
    (hround : ∀ m ∈ T.members, ∀ v, m.fromVariant (m.toVariant (some v)) = .ok (some v)) (maxDepth : ℕ)
    (hdepth : 1 < maxDepth) :
    (∀ (vs : Values T.members) (rest : List UInt8), ∃ packed, pack tag [] vs maxDepth = .ok packed ∧
      unpack tag T.members (packed ++ rest) maxDepth = .ok (vs, rest) ∧
      ∃ entries : List (ℕ × List UInt8), packed = tag.encode entries.length.toUInt64 ++ memberBytes tag entries ∧
        entries.Pairwise (·.1 < ·.1) ∧ ∀ e ∈ entries, e.1 < T.members.length) ∧
    (∀ bytes : List UInt8,
      (∀ (vs : Values T.members) (rest : List UInt8), unpack tag T.members bytes maxDepth = .ok (vs, rest) →
        IsPacked tag bytes vs rest maxDepth) ↔
      NarrowNumbers tag T.members bytes) ∧
    ∀ vs : Values T.members, ∃ var, toVariant vs maxDepth = .ok var ∧ fromVariant T.members var maxDepth = .ok vs := by
  refine ⟨fun vs rest ↦ ?_, fun bytes ↦ ⟨?_, ?_⟩, fun vs ↦ fromVariant_of_toVariant T vs hround (by omega)⟩
  · have hplaces : ∀ e ∈ setMembers T.members vs 0, e.1 < T.members.length := fun e he ↦ by
      have hplace := (mem_setMembers he).2
      omega
    have hlength := T.length_lt
    refine ⟨_, pack_eq tag T [] vs hdepth, ?_, setMembers T.members vs 0, rfl, pairwise_setMembers T.members vs 0,
      hplaces⟩
    refine (unpack_iff tag T _ vs rest hdepth).2 ⟨_, _, ?_, ?_, rfl⟩
    · rw [List.length_map]
      exact toUInt32_toUInt64 ((length_setMembers_le T.members vs 0).trans_lt hlength)
    · rw [Stands, List.map_map]
      refine List.map_congr_left fun e he ↦ Prod.ext (toUInt32_toUInt64 ?_) rfl
      exact (hplaces e he).trans hlength
  · rintro hcanonical vs rest c l hc hl rfl
    refine (isPacked_iff tag T hc hl hdepth).1 (hcanonical vs rest ?_)
    exact (unpack_iff tag T _ vs rest hdepth).2 ⟨c, l, hc, hl, rfl⟩
  · intro hnarrow vs rest hunpack
    obtain ⟨c, l, hc, hl, rfl⟩ := (unpack_iff tag T bytes vs rest hdepth).1 hunpack
    exact (isPacked_iff tag T hc hl hdepth).2 (hnarrow vs rest c l hc hl rfl)

/-- A member that is a byte. -/
def byteMember (name : String) : ExtensionMember where
  Value := UInt8
  name := name
  codec := Codec.byte
  toVariant
    | some b => .uint64 b.toUInt64
    | none => .null
  fromVariant
    | .null => .ok none
    | .uint64 n => .ok (some n.toUInt8)
    | _ => .error .badVariant

/-- A struct with two members. -/
def twoBytes : ExtensionStruct where
  members := [byteMember "first", byteMember "second"]
  nodup_names := by decide
  length_lt := by decide

theorem byteMember_fromVariant_toVariant (name : String) (v : UInt8) :
    (byteMember name).fromVariant ((byteMember name).toVariant (some v)) = .ok (some v) := by
  have hbyte : v.toUInt64.toUInt8 = v := by simp
  exact congrArg (fun b : UInt8 ↦ Except.ok (some b)) hbyte

/-- The second member alone is set. -/
def secondByte : Values twoBytes.members := (none, some (7 : UInt8), ())

theorem twoBytes_round : ∀ m ∈ twoBytes.members, ∀ v, m.fromVariant (m.toVariant (some v)) = .ok (some v) := by
  intro m hm v
  rcases List.mem_cons.1 hm with rfl | hm
  · exact byteMember_fromVariant_toVariant "first" v
  · obtain rfl := List.mem_singleton.1 hm
    exact byteMember_fromVariant_toVariant "second" v

/-- It is read back in front of another byte. -/
theorem extension_round_trip_second :
    ∃ packed, pack Codec.uint64 [] secondByte 1000 = .ok packed ∧
      unpack Codec.uint64 twoBytes.members (packed ++ [9]) 1000 = .ok (secondByte, [9]) := by
  obtain ⟨packed, hpacked, hunpacked, -⟩ :=
    (extension_round_trip_iff Codec.uint64 twoBytes twoBytes_round 1000 (by decide)).1 secondByte [9]
  exact ⟨packed, hpacked, hunpacked⟩

/-- **The empty extension has a second form**: the number of its members may be `2 ^ 32`. -/
theorem extension_second_form :
    ¬ ∀ (bytes : List UInt8) (vs : Values twoBytes.members) (rest : List UInt8),
      unpack Codec.uint64 twoBytes.members bytes 1000 = .ok (vs, rest) →
        IsPacked Codec.uint64 bytes vs rest 1000 := by
  intro h
  have hbytes : [0x80, 0x80, 0x80, 0x80, 0x10] = Codec.uint64.encode 4294967296 ++ [] ++ [] :=
    (Codec.uint64.eq_encode_of_decode _ _ _ (by decide)).trans (List.append_nil _).symm
  have hpacked := h [0x80, 0x80, 0x80, 0x80, 0x10] (none, none, ()) [] rfl
  rw [hbytes] at hpacked
  have hvs : Stands [] (setMembers twoBytes.members (none, none, ()) 0) := rfl
  exact absurd ((isPacked_iff Codec.uint64 twoBytes rfl hvs (by decide)).1 hpacked).1 (by decide)

end Extension

end Playchain
