import Playchain.Blocks.BlockLog
import Playchain.Lib.FlatMap

/-!
# The block log is a map

As long as its files are whole, the block log is the map from numbers to blocks that its calls define
(`Represents`). When a file has been cut and the log is opened again, `last_id` finds the highest block
that is complete, and cuts the index behind it. The log is then the map of the complete blocks, **unless
something of an incomplete block stays**: a part of its entry behind the last whole one, or an entry below
the highest complete block whose data are gone (`Undamaged`). To fetch the former fails the stream of the
index for good, and the latter is still reported as contained (`blockLog_survives_iff`).
-/

namespace Playchain.BlockLog

open ByteFile Replay

/-- `unpack` takes back `pack`; the size of a block is a number of 32 bits, and the id of a block is not
`block_id_type()`. A block has a header, so that no bytes are no block: a removed entry, whose size is zero,
is not fetched. -/
class LawfulBlockFormat (B : Type) [BlockFormat B] : Prop where
  unpack_pack : ∀ b : B, BlockFormat.unpack (BlockFormat.pack b) = some b
  unpack_nil : BlockFormat.unpack [] = (none : Option B)
  length_pack_lt : ∀ b : B, (BlockFormat.pack b).length < 256 ^ 4
  id_ne_noId : ∀ b : B, BlockFormat.id b ≠ noId

/-! ### Methods -/

namespace LogM

variable {α β : Type} {x : LogM α} {f : α → LogM β} {log log' : BlockDatabase} {a : α} {e : LogError}

theorem bind_ok (h : x log = (.ok a, log')) : (x >>= f) log = f a log' := by
  show andThen x f log = _
  rw [andThen, h]

theorem bind_error (h : x log = (.error e, log')) : (x >>= f) log = (.error e, log') := by
  show andThen x f log = _
  rw [andThen, h]

theorem orElse_ok {b : α} (h : x log = (.ok b, log')) : orElse x a log = (.ok b, log') := by
  rw [orElse, h]

theorem orElse_error (h : x log = (.error e, log')) : orElse x a log = (.ok a, log') := by
  rw [orElse, h]

end LogM

section Files

variable {log : BlockDatabase} (file : LogFile) {pos len n : ℕ}

theorem tellEnd_ok (h : (log.stream file).failed = false) :
    tellEnd file log = (.ok (log.stream file).bytes.length, log) := by
  rw [tellEnd, h]
  rfl

theorem tellIndex_ok (h : log.index.failed = false) :
    tellEnd .index log = (.ok log.index.bytes.length, log) := tellEnd_ok .index h

theorem read_ok (h : (log.stream file).failed = false)
    (hlen : len = 0 ∨ pos + len ≤ (log.stream file).bytes.length) :
    read file pos len log = (.ok (slice (log.stream file).bytes pos len), log) := by
  rw [read, h, if_neg Bool.false_ne_true, if_pos hlen]

theorem write_ok {data : List UInt8} (h : (log.stream file).failed = false) : write file pos data log =
    (.ok (), log.setStream ⟨writeAt (log.stream file).bytes pos data, false⟩ file) := by
  rw [write, h, if_neg Bool.false_ne_true]
  dsimp only
  rw [h]

/-- The entry of a number in the bytes of the index. -/
def entryAt (bytes : List UInt8) (n : ℕ) : IndexEntry :=
  IndexEntry.ofBytes (slice bytes (entrySize * n) entrySize)

theorem readEntry_ok (h : log.index.failed = false)
    (hlen : entrySize * n + entrySize ≤ log.index.bytes.length) :
    readEntry n log = (.ok (entryAt log.index.bytes n), log) := by
  rw [readEntry, LogM.bind_ok (read_ok .index h (.inr hlen))]
  rfl

/-- **An entry that is cut fails the stream** of the index. -/
theorem readEntry_short (h : log.index.failed = false)
    (hlen : log.index.bytes.length < entrySize * n + entrySize) :
    readEntry n log = (.error .ioFailure, { log with index := { log.index with failed := true } }) := by
  refine LogM.bind_error ?_
  have hshort : ¬(entrySize = 0 ∨ entrySize * n + entrySize ≤ log.index.bytes.length) := by
    rw [not_or]
    exact ⟨by decide, not_le.2 hlen⟩
  show (if log.index.failed then _ else _) = _
  rw [h, if_neg Bool.false_ne_true]
  exact if_neg hshort

end Files

/-! ### Entries -/

namespace IndexEntry

theorem length_toBytes (e : IndexEntry) : e.toBytes.length = entrySize := by
  simp [toBytes, entrySize]

theorem ofBytes_toBytes {e : IndexEntry} (hpos : e.blockPos < 256 ^ 8) (hsize : e.blockSize < 256 ^ 4) :
    ofBytes e.toBytes = e := by
  have hid : (ofBytes e.toBytes).blockId = e.blockId := by
    refine Vector.ext fun i hi ↦ ?_
    have hindex : 12 + i - 8 - 4 = i := by omega
    have hpast : ¬12 + i < 8 := by omega
    have hpast' : ¬12 + i - 8 < 4 := by omega
    simp [ofBytes, toBytes, List.getD_eq_getElem?_getD, List.getElem?_append, hindex, hi, hpast, hpast']
  have hpos' : (ofBytes e.toBytes).blockPos = e.blockPos := by
    show ofLeBytes (e.toBytes.take 8) = e.blockPos
    rw [toBytes, List.take_left' (length_leBytes 8 _), ofLeBytes_leBytes hpos]
  have hsize' : (ofBytes e.toBytes).blockSize = e.blockSize := by
    show ofLeBytes ((e.toBytes.drop 8).take 4) = e.blockSize
    rw [toBytes, List.drop_left' (length_leBytes 8 _), List.take_left' (length_leBytes 4 _),
      ofLeBytes_leBytes hsize]
  cases e
  cases h : ofBytes _
  simp_all

theorem ofBytes_zeros : ofBytes (List.replicate entrySize 0) = {} := by
  decide

end IndexEntry

section Entries

variable {bytes : List UInt8} {n k : ℕ} {e : IndexEntry}

/-- Writing an entry. -/
theorem entryAt_write (hpos : e.blockPos < 256 ^ 8) (hsize : e.blockSize < 256 ^ 4)
    (hwhole : bytes.length % entrySize = 0) (n' : ℕ)
    (hn' : entrySize * n' + entrySize ≤ (writeAt bytes (entrySize * n) e.toBytes).length) :
    entryAt (writeAt bytes (entrySize * n) e.toBytes) n' = if n' = n then e else
      if entrySize * n' + entrySize ≤ bytes.length then entryAt bytes n' else {} := by
  have hlength := e.length_toBytes
  rw [length_writeAt, hlength] at hn'
  unfold entryAt
  by_cases hself : n' = n
  · subst hself
    have hread : slice (writeAt bytes (entrySize * n') e.toBytes) (entrySize * n') e.toBytes.length =
        e.toBytes := slice_writeAt_self
    rw [hlength] at hread
    rw [if_pos rfl, hread, IndexEntry.ofBytes_toBytes hpos hsize]
  · rw [if_neg hself]
    have hne : entrySize * n' + entrySize ≤ entrySize * n ∨ entrySize * n + entrySize ≤ entrySize * n' := by
      unfold entrySize
      omega
    by_cases hold : entrySize * n' + entrySize ≤ bytes.length
    · rw [if_pos hold, slice_writeAt_of_disjoint hold (hlength ▸ hne)]
    · rw [if_neg hold, slice_writeAt_gap, IndexEntry.ofBytes_zeros]
      · unfold entrySize at *
        omega
      · unfold entrySize at *
        omega

theorem entryAt_take (h : entrySize * n + entrySize ≤ k) : entryAt (bytes.take k) n = entryAt bytes n := by
  rw [entryAt, entryAt, slice_take h]

end Entries

/-! ### Calls -/

section Calls

variable {B : Type} [BlockFormat B]

/-- A call of a method. -/
inductive Call (B : Type) where
  | store (b : B)
  | remove (id : BlockId)
  | contains (id : BlockId)
  | fetchOptional (id : BlockId)
  | fetchByNumber (num : ℕ)
  | lastId

/-- What a call returns. -/
inductive Result (B : Type) where
  | stored
  | removed
  | contained (b : Bool)
  | fetched (block : Option B)
  | last (id : Option BlockId)
  deriving DecidableEq

/-- A call on the log. -/
def Call.run : Call B → LogM (Result B)
  | store b => do
    BlockLog.store (BlockFormat.id b) b
    return .stored
  | remove id => do
    BlockLog.remove id
    return .removed
  | contains id => do return .contained (← BlockLog.contains id)
  | fetchOptional id => do return .fetched (← BlockLog.fetchOptional id)
  | fetchByNumber num => do return .fetched (← BlockLog.fetchByNumber num)
  | lastId => do return .last (← BlockLog.lastId B)

/-- The block with an id. -/
def lookup (m : FlatMap ℕ B) (id : BlockId) : Option B :=
  (m.find? id.num).filter fun b ↦ BlockFormat.id b = id

/-- The id of the highest block. -/
def lastOf (m : FlatMap ℕ B) : Option BlockId := m.toList.getLast?.map fun p ↦ BlockFormat.id p.2

/-- A call on the map from numbers to blocks. -/
def Call.apply : Call B → FlatMap ℕ B → Result B × FlatMap ℕ B
  | store b, m => (.stored, m.insert (BlockFormat.id b).num b)
  | remove id, m => (.removed, if (lookup m id).isSome then m.erase id.num else m)
  | contains id, m => (.contained (lookup m id).isSome, m)
  | fetchOptional id, m => (.fetched (lookup m id), m)
  | fetchByNumber num, m => (.fetched (m.find? num), m)
  | lastId, m => (.last (lastOf m), m)

/-- The log returns what the map returns. To remove what is not there may be reported as an error. -/
def Agrees (outcome : Except LogError (Result B)) (result : Result B) : Prop :=
  outcome = .ok result ∨ result = .removed ∧ outcome = .error .keyNotFound

/-- The positions in the file of blocks are numbers of 64 bits. -/
def Call.Fits (log : BlockDatabase) : Call B → Prop
  | store b => log.blocks.bytes.length + (BlockFormat.pack b).length < 256 ^ 8
  | _ => True

/-- **The log behaves as the map** in a sequence of calls. -/
def BehavesAs : List (Call B) → BlockDatabase → FlatMap ℕ B → Prop
  | [], _, _ => True
  | c :: cs, log, m => c.Fits log →
    Agrees (c.run log).1 (c.apply m).1 ∧ BehavesAs cs (c.run log).2 (c.apply m).2

/-- The log after a sequence of calls, and the map that they define. -/
inductive Reached : BlockDatabase → FlatMap ℕ B → Prop
  | start : Reached {} ∅
  | call {log : BlockDatabase} {m : FlatMap ℕ B} (c : Call B) (h : Reached log m) (hfits : c.Fits log) :
    Reached (c.run log).2 (c.apply m).2

end Calls

/-! ### The last block -/

section Last

variable {B : Type} [BlockFormat B] {m : FlatMap ℕ B} {log : BlockDatabase}

theorem lastOf_eq_some {n : ℕ} {b : B} (hn : m.find? n = some b)
    (hlast : ∀ n', n < n' → m.find? n' = none) : lastOf m = some (BlockFormat.id b) := by
  have hmem := FlatMap.find?_eq_some_iff.1 hn
  obtain ⟨before, p, hsplit⟩ := (List.eq_nil_or_concat m.toList).resolve_left (List.ne_nil_of_mem hmem)
  rw [List.concat_eq_append] at hsplit
  have hp : m.find? p.1 = some p.2 := by
    rw [FlatMap.find?_eq_some_iff, hsplit]
    exact List.mem_append_right _ List.mem_cons_self
  have hle : n = p.1 ∨ n < p.1 := by
    have hsorted := m.sorted
    rw [hsplit] at hmem hsorted
    rcases List.mem_append.1 hmem with hmem | hmem
    · exact .inr ((List.pairwise_append.1 hsorted).2.2 _ hmem p List.mem_cons_self)
    · exact .inl (congrArg Prod.fst (List.mem_singleton.1 hmem))
  rcases hle with rfl | hlt
  · obtain rfl := Option.some.inj (hn.symm.trans hp)
    rw [lastOf, hsplit, List.getLast?_append]
    rfl
  · rw [hlast _ hlt] at hp
    cases hp

theorem lastOf_eq_none (h : ∀ n, m.find? n = none) : lastOf m = none := by
  have hempty : m = ∅ := FlatMap.ext_find? h
  rw [hempty]
  rfl

/-- A block whose entry and data are complete. -/
def Complete (log : BlockDatabase) (n : ℕ) : Prop :=
  entrySize * n + entrySize ≤ log.index.bytes.length ∧
    0 < (entryAt log.index.bytes n).blockSize ∧
    (entryAt log.index.bytes n).blockPos + (entryAt log.index.bytes n).blockSize ≤
      log.blocks.bytes.length

instance (log : BlockDatabase) (n : ℕ) : Decidable (Complete log n) :=
  inferInstanceAs (Decidable (_ ∧ _ ∧ _))

/-- The map of the complete blocks. -/
def completeBlocks (log : BlockDatabase) (m : FlatMap ℕ B) : FlatMap ℕ B :=
  m.filter fun n _ ↦ Complete log n

omit [BlockFormat B] in
theorem find?_completeBlocks (n : ℕ) :
    (completeBlocks log m).find? n = if Complete log n then m.find? n else none := by
  refine Option.ext fun b ↦ ?_
  rw [completeBlocks, FlatMap.find?_filter, decide_eq_true_eq]
  split_ifs with h
  · exact and_iff_left h
  · exact iff_of_false (fun hb ↦ h hb.2) (fun hb ↦ (by cases hb))

/-- The index is cut. -/
def resized (log : BlockDatabase) (size : ℕ) : BlockDatabase :=
  { log with index := { log.index with bytes := log.index.bytes.take size } }

theorem complete_resized {n k : ℕ} (hn : entrySize * n + entrySize ≤ k) :
    Complete (resized log k) n ↔ Complete log n := by
  unfold Complete resized
  dsimp only
  rw [entryAt_take hn, List.length_take, le_min_iff, and_iff_right hn]

/-- What is read of complete blocks. -/
def Readable (B : Type) [BlockFormat B] (log : BlockDatabase) (n : ℕ) : Prop :=
  ∃ b : B, BlockFormat.unpack (slice log.blocks.bytes (entryAt log.index.bytes n).blockPos
    (entryAt log.index.bytes n).blockSize) = some b ∧ BlockFormat.id b = (entryAt log.index.bytes n).blockId

theorem isReadable_eq {n : ℕ} (hok : log.blocks.failed = false)
    (hn : entrySize * n + entrySize ≤ log.index.bytes.length)
    (hread : Complete log n → Readable B log n) :
    isReadable B log.blocks.bytes.length (entryAt log.index.bytes n) log =
      (.ok (decide (Complete log n)), log) := by
  unfold isReadable
  by_cases hcomplete : Complete log n
  · obtain ⟨b, hunpack, hid⟩ := hread hcomplete
    rw [if_pos hcomplete.2, decide_eq_true hcomplete]
    refine LogM.orElse_ok ?_
    have hunpack' : (unpack (slice log.blocks.bytes (entryAt log.index.bytes n).blockPos
        (entryAt log.index.bytes n).blockSize) : LogM B) log = (.ok b, log) := by
      rw [unpack, hunpack]
      rfl
    refine (LogM.bind_ok (read_ok .blocks hok (.inr hcomplete.2.2))).trans
      ((LogM.bind_ok hunpack').trans ?_)
    show (Except.ok (decide _), log) = _
    rw [decide_eq_true hid]
  · rw [if_neg fun h ↦ hcomplete ⟨hn, h⟩, decide_eq_false hcomplete]
    rfl

/-- **The loop finds the highest complete block** and cuts the index behind it. -/
theorem lastIndexEntryLoop_spec (k : ℕ) (hindex : log.index.failed = false)
    (hblocks : log.blocks.failed = false) (hk : entrySize * k ≤ log.index.bytes.length)
    (hread : ∀ n, Complete log n → Readable B log n) :
    (∃ n < k, Complete log n ∧ (∀ n', n < n' → n' < k → ¬Complete log n') ∧
      lastIndexEntryLoop B log.blocks.bytes.length k log =
        (.ok (some (entryAt log.index.bytes n)),
          if n + 1 = k then log else resized log (entrySize * (n + 1)))) ∨
    ((∀ n < k, ¬Complete log n) ∧ lastIndexEntryLoop B log.blocks.bytes.length k log =
      (.ok none, if k = 0 then log else resized log 0)) := by
  induction k generalizing log with
  | zero => exact .inr ⟨fun _ hn ↦ absurd hn (Nat.not_lt_zero _), rfl⟩
  | succ k ih =>
    have hwhole : entrySize * k + entrySize ≤ log.index.bytes.length := hk
    have hstep : lastIndexEntryLoop B log.blocks.bytes.length (k + 1) log =
        if Complete log k then (.ok (some (entryAt log.index.bytes k)), log)
        else lastIndexEntryLoop B log.blocks.bytes.length k (resized log (entrySize * k)) := by
      rw [lastIndexEntryLoop, LogM.bind_ok (readEntry_ok hindex hwhole),
        LogM.bind_ok (isReadable_eq hblocks hwhole (hread k))]
      by_cases hcomplete : Complete log k
      · rw [if_pos hcomplete, decide_eq_true hcomplete]
        rfl
      · rw [if_neg hcomplete, decide_eq_false hcomplete]
        rfl
    rw [hstep]
    by_cases hcomplete : Complete log k
    · rw [if_pos hcomplete]
      refine .inl ⟨k, Nat.lt_succ_self k, hcomplete, fun n' hlt hlt' ↦ by omega, ?_⟩
      rw [if_pos rfl]
    rw [if_neg hcomplete]
    have hbelow {n : ℕ} (hn : n < k) : entrySize * n + entrySize ≤ entrySize * k := by
      unfold entrySize
      omega
    have hresized (j : ℕ) (hj : j ≤ k) :
        resized (resized log (entrySize * k)) (entrySize * j) = resized log (entrySize * j) := by
      unfold resized
      dsimp only
      rw [List.take_take, min_eq_left (Nat.mul_le_mul_left _ hj)]
    have hlength : (resized log (entrySize * k)).index.bytes.length = entrySize * k := by
      show (log.index.bytes.take (entrySize * k)).length = entrySize * k
      rw [List.length_take]
      omega
    have hentry {n : ℕ} (hn : n < k) :
        entryAt (resized log (entrySize * k)).index.bytes n = entryAt log.index.bytes n :=
      entryAt_take (hbelow hn)
    -- a complete block of the shortened log was complete before, and so can be read
    have hread' (n : ℕ) (hn : Complete (resized log (entrySize * k)) n) :
        Readable B (resized log (entrySize * k)) n := by
      have hlt : n < k := by
        have hle := hn.1
        rw [hlength] at hle
        unfold entrySize at hle
        omega
      obtain ⟨b, hb⟩ := hread n ((complete_resized (hbelow hlt)).1 hn)
      refine ⟨b, ?_⟩
      rw [hentry hlt]
      exact hb
    have hrest := @ih (resized log (entrySize * k)) hindex hblocks hlength.ge hread'
    rcases hrest with ⟨n, hn, hfound, hhigher, hloop⟩ | ⟨hnone, hloop⟩
    · refine .inl ⟨n, hn.trans (Nat.lt_succ_self k), (complete_resized (hbelow hn)).1 hfound,
        fun n' hlt hlt' ↦ ?_, ?_⟩
      · rcases (Nat.lt_succ_iff_lt_or_eq.1 hlt') with hlt' | rfl
        · exact fun hcomplete' ↦ hhigher n' hlt hlt' ((complete_resized (hbelow hlt')).2 hcomplete')
        · exact hcomplete
      · refine hloop.trans ?_
        rw [hentry hn, if_neg (by omega : ¬n + 1 = k + 1)]
        split_ifs with hsucc
        · rw [hsucc]
        · rw [hresized _ hn]
    · refine .inr ⟨fun n hn ↦ ?_, hloop.trans ?_⟩
      · rcases (Nat.lt_succ_iff_lt_or_eq.1 hn) with hn | rfl
        · exact fun hcomplete' ↦ hnone n hn ((complete_resized (hbelow hn)).2 hcomplete')
        · exact hcomplete
      · rw [if_neg (Nat.succ_ne_zero k)]
        split_ifs with hzero
        · rw [hzero]
          rfl
        · exact congrArg (Prod.mk _) (hresized 0 (Nat.zero_le k))

end Last

/-! ### Logs that represent a map -/

section Represented

variable {B : Type} [BlockFormat B] {m : FlatMap ℕ B} {log : BlockDatabase}

/-- The entries of a log, some of which may be cut off, are those of a map. -/
structure Cutoff (m : FlatMap ℕ B) (log : BlockDatabase) : Prop where
  index : log.index.failed = false
  blocks : log.blocks.failed = false
  removed : ∀ n, entrySize * n + entrySize ≤ log.index.bytes.length → m.find? n = none →
    (entryAt log.index.bytes n).blockSize = 0
  stored : ∀ n b, m.find? n = some b → entrySize * n + entrySize ≤ log.index.bytes.length →
    (entryAt log.index.bytes n).blockSize = (BlockFormat.pack b).length ∧
      (entryAt log.index.bytes n).blockId = BlockFormat.id b ∧
      ((entryAt log.index.bytes n).blockPos + (entryAt log.index.bytes n).blockSize ≤
          log.blocks.bytes.length →
        slice log.blocks.bytes (entryAt log.index.bytes n).blockPos (entryAt log.index.bytes n).blockSize =
          BlockFormat.pack b)
  num : ∀ n b, m.find? n = some b → (BlockFormat.id b).num = n

/-- **The log represents a map.** -/
structure Represents (m : FlatMap ℕ B) (log : BlockDatabase) : Prop extends Cutoff m log where
  whole : log.index.bytes.length % entrySize = 0
  complete : ∀ n b, m.find? n = some b → Complete log n

/-- **Nothing of an incomplete block stays** when `last_id` has cut the index: the index ends with a whole
entry, or it is cut before its last whole entry; and below a complete block there are no entries whose data
are gone. -/
def Undamaged (log : BlockDatabase) : Prop :=
  (log.index.bytes.length % entrySize = 0 ∨ entrySize ≤ log.index.bytes.length ∧
    ¬Complete log (log.index.bytes.length / entrySize - 1)) ∧
  ∀ n n', n < n' → Complete log n' → (entryAt log.index.bytes n).blockSize = 0 ∨
    (entryAt log.index.bytes n).blockPos + (entryAt log.index.bytes n).blockSize ≤ log.blocks.bytes.length

namespace Cutoff

/-- A complete entry is that of a block of the map. -/
theorem exists_block (h : Cutoff m log) {n : ℕ} (hn : Complete log n) : ∃ b, m.find? n = some b := by
  rcases hm : m.find? n with - | b
  · have hzero := h.removed n hn.1 hm
    have hpos := hn.2.1
    omega
  · exact ⟨b, rfl⟩

theorem readable [LawfulBlockFormat B] (h : Cutoff m log) (n : ℕ) (hn : Complete log n) :
    Readable B log n := by
  obtain ⟨b, hb⟩ := h.exists_block hn
  obtain ⟨-, hid, hdata⟩ := h.stored n b hb hn.1
  refine ⟨b, ?_, hid.symm⟩
  rw [hdata hn.2.2, LawfulBlockFormat.unpack_pack]

/-- **`last_id` returns the highest complete block**, and cuts the index behind it. -/
theorem lastId_eq [LawfulBlockFormat B] (h : Cutoff m log) :
    (∃ n, Complete log n ∧ (∀ n', n < n' → ¬Complete log n') ∧
      lastId B log = (.ok (lastOf (completeBlocks log m)),
        if n + 1 = log.index.bytes.length / entrySize then log else resized log (entrySize * (n + 1)))) ∨
    ((∀ n, ¬Complete log n) ∧ lastId B log = (.ok (lastOf (completeBlocks log m)),
      if log.index.bytes.length < entrySize then log else resized log 0)) := by
  have hwhole {n : ℕ} (hn : Complete log n) : n < log.index.bytes.length / entrySize := by
    have hle := hn.1
    unfold entrySize at *
    omega
  have hnone (hincomplete : ∀ n, ¬Complete log n) : lastOf (completeBlocks log m) = none := by
    refine lastOf_eq_none fun n ↦ ?_
    rw [find?_completeBlocks, if_neg (hincomplete n)]
  by_cases hshort : log.index.bytes.length < entrySize
  · have hincomplete (n : ℕ) : ¬Complete log n := by
      intro hn
      have hlt := hwhole hn
      rw [Nat.div_eq_of_lt hshort] at hlt
      exact Nat.not_lt_zero _ hlt
    refine .inr ⟨hincomplete, ?_⟩
    rw [if_pos hshort, hnone hincomplete]
    have hentry : lastIndexEntry B log = (.ok none, log) :=
      LogM.orElse_ok ((LogM.bind_ok (tellIndex_ok h.index)).trans (congrFun (if_pos hshort) log))
    exact LogM.bind_ok hentry
  have hsize : entrySize * (log.index.bytes.length / entrySize) ≤ log.index.bytes.length :=
    Nat.mul_div_le _ _
  -- `last_id` is the id of what the loop over the entries finds
  have hloop {e : Option IndexEntry} {log' : BlockDatabase}
      (hloop : lastIndexEntryLoop B log.blocks.bytes.length (log.index.bytes.length / entrySize) log =
        (.ok e, log')) : lastId B log = (.ok (e.map IndexEntry.blockId), log') := by
    refine LogM.bind_ok (LogM.orElse_ok ((LogM.bind_ok (tellIndex_ok h.index)).trans ?_))
    refine (congrFun (if_neg hshort) log).trans ?_
    exact (LogM.bind_ok (tellEnd_ok .blocks h.blocks)).trans hloop
  rcases lastIndexEntryLoop_spec _ h.index h.blocks hsize h.readable with
    ⟨n, -, hn, hhigher, hspec⟩ | ⟨hincomplete, hspec⟩
  · have hhigher' (n' : ℕ) (hlt : n < n') : ¬Complete log n' := fun hn' ↦
      hhigher n' hlt (hwhole hn') hn'
    refine .inl ⟨n, hn, hhigher', (hloop hspec).trans ?_⟩
    obtain ⟨b, hb⟩ := h.exists_block hn
    have hlast : lastOf (completeBlocks log m) = some (BlockFormat.id b) := by
      refine lastOf_eq_some (n := n) ?_ fun n' hlt ↦ ?_
      · rw [find?_completeBlocks, if_pos hn, hb]
      · rw [find?_completeBlocks, if_neg (hhigher' n' hlt)]
    rw [hlast, Option.map_some, (h.stored n b hb hn.1).2.1]
  · have hincomplete' (n : ℕ) : ¬Complete log n := fun hn ↦ hincomplete n (hwhole hn) hn
    refine .inr ⟨hincomplete', (hloop hspec).trans ?_⟩
    rw [hnone hincomplete', if_neg hshort, if_neg]
    · rfl
    · rw [Nat.div_eq_zero_iff]
      rintro (hzero | hlt)
      · exact absurd hzero (by decide)
      · exact hshort hlt

/-- `last_id` leaves a part of an entry behind the highest whole one, when that is complete. -/
theorem lastId_of_cut [LawfulBlockFormat B] (h : Cutoff m log)
    (htop : ¬(entrySize ≤ log.index.bytes.length ∧
      ¬Complete log (log.index.bytes.length / entrySize - 1))) : (lastId B log).2 = log := by
  rcases h.lastId_eq with ⟨n, hn, hhigher, hlast⟩ | ⟨hincomplete, hlast⟩
  · have hle := hn.1
    have hcomplete : Complete log (log.index.bytes.length / entrySize - 1) :=
      not_not.1 fun hnot ↦ htop ⟨le_trans (Nat.le_add_left _ _) hle, hnot⟩
    have hmax : log.index.bytes.length / entrySize - 1 ≤ n :=
      not_lt.1 fun hlt ↦ hhigher _ hlt hcomplete
    rw [hlast, if_pos]
    unfold entrySize at *
    omega
  · rw [hlast, if_pos]
    exact not_le.1 fun hle ↦ htop ⟨hle, hincomplete _⟩

/-- `last_id` keeps the entries below a complete one. -/
theorem lastId_keeps [LawfulBlockFormat B] (h : Cutoff m log) {n n' : ℕ} (hlt : n < n')
    (hn' : Complete log n') : (lastId B log).2.index.failed = false ∧
      entrySize * n + entrySize ≤ (lastId B log).2.index.bytes.length ∧
      entryAt (lastId B log).2.index.bytes n = entryAt log.index.bytes n := by
  rcases h.lastId_eq with ⟨k, hk, hhigher, hlast⟩ | ⟨hincomplete, -⟩
  · have hle : n' ≤ k := not_lt.1 fun hlt ↦ hhigher n' hlt hn'
    have hwhole := hk.1
    have hbelow : entrySize * n + entrySize ≤ entrySize * (k + 1) := by
      unfold entrySize
      omega
    rw [hlast]
    dsimp only
    split_ifs
    · refine ⟨h.index, ?_, rfl⟩
      unfold entrySize at *
      omega
    · refine ⟨h.index, ?_, entryAt_take hbelow⟩
      show _ ≤ (log.index.bytes.take (entrySize * (k + 1))).length
      rw [List.length_take, le_min_iff]
      refine ⟨hbelow, ?_⟩
      unfold entrySize at *
      omega
  · exact absurd hn' (hincomplete n')

/-- A log that is cut behind its highest complete block. -/
theorem represents_resized (h : Cutoff m log) {j : ℕ} (hj : entrySize * j ≤ log.index.bytes.length)
    (hhigh : ∀ n, j ≤ n → ¬Complete log n)
    (hlow : ∀ n < j, ¬Complete log n → (entryAt log.index.bytes n).blockSize = 0) :
    Represents (completeBlocks log m) (resized log (entrySize * j)) := by
  have hlength : (resized log (entrySize * j)).index.bytes.length = entrySize * j := by
    show (log.index.bytes.take (entrySize * j)).length = entrySize * j
    rw [List.length_take]
    omega
  have hlt {n : ℕ} (hn : entrySize * n + entrySize ≤ entrySize * j) : n < j := by
    unfold entrySize at hn
    omega
  have hle {n : ℕ} (hn : n < j) : entrySize * n + entrySize ≤ entrySize * j := by
    unfold entrySize
    omega
  have hentry {n : ℕ} (hn : n < j) :
      entryAt (resized log (entrySize * j)).index.bytes n = entryAt log.index.bytes n :=
    entryAt_take (hle hn)
  have hfind {n : ℕ} {b : B} (hb : (completeBlocks log m).find? n = some b) :
      Complete log n ∧ m.find? n = some b := by
    rw [find?_completeBlocks] at hb
    split_ifs at hb with hn
    exact ⟨hn, hb⟩
  -- an entry below the cut is that of a complete block, or it is empty
  refine ⟨⟨h.index, h.blocks, fun n hn hnone ↦ ?_, fun n b hb hn ↦ ?_, fun n b hb ↦ h.num n b (hfind hb).2⟩,
    ?_, fun n b hb ↦ ?_⟩
  · rw [hlength] at hn
    rw [hentry (hlt hn)]
    refine hlow n (hlt hn) fun hcomplete ↦ ?_
    obtain ⟨b, hb⟩ := h.exists_block hcomplete
    rw [find?_completeBlocks, if_pos hcomplete, hb] at hnone
    cases hnone
  · rw [hlength] at hn
    rw [hentry (hlt hn)]
    exact h.stored n b (hfind hb).2 ((hle (hlt hn)).trans hj)
  · rw [hlength, Nat.mul_mod_right]
  · have hcomplete := (hfind hb).1
    have hn : n < j := not_le.1 fun hle ↦ hhigh n hle hcomplete
    exact (complete_resized (hle hn)).2 hcomplete

/-- **The log represents the complete blocks** after `last_id`, when nothing of an incomplete block
stays. -/
theorem represents_lastId [LawfulBlockFormat B] (h : Cutoff m log) (hundamaged : Undamaged log) :
    Represents (completeBlocks log m) (lastId B log).2 := by
  obtain ⟨hwhole, hdata⟩ := hundamaged
  have hsame {j : ℕ} (hj : entrySize * j = log.index.bytes.length) : resized log (entrySize * j) = log := by
    unfold resized
    rw [List.take_of_length_le hj.ge]
  rcases h.lastId_eq with ⟨n, hn, hhigher, hlast⟩ | ⟨hincomplete, hlast⟩
  · have hlog : (lastId B log).2 = resized log (entrySize * (n + 1)) := by
      rw [hlast]
      dsimp only
      split_ifs with htop
      -- the highest whole entry is complete, so there is none behind it
      · rw [← htop, Nat.add_sub_cancel] at hwhole
        have hmod := hwhole.resolve_right fun hcut ↦ hcut.2 hn
        refine (hsame ?_).symm
        rw [htop]
        exact Nat.mul_div_cancel' (Nat.dvd_of_mod_eq_zero hmod)
      · rfl
    rw [hlog]
    refine h.represents_resized (by have := hn.1; unfold entrySize at *; omega)
      (fun n' hle ↦ hhigher n' hle) fun n' hlt hincomplete ↦ ?_
    rcases (Nat.lt_succ_iff_lt_or_eq.1 hlt) with hlt | rfl
    · by_contra hpos
      have hle := hn.1
      refine hincomplete ⟨?_, Nat.pos_of_ne_zero hpos, (hdata n' n hlt hn).resolve_left hpos⟩
      unfold entrySize at *
      omega
    · exact absurd hn hincomplete
  · have hlog : (lastId B log).2 = resized log (entrySize * 0) := by
      rw [hlast]
      dsimp only
      split_ifs with hshort
      · have hmod := hwhole.resolve_right fun hcut ↦ absurd hcut.1 (not_le.2 hshort)
        rw [Nat.mod_eq_of_lt hshort] at hmod
        exact (hsame hmod.symm).symm
      · rfl
    rw [hlog]
    exact h.represents_resized (Nat.zero_le _) (fun n _ ↦ hincomplete n)
      fun n hn ↦ absurd hn (Nat.not_lt_zero n)

end Cutoff

namespace Represents

theorem undamaged (h : Represents m log) : Undamaged log := by
  refine ⟨.inl h.whole, fun n n' hlt hn' ↦ ?_⟩
  rcases hm : m.find? n with - | b
  · refine .inl (h.removed n ?_ hm)
    have hle := hn'.1
    unfold entrySize at *
    omega
  · exact .inr (h.complete n b hm).2.2

theorem completeBlocks_eq (h : Represents m log) : completeBlocks log m = m := by
  refine FlatMap.ext_find? fun n ↦ ?_
  rw [find?_completeBlocks]
  split_ifs with hn
  · rfl
  · rcases hm : m.find? n with - | b
    · rfl
    · exact absurd (h.complete n b hm) hn

/-- An index that reaches an entry has all of it. -/
theorem whole_entry (h : Represents m log) {n : ℕ} (hn : ¬log.index.bytes.length ≤ entrySize * n) :
    entrySize * n + entrySize ≤ log.index.bytes.length := by
  have hmod := h.whole
  unfold entrySize at *
  omega

/-- There is no block whose entry is beyond the index. -/
theorem find?_eq_none (h : Represents m log) {n : ℕ} (hn : log.index.bytes.length ≤ entrySize * n) :
    m.find? n = none := by
  refine Option.eq_none_iff_forall_ne_some.2 fun b hb ↦ ?_
  have hle := (h.complete n b hb).1
  unfold entrySize at *
  omega

variable [LawfulBlockFormat B]

theorem fetchEntry_stored (h : Represents m log) {n : ℕ} {b : B} (hb : m.find? n = some b) :
    fetchEntry (entryAt log.index.bytes n) log = (.ok (some b), log) := by
  have hcomplete := h.complete n b hb
  obtain ⟨-, hid, hdata⟩ := h.stored n b hb hcomplete.1
  have hunpack : (unpack (slice log.blocks.bytes (entryAt log.index.bytes n).blockPos
      (entryAt log.index.bytes n).blockSize) : LogM B) log = (.ok b, log) := by
    rw [unpack, hdata hcomplete.2.2, LawfulBlockFormat.unpack_pack]
    rfl
  refine (LogM.bind_ok (read_ok .blocks h.blocks (.inr hcomplete.2.2))).trans
    ((LogM.bind_ok hunpack).trans ?_)
  exact congrFun (if_pos hid.symm) log

/-- The entry of a removed block, or of a gap, has no data to unpack. -/
theorem fetchEntry_removed (h : Represents m log) {e : IndexEntry} (he : e.blockSize = 0) :
    fetchEntry (B := B) e log = (.error .unpack, log) := by
  refine (LogM.bind_ok (read_ok .blocks h.blocks (.inl he))).trans (LogM.bind_error ?_)
  have hempty : slice log.blocks.bytes e.blockPos e.blockSize = [] := by
    rw [he]
    exact List.take_zero
  show unpack (slice log.blocks.bytes e.blockPos e.blockSize) log = _
  rw [hempty, unpack, LawfulBlockFormat.unpack_nil]
  rfl

theorem fetchByNumber_eq (h : Represents m log) (n : ℕ) :
    fetchByNumber n log = (.ok (m.find? n), log) := by
  by_cases hshort : log.index.bytes.length ≤ entrySize * n
  · rw [h.find?_eq_none hshort]
    exact LogM.orElse_ok ((LogM.bind_ok (tellIndex_ok h.index)).trans
      (congrFun (if_pos hshort) log))
  · have hentry := h.whole_entry hshort
    have hread {outcome : Except LogError (Option B)}
        (hfetch : fetchEntry (entryAt log.index.bytes n) log = (outcome, log)) :
        (tellEnd .index >>= fun size ↦ if size ≤ entrySize * n then (return none : LogM (Option B))
          else readEntry n >>= fetchEntry) log = (outcome, log) :=
      ((LogM.bind_ok (tellIndex_ok h.index)).trans (congrFun (if_neg hshort) log)).trans
        ((LogM.bind_ok (readEntry_ok h.index hentry)).trans hfetch)
    rcases hm : m.find? n with - | b
    · exact LogM.orElse_error (hread (h.fetchEntry_removed (h.removed n hentry hm)))
    · exact LogM.orElse_ok (hread (h.fetchEntry_stored hm))

theorem fetchOptional_eq (h : Represents m log) (id : BlockId) :
    fetchOptional id log = (.ok (lookup m id), log) := by
  unfold lookup
  by_cases hshort : log.index.bytes.length ≤ entrySize * id.num
  · rw [h.find?_eq_none hshort]
    exact LogM.orElse_ok ((LogM.bind_ok (tellIndex_ok h.index)).trans
      (congrFun (if_pos hshort) log))
  · have hentry := h.whole_entry hshort
    have hread {outcome : Except LogError (Option B)}
        (hfetch : (if (entryAt log.index.bytes id.num).blockId ≠ id then (return none : LogM (Option B))
          else fetchEntry (entryAt log.index.bytes id.num)) log = (outcome, log)) :
        (tellEnd .index >>= fun size ↦ if size ≤ entrySize * id.num then (return none : LogM (Option B))
          else readEntry id.num >>= fun e ↦ if e.blockId ≠ id then return none else fetchEntry e) log =
          (outcome, log) := by
      rw [LogM.bind_ok (tellIndex_ok h.index), if_neg hshort, LogM.bind_ok (readEntry_ok h.index hentry)]
      exact hfetch
    rcases hm : m.find? id.num with - | b
    · by_cases hid : (entryAt log.index.bytes id.num).blockId = id
      · exact LogM.orElse_error (hread ((congrFun (if_neg (not_not.2 hid)) log).trans
          (h.fetchEntry_removed (h.removed _ hentry hm))))
      · exact LogM.orElse_ok (hread (congrFun (if_pos hid) log))
    · have hstored := (h.stored _ b hm hentry).2.1
      by_cases hid : BlockFormat.id b = id
      · rw [Option.filter_some, if_pos (decide_eq_true hid)]
        refine LogM.orElse_ok (hread ((congrFun (if_neg (not_not.2 (hstored.trans hid))) log).trans ?_))
        exact h.fetchEntry_stored hm
      · rw [Option.filter_some, if_neg (by simpa using hid)]
        exact LogM.orElse_ok (hread (congrFun (if_pos fun heq ↦ hid (hstored.symm.trans heq)) log))

theorem contains_eq (h : Represents m log) (id : BlockId) :
    contains id log = (.ok (lookup m id).isSome, log) := by
  unfold contains lookup
  by_cases hnoId : id = noId
  · rw [if_pos hnoId]
    rcases hm : m.find? id.num with - | b
    · rfl
    · have hne : ¬BlockFormat.id b = id := fun heq ↦
        LawfulBlockFormat.id_ne_noId b (heq.trans hnoId)
      rw [Option.filter_some, if_neg (by simpa using hne)]
      rfl
  rw [if_neg hnoId]
  refine (LogM.bind_ok (tellIndex_ok h.index)).trans ?_
  by_cases hshort : log.index.bytes.length < entrySize * id.num + entrySize
  · have hnone : m.find? id.num = none := by
      refine Option.eq_none_iff_forall_ne_some.2 fun b hb ↦ ?_
      exact absurd (h.complete _ b hb).1 (not_le.2 hshort)
    rw [hnone]
    exact congrFun (if_pos hshort) log
  · have hentry := not_lt.1 hshort
    refine (congrFun (if_neg hshort) log).trans ((LogM.bind_ok (readEntry_ok h.index hentry)).trans ?_)
    show (Except.ok (decide _ && decide _), log) = _
    rcases hm : m.find? id.num with - | b
    · rw [h.removed _ hentry hm, decide_eq_false (lt_irrefl 0), Bool.and_false]
      rfl
    · obtain ⟨-, hid, -⟩ := h.stored _ b hm hentry
      rw [hid, decide_eq_true (h.complete _ b hm).2.1, Bool.and_true, Option.filter_some]
      by_cases heq : BlockFormat.id b = id
      · rw [decide_eq_true heq]
        rfl
      · rw [decide_eq_false heq]
        rfl

omit [LawfulBlockFormat B] in
/-- **An entry is written**, for a block whose data are in the file, or for none. -/
theorem write_entry (h : Represents m log) {n : ℕ} {e : IndexEntry} {data : List UInt8} {m' : FlatMap ℕ B}
    (hpos : e.blockPos < 256 ^ 8) (hsize : e.blockSize < 256 ^ 4)
    (hothers : ∀ n', n' ≠ n → m'.find? n' = m.find? n')
    (hnone : m'.find? n = none → e.blockSize = 0)
    (hsome : ∀ b, m'.find? n = some b → (BlockFormat.id b).num = n ∧ 0 < e.blockSize ∧
      e.blockSize = (BlockFormat.pack b).length ∧ e.blockId = BlockFormat.id b ∧
      e.blockPos + e.blockSize ≤ (log.blocks.bytes ++ data).length ∧
      slice (log.blocks.bytes ++ data) e.blockPos e.blockSize = BlockFormat.pack b) :
    Represents m' ⟨⟨writeAt log.index.bytes (entrySize * n) e.toBytes, false⟩,
      ⟨log.blocks.bytes ++ data, false⟩⟩ := by
  have hlength : (writeAt log.index.bytes (entrySize * n) e.toBytes).length =
      max log.index.bytes.length (entrySize * n + entrySize) := by
    rw [length_writeAt, e.length_toBytes]
  have hentry {n' : ℕ} (hn' : entrySize * n' + entrySize ≤
      (writeAt log.index.bytes (entrySize * n) e.toBytes).length) :=
    entryAt_write hpos hsize h.whole n' hn'
  have hself : entrySize * n + entrySize ≤
      (writeAt log.index.bytes (entrySize * n) e.toBytes).length := by
    rw [hlength]
    exact le_max_right _ _
  -- a complete block lies before the end of the index, so its entry is not overwritten by zeros
  have hkept {n' : ℕ} {b : B} (hne : n' ≠ n) (hb : m'.find? n' = some b) : Complete log n' ∧
      entrySize * n' + entrySize ≤ (writeAt log.index.bytes (entrySize * n) e.toBytes).length ∧
      entryAt (writeAt log.index.bytes (entrySize * n) e.toBytes) n' = entryAt log.index.bytes n' := by
    have hcomplete := h.complete n' b (hothers n' hne ▸ hb)
    have hle : entrySize * n' + entrySize ≤
        (writeAt log.index.bytes (entrySize * n) e.toBytes).length := by
      rw [hlength]
      exact hcomplete.1.trans (le_max_left _ _)
    refine ⟨hcomplete, hle, ?_⟩
    rw [hentry hle, if_neg hne, if_pos hcomplete.1]
  refine ⟨⟨rfl, rfl, fun n' hn' hnone' ↦ ?_, fun n' b hb hn' ↦ ?_, fun n' b hb ↦ ?_⟩, ?_, fun n' b hb ↦ ?_⟩
  · show (entryAt (writeAt _ _ _) n').blockSize = 0
    rw [hentry hn']
    by_cases hne : n' = n
    · subst hne
      rw [if_pos rfl]
      exact hnone hnone'
    · rw [if_neg hne]
      split_ifs with hold
      · exact h.removed n' hold (hothers n' hne ▸ hnone')
      · rfl
  · by_cases hne : n' = n
    · subst hne
      obtain ⟨-, -, hsize', hid, -, hslice⟩ := hsome b hb
      have heq := hentry hself
      rw [if_pos rfl] at heq
      dsimp only
      rw [heq]
      exact ⟨hsize', hid, fun _ ↦ hslice⟩
    · obtain ⟨hcomplete, hle, heq⟩ := hkept hne hb
      obtain ⟨hsize', hid, hdata⟩ := h.stored n' b (hothers n' hne ▸ hb) hcomplete.1
      dsimp only
      rw [heq]
      refine ⟨hsize', hid, fun _ ↦ ?_⟩
      rw [← hdata hcomplete.2.2, slice, slice, List.drop_append_of_le_length, List.take_append_of_le_length]
      · rw [List.length_drop]
        have := hcomplete.2.2
        omega
      · have := hcomplete.2.2
        omega
  · by_cases hne : n' = n
    · subst hne
      exact (hsome b hb).1
    · exact h.num n' b (hothers n' hne ▸ hb)
  · show (writeAt _ _ _).length % entrySize = 0
    rw [hlength]
    have hmod := h.whole
    unfold entrySize at *
    omega
  · unfold Complete
    dsimp only
    by_cases hne : n' = n
    · subst hne
      obtain ⟨-, hpositive, -, -, hdata, -⟩ := hsome b hb
      have heq := hentry hself
      rw [if_pos rfl] at heq
      rw [heq]
      exact ⟨hself, hpositive, hdata⟩
    · obtain ⟨hcomplete, hle, heq⟩ := hkept hne hb
      rw [heq, List.length_append]
      exact ⟨hle, hcomplete.2.1, hcomplete.2.2.trans (Nat.le_add_right _ _)⟩

/-- A block is stored. -/
theorem store_eq (h : Represents m log) (b : B)
    (hfits : log.blocks.bytes.length + (BlockFormat.pack b).length < 256 ^ 8) :
    ∃ log', store (BlockFormat.id b) b log = (.ok (), log') ∧
      Represents (m.insert (BlockFormat.id b).num b) log' := by
  -- a block of size zero would count as removed
  have hpack : 0 < (BlockFormat.pack b).length := by
    refine List.length_pos_iff.2 fun hnil ↦ ?_
    have hround := LawfulBlockFormat.unpack_pack b
    rw [hnil, LawfulBlockFormat.unpack_nil] at hround
    cases hround
  have hend : writeAt log.blocks.bytes log.blocks.bytes.length (BlockFormat.pack b) =
      log.blocks.bytes ++ BlockFormat.pack b := by
    rw [writeAt, List.take_length, Nat.sub_self, List.drop_eq_nil_of_le (Nat.le_add_right _ _),
      List.append_nil]
    rfl
  refine ⟨⟨⟨writeAt log.index.bytes (entrySize * (BlockFormat.id b).num)
    (IndexEntry.toBytes ⟨log.blocks.bytes.length, (BlockFormat.pack b).length, BlockFormat.id b⟩), false⟩,
    ⟨log.blocks.bytes ++ BlockFormat.pack b, false⟩⟩, ?_, ?_⟩
  · unfold store
    dsimp only
    rw [if_neg (LawfulBlockFormat.id_ne_noId b), LogM.bind_ok (tellIndex_ok h.index),
      LogM.bind_ok (tellEnd_ok .blocks h.blocks), LogM.bind_ok (write_ok .blocks h.blocks)]
    have hindex (s : Stream) : ((log.setStream s .blocks).stream .index).failed = false := h.index
    refine (write_ok .index (hindex _)).trans ?_
    show (Except.ok (), (⟨⟨_, false⟩, ⟨writeAt log.blocks.bytes log.blocks.bytes.length _, false⟩⟩ :
      BlockDatabase)) = _
    rw [hend]
    rfl
  · refine h.write_entry (lt_of_le_of_lt (Nat.le_add_right _ _) hfits) (LawfulBlockFormat.length_pack_lt b)
      (fun n' hne ↦ FlatMap.find?_insert_of_ne _ _ hne) (fun hnone ↦ ?_) fun b' hb' ↦ ?_
    · rw [FlatMap.find?_insert_self] at hnone
      cases hnone
    · rw [FlatMap.find?_insert_self] at hb'
      obtain rfl := Option.some.inj hb'
      refine ⟨rfl, hpack, rfl, rfl, by rw [List.length_append], ?_⟩
      dsimp only
      rw [slice, List.drop_left, List.take_length]

omit [LawfulBlockFormat B] in
/-- A block is removed. -/
theorem remove_eq (h : Represents m log) (id : BlockId) :
    ((remove id log).1 = .ok () ∨ (remove id log).1 = .error .keyNotFound) ∧
      Represents (if (lookup m id).isSome then m.erase id.num else m) (remove id log).2 := by
  by_cases hshort : log.index.bytes.length ≤ entrySize * id.num
  · have hremove : remove id log = (.error .keyNotFound, log) :=
      (LogM.bind_ok (tellIndex_ok h.index)).trans (congrFun (if_pos hshort) log)
    rw [hremove, lookup, h.find?_eq_none hshort]
    exact ⟨.inr rfl, h⟩
  have hentry := h.whole_entry hshort
  obtain ⟨e, he⟩ : ∃ e, e = entryAt log.index.bytes id.num := ⟨_, rfl⟩
  have hread : remove id log = (if e.blockId = id then
      write .index (entrySize * id.num) (IndexEntry.toBytes { e with blockSize := 0 }) else return ()) log := by
    unfold remove
    rw [LogM.bind_ok (tellIndex_ok h.index), if_neg hshort, LogM.bind_ok (readEntry_ok h.index hentry), ← he]
  -- an entry of another block of this number stays
  by_cases hid : e.blockId = id
  · have hwrite : remove id log = (.ok (), ⟨⟨writeAt log.index.bytes (entrySize * id.num)
        (IndexEntry.toBytes { e with blockSize := 0 }), false⟩, ⟨log.blocks.bytes ++ [], false⟩⟩) := by
      rw [hread, if_pos hid]
      refine (write_ok .index h.index).trans ?_
      rw [List.append_nil, ← h.blocks]
      rfl
    have hpos : e.blockPos < 256 ^ 8 := by
      rw [he]
      refine (ofLeBytes_lt _).trans_le (Nat.pow_le_pow_right (by decide) ?_)
      exact List.length_take_le _ _
    have herase : Represents (m.erase id.num) (remove id log).2 := by
      rw [hwrite]
      refine h.write_entry hpos (by decide : 0 < 256 ^ 4)
        (fun n' hne ↦ FlatMap.find?_erase_of_ne _ hne) (fun _ ↦ rfl) fun b hb ↦ ?_
      rw [FlatMap.find?_erase_self] at hb
      cases hb
    refine ⟨.inl (by rw [hwrite]), ?_⟩
    -- the size may have been zero already
    rcases hm : m.find? id.num with - | b
    · rw [FlatMap.erase_of_find?_none hm] at herase
      rw [lookup, hm]
      exact herase
    · have hstored := (h.stored _ b hm hentry).2.1
      rw [← he, hid] at hstored
      rw [lookup, hm, Option.filter_some, if_pos (decide_eq_true hstored.symm)]
      exact herase
  · have hkeep : remove id log = (.ok (), log) := by
      rw [hread, if_neg hid]
      rfl
    have hnone : lookup m id = none := by
      rw [lookup]
      rcases hm : m.find? id.num with - | b
      · rfl
      · have hstored := (h.stored _ b hm hentry).2.1
        rw [← he] at hstored
        rw [Option.filter_some, if_neg (by simpa using fun heq ↦ hid (hstored.trans heq))]
    rw [hkeep, hnone]
    exact ⟨.inl rfl, h⟩

/-- **A call on the log is a call on the map.** -/
theorem call (h : Represents m log) (c : Call B) (hfits : c.Fits log) :
    Agrees (c.run log).1 (c.apply m).1 ∧ Represents (c.apply m).2 (c.run log).2 := by
  cases c with
  | store b =>
    obtain ⟨log', hstore, hrepresents⟩ := h.store_eq b hfits
    have hrun : (Call.store b).run log = (.ok .stored, log') := LogM.bind_ok hstore
    rw [hrun]
    exact ⟨.inl rfl, hrepresents⟩
  | remove id =>
    obtain ⟨houtcome, hrepresents⟩ := h.remove_eq id
    rcases hremove : remove id log with ⟨outcome, log'⟩
    rw [hremove] at houtcome hrepresents
    rcases houtcome with rfl | rfl
    · have hrun : (Call.remove id : Call B).run log = (.ok .removed, log') := LogM.bind_ok hremove
      rw [hrun]
      exact ⟨.inl rfl, hrepresents⟩
    · have hrun : (Call.remove id : Call B).run log = (.error .keyNotFound, log') :=
        LogM.bind_error hremove
      rw [hrun]
      exact ⟨.inr ⟨rfl, rfl⟩, hrepresents⟩
  | contains id =>
    have hrun : (Call.contains id : Call B).run log = (.ok (.contained (lookup m id).isSome), log) :=
      LogM.bind_ok (h.contains_eq id)
    rw [hrun]
    exact ⟨.inl rfl, h⟩
  | fetchOptional id =>
    have hrun : (Call.fetchOptional id : Call B).run log = (.ok (.fetched (lookup m id)), log) :=
      LogM.bind_ok (h.fetchOptional_eq id)
    rw [hrun]
    exact ⟨.inl rfl, h⟩
  | fetchByNumber n =>
    have hrun : (Call.fetchByNumber n : Call B).run log = (.ok (.fetched (m.find? n)), log) :=
      LogM.bind_ok (h.fetchByNumber_eq n)
    rw [hrun]
    exact ⟨.inl rfl, h⟩
  | lastId =>
    have hafter := h.toCutoff.represents_lastId h.undamaged
    have hlast : (lastId B log).1 = .ok (lastOf m) := by
      rcases h.toCutoff.lastId_eq with ⟨n, -, -, hlast⟩ | ⟨-, hlast⟩
      · rw [hlast, h.completeBlocks_eq]
      · rw [hlast, h.completeBlocks_eq]
    rw [h.completeBlocks_eq] at hafter
    rcases heq : lastId B log with ⟨outcome, log'⟩
    rw [heq] at hafter hlast
    dsimp only at hlast hafter
    subst hlast
    have hrun : (Call.lastId : Call B).run log = (.ok (.last (lastOf m)), log') := LogM.bind_ok heq
    rw [hrun]
    exact ⟨.inl rfl, hafter⟩

/-- **A log that represents a map behaves as the map** in every sequence of calls. -/
theorem behavesAs (h : Represents m log) (cs : List (Call B)) : BehavesAs cs log m := by
  induction cs generalizing m log with
  | nil => trivial
  | cons c cs ih =>
    intro hfits
    obtain ⟨hagrees, hrepresents⟩ := h.call c hfits
    exact ⟨hagrees, ih hrepresents⟩

omit [LawfulBlockFormat B] in
/-- The entries of a log that is cut. -/
theorem cutoff_reopen (h : Represents m log) (cut : Cut) : Cutoff m (reopen log cut) := by
  obtain ⟨file, size⟩ := cut
  cases file with
  | index =>
    have hwhole {n : ℕ} (hn : entrySize * n + entrySize ≤ (log.index.bytes.take size).length) :
        entrySize * n + entrySize ≤ size ∧ entrySize * n + entrySize ≤ log.index.bytes.length := by
      rw [List.length_take] at hn
      exact le_min_iff.1 hn
    refine ⟨rfl, rfl, fun n hn hnone ↦ ?_, fun n b hb hn ↦ ?_, h.num⟩
    · show (entryAt (log.index.bytes.take size) n).blockSize = 0
      rw [entryAt_take (hwhole hn).1]
      exact h.removed n (hwhole hn).2 hnone
    · show (entryAt (log.index.bytes.take size) n).blockSize = _ ∧
        (entryAt (log.index.bytes.take size) n).blockId = _ ∧ (_ → _)
      dsimp only [reopen]
      rw [entryAt_take (hwhole hn).1]
      exact h.stored n b hb (hwhole hn).2
  | blocks =>
    refine ⟨rfl, rfl, h.removed, fun n b hb hn ↦ ?_, h.num⟩
    obtain ⟨hsize, hid, hdata⟩ := h.stored n b hb hn
    refine ⟨hsize, hid, fun hle ↦ ?_⟩
    dsimp only [reopen] at hle ⊢
    rw [List.length_take, le_min_iff] at hle
    rw [slice_take hle.1]
    exact hdata hle.2

end Represents

theorem Reached.represents [LawfulBlockFormat B] (h : Reached log m) : Represents m log := by
  induction h with
  | start =>
    refine ⟨⟨rfl, rfl, fun n hn ↦ ?_, fun n b hb ↦ (by cases hb), fun n b hb ↦ (by cases hb)⟩, rfl,
      fun n b hb ↦ (by cases hb)⟩
    exact absurd hn (by show ¬entrySize * n + entrySize ≤ 0; unfold entrySize; omega)
  | call c h hfits ih => exact (ih.call c hfits).2

/-! ### After a cut -/

/-- A call that does not remove blocks or cut the index. -/
def Call.Later : Call B → Prop
  | remove _ => False
  | lastId => False
  | _ => True

/-- **A part of an entry stays**: to fetch its block fails the stream of the index, and then nothing can
be looked up. -/
theorem not_behavesAs_of_cut (hindex : log.index.failed = false) {n : ℕ}
    (hreach : entrySize * n < log.index.bytes.length)
    (hcut : log.index.bytes.length < entrySize * n + entrySize) {id : BlockId} (hid : id ≠ noId) :
    ¬BehavesAs [.fetchByNumber n, .contains id] log m := by
  intro hbehaves
  obtain ⟨-, hcontains⟩ := hbehaves trivial
  have hfetch : (fetchByNumber n : LogM (Option B)) log =
      (.ok none, { log with index := { log.index with failed := true } }) := by
    refine LogM.orElse_error (e := .ioFailure) ?_
    rw [LogM.bind_ok (tellIndex_ok hindex), if_neg (not_le.2 hreach)]
    exact LogM.bind_error (readEntry_short hindex hcut)
  have hrun : (Call.fetchByNumber n : Call B).run log =
      (.ok (.fetched none), { log with index := { log.index with failed := true } }) :=
    LogM.bind_ok hfetch
  rw [hrun] at hcontains
  have herror : (Call.contains id : Call B).run { log with index := { log.index with failed := true } } =
      (.error .ioFailure, { log with index := { log.index with failed := true } }) := by
    refine LogM.bind_error ?_
    unfold contains
    rw [if_neg hid]
    exact LogM.bind_error rfl
  obtain ⟨hagrees, -⟩ := hcontains trivial
  rw [herror] at hagrees
  rcases hagrees with hok | ⟨hremoved, -⟩
  · cases hok
  · cases hremoved

/-- **The data of a block are gone, and its entry stays**: it is reported as contained. -/
theorem not_behavesAs_of_gone {n : ℕ} (hindex : log.index.failed = false)
    (hn : entrySize * n + entrySize ≤ log.index.bytes.length)
    (hsize : 0 < (entryAt log.index.bytes n).blockSize) {b : B}
    (hid : (entryAt log.index.bytes n).blockId = BlockFormat.id b) (hnum : (BlockFormat.id b).num = n)
    (hnoId : BlockFormat.id b ≠ noId) (hgone : m.find? n = none) :
    ¬BehavesAs [.contains (BlockFormat.id b)] log m := by
  intro hbehaves
  have hcontains : contains (BlockFormat.id b) log = (.ok true, log) := by
    unfold contains
    rw [if_neg hnoId, LogM.bind_ok (tellIndex_ok hindex), hnum, if_neg (not_lt.2 hn),
      LogM.bind_ok (readEntry_ok hindex hn), hid, decide_eq_true rfl, decide_eq_true hsize]
    rfl
  have hrun : (Call.contains (BlockFormat.id b) : Call B).run log = (.ok (.contained true), log) :=
    LogM.bind_ok hcontains
  obtain ⟨hagrees, -⟩ := hbehaves trivial
  have happly : ((Call.contains (BlockFormat.id b) : Call B).apply m).1 = .contained false := by
    show Result.contained (lookup m (BlockFormat.id b)).isSome = _
    rw [lookup, hnum, hgone]
    rfl
  rw [hrun, happly] at hagrees
  rcases hagrees with hok | ⟨hremoved, -⟩
  · cases hok
  · cases hremoved

/-- **When the block log survives a cut.** For every log that a sequence of calls has reached, and
however one of its files is cut: the log behaves as the map that its calls define; after the cut `last_id`
returns the id of the highest complete block, and all later calls behave as on the map of the complete
blocks; if and only if nothing of an incomplete block stays. -/
theorem blockLog_survives_iff [LawfulBlockFormat B] (h : Reached log m) (cut : Cut) :
    ((∀ cs, BehavesAs cs log m) ∧
      (lastId B (reopen log cut)).1 = .ok (lastOf (completeBlocks (reopen log cut) m)) ∧
      ∀ cs : List (Call B), (∀ c ∈ cs, c.Later) →
        BehavesAs cs (lastId B (reopen log cut)).2 (completeBlocks (reopen log cut) m)) ↔
    Undamaged (reopen log cut) := by
  have hrepresents := h.represents
  have hcutoff := hrepresents.cutoff_reopen cut
  generalize reopen log cut = log' at hcutoff ⊢
  have hlast : (lastId B log').1 = .ok (lastOf (completeBlocks log' m)) := by
    rcases hcutoff.lastId_eq with ⟨n, -, -, hlast⟩ | ⟨-, hlast⟩
    · rw [hlast]
    · rw [hlast]
  refine ⟨fun ⟨_, _, hlater⟩ ↦ ⟨?_, fun n n' hlt hn' ↦ ?_⟩, fun hundamaged ↦
    ⟨hrepresents.behavesAs, hlast, fun cs _ ↦ (hcutoff.represents_lastId hundamaged).behavesAs cs⟩⟩
  · by_contra hcut
    rw [not_or] at hcut
    -- reading a partial entry fails the stream, and no later call gets an answer
    have hsame := hcutoff.lastId_of_cut hcut.2
    refine not_behavesAs_of_cut (B := B) (n := log'.index.bytes.length / entrySize) hcutoff.index ?_ ?_
      (by decide : (Vector.replicate 20 1 : BlockId) ≠ noId) (hsame ▸ hlater _ fun c hc ↦ ?_)
    · have hmod := hcut.1
      unfold entrySize at *
      omega
    · unfold entrySize
      omega
    · rcases List.mem_cons.1 hc with rfl | hc
      · trivial
      · obtain rfl := List.mem_singleton.1 hc
        trivial
  · by_contra hgone
    rw [not_or] at hgone
    have hn : entrySize * n + entrySize ≤ log'.index.bytes.length := by
      have hle := hn'.1
      unfold entrySize at *
      omega
    -- the entry of a block whose data are gone still says that it is contained
    obtain ⟨hindex, hn'', hentry⟩ := hcutoff.lastId_keeps hlt hn'
    rcases hm : m.find? n with - | b
    · exact hgone.1 (hcutoff.removed n hn hm)
    · have hincomplete : ¬Complete log' n := fun hcomplete ↦ hgone.2 hcomplete.2.2
      refine not_behavesAs_of_gone hindex hn'' (hentry ▸ Nat.pos_of_ne_zero hgone.1)
        (hentry ▸ (hcutoff.stored n b hm hn).2.1) (hcutoff.num n b hm) (LawfulBlockFormat.id_ne_noId b) ?_
        (hlater _ fun c hc ↦ ?_)
      · rw [find?_completeBlocks, if_neg hincomplete]
      · obtain rfl := List.mem_singleton.1 hc
        trivial

end Represented

/-! ### A cut in an entry of the index -/

/-- A block that is nothing but its id. -/
abbrev BareBlock := { id : BlockId // id ≠ noId }

instance : BlockFormat BareBlock where
  id b := b.1
  pack b := b.1.toList
  unpack l :=
    if h : l.length = 20 then
      let id : BlockId := ⟨l.toArray, h⟩
      if hid : id ≠ noId then some ⟨id, hid⟩ else none
    else none

instance : LawfulBlockFormat BareBlock where
  unpack_pack b := by
    obtain ⟨id, hid⟩ := b
    show (if h : id.toList.length = 20 then _ else _) = _
    rw [dif_pos id.length_toList]
    exact dif_pos hid
  unpack_nil := rfl
  length_pack_lt b := by
    show b.1.toList.length < 256 ^ 4
    rw [b.1.length_toList]
    decide
  id_ne_noId b := b.2

/-- The bare block of a small number. -/
def bareBlock (num : UInt8) : BareBlock :=
  ⟨#v[0, 0, 0, num, 7, 7, 7, 7, 7, 7, 7, 7, 7, 7, 7, 7, 7, 7, 7, 7], by
    intro h
    have hbyte : (7 : UInt8) = 0 := congrArg (fun id : BlockId ↦ id[4]) h
    exact absurd hbyte (by decide)⟩

/-- The log after two blocks. -/
def twoBlocks : BlockDatabase :=
  ((Call.store (bareBlock 2)).run ((Call.store (bareBlock 1)).run {}).2).2

theorem reached_twoBlocks :
    Reached twoBlocks ((FlatMap.insert ∅ 1 (bareBlock 1)).insert 2 (bareBlock 2)) := by
  have hfirst : (Call.store (bareBlock 1)).Fits {} := (by decide : 0 + 20 < 256 ^ 8)
  have hlength : (((Call.store (bareBlock 1)).run {}).2).blocks.bytes.length = 20 := by decide
  have hsecond : (Call.store (bareBlock 2)).Fits ((Call.store (bareBlock 1)).run {}).2 := by
    show _ + _ < 256 ^ 8
    rw [hlength]
    exact (by decide : 20 + 20 < 256 ^ 8)
  exact .call (.store (bareBlock 2)) (.call (.store (bareBlock 1)) .start hfirst) hsecond

/-- Cut between two entries, the log has the first block, and behaves so. -/
theorem blockLog_survives_iff_twoBlocks :
    Undamaged (reopen twoBlocks ⟨.index, 64⟩) ∧ ∀ cs : List (Call BareBlock), (∀ c ∈ cs, c.Later) →
      BehavesAs cs (lastId BareBlock (reopen twoBlocks ⟨.index, 64⟩)).2
        (completeBlocks (reopen twoBlocks ⟨.index, 64⟩)
          ((FlatMap.insert ∅ 1 (bareBlock 1)).insert 2 (bareBlock 2))) := by
  have hlength : (reopen twoBlocks ⟨.index, 64⟩).index.bytes.length = 64 := by decide
  have hundamaged : Undamaged (reopen twoBlocks ⟨.index, 64⟩) := by
    refine ⟨.inl (by rw [hlength]; rfl), fun n n' hlt hn' ↦ ?_⟩
    have hle := hn'.1
    rw [hlength] at hle
    unfold entrySize at hle
    obtain rfl : n = 0 := by omega
    exact .inl (by decide)
  exact ⟨hundamaged, ((blockLog_survives_iff reached_twoBlocks ⟨.index, 64⟩).2 hundamaged).2.2⟩

/-- **Cut within the entry of the second block**, the log has the first block and `last_id` finds it; but
when the second block has been fetched, the first one is not there any more. -/
theorem blockLog_loses_block :
    (lastId BareBlock (reopen twoBlocks ⟨.index, 69⟩)).1 = .ok (some (bareBlock 1).1) ∧
    (completeBlocks (reopen twoBlocks ⟨.index, 69⟩)
      ((FlatMap.insert ∅ 1 (bareBlock 1)).insert 2 (bareBlock 2))).find? 1 = some (bareBlock 1) ∧
    ¬BehavesAs [.fetchByNumber 2, .fetchByNumber 1] (lastId BareBlock (reopen twoBlocks ⟨.index, 69⟩)).2
      (completeBlocks (reopen twoBlocks ⟨.index, 69⟩)
        ((FlatMap.insert ∅ 1 (bareBlock 1)).insert 2 (bareBlock 2))) := by
  refine ⟨by decide +kernel, by decide +kernel, fun hbehaves ↦ ?_⟩
  obtain ⟨-, hsecond⟩ := hbehaves trivial
  obtain ⟨hagrees, -⟩ := hsecond trivial
  revert hagrees
  unfold Agrees
  decide +kernel

end Playchain.BlockLog
