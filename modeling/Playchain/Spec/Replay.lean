import Playchain.Blocks.Replay
import Playchain.Spec.RoomRatings

/-!
# Does a replay reproduce the state?

A chain of blocks is pushed by a live node and replayed by another one, with data of their own
(`Link`). Both build the same state as long as every draw of entropy is **reproducible**: both nodes
find the same block, and none of the six leading bytes of its id is zero. Then these bytes fill the
buffer, and neither the deduplication index nor the old contents of the buffer are read
(`getDatabaseEntropy_eq`).

The leading bytes of an id are the number of the block, so on a chain of less than `2 ^ 24` blocks the
first byte is zero, and the draw depends on the node (`replay_differs`).
-/

namespace Playchain.Replay

/-! ### The buffer -/

/-- When no byte is zero, all bytes are copied. -/
theorem copyNonzero_fst {bytes : List UInt8} (h : ∀ byte ∈ bytes, byte ≠ 0) (ci : ℕ)
    (buff : Vector UInt8 6) : (copyNonzero bytes ci buff).1 = ci + bytes.length := by
  induction bytes generalizing ci buff with
  | nil => rfl
  | cons byte bytes ih =>
    rw [copyNonzero, if_neg (h byte List.mem_cons_self),
      ih (fun b hb ↦ h b (List.mem_cons_of_mem _ hb)), List.length_cons]
    omega

/-- The byte at a place of the buffer after the copy: a byte of the hash, or what was there before. -/
theorem getD_copyNonzero {bytes : List UInt8} (h : ∀ byte ∈ bytes, byte ≠ 0) (ci : ℕ)
    (buff : Vector UInt8 6) {i : ℕ} (hi : i < 6) :
    (copyNonzero bytes ci buff).2[i] = if ci ≤ i then (bytes[i - ci]?).getD buff[i] else buff[i] := by
  induction bytes generalizing ci buff with
  | nil => simp [copyNonzero]
  | cons byte bytes ih =>
    rw [copyNonzero, if_neg (h byte List.mem_cons_self),
      ih (fun b hb ↦ h b (List.mem_cons_of_mem _ hb)), Vector.getElem_setIfInBounds hi]
    rcases lt_trichotomy ci i with hlt | rfl | hgt
    · obtain ⟨k, rfl⟩ := Nat.exists_eq_add_of_lt hlt
      rw [if_pos (by omega), if_neg (by omega), if_pos (by omega),
        show ci + k + 1 - (ci + 1) = k by omega, show ci + k + 1 - ci = k + 1 by omega,
        List.getElem?_cons_succ]
    · rw [if_neg (by omega), if_pos rfl, if_pos le_rfl, Nat.sub_self, List.getElem?_cons_zero,
        Option.getD_some]
    · rw [if_neg (by omega), if_neg (by omega), if_neg (by omega)]

/-- Six bytes that are not zero replace the buffer. -/
theorem copyNonzero_full {bytes : List UInt8} (h : ∀ byte ∈ bytes, byte ≠ 0)
    (hlength : bytes.length = 6) (buff buff' : Vector UInt8 6) :
    copyNonzero bytes 0 buff = copyNonzero bytes 0 buff' := by
  refine Prod.ext ?_ (Vector.ext fun i hi ↦ ?_)
  · rw [copyNonzero_fst h, copyNonzero_fst h]
  · have hsome : bytes[i]? = some bytes[i] := List.getElem?_eq_getElem (hlength ▸ hi)
    rw [getD_copyNonzero h 0 buff hi, getD_copyNonzero h 0 buff' hi, if_pos (Nat.zero_le i),
      if_pos (Nat.zero_le i), Nat.sub_zero, hsome, Option.getD_some, Option.getD_some]

/-- A full buffer is not mixed with signatures. -/
theorem mixTransactions_full (trxs : List SignedTransaction) {ci : ℕ} (h : 6 ≤ ci)
    (buff : Vector UInt8 6) : mixTransactions trxs ci buff = buff := by
  cases trxs with
  | nil => rfl
  | cons trx trxs => rw [mixTransactions, if_neg (by omega)]

/-- None of the six leading bytes of a hash is zero. -/
def LeadingNonzero (h : BlockId) : Prop := ∀ byte ∈ h.toList.take 6, byte ≠ 0

instance (h : BlockId) : Decidable (LeadingNonzero h) :=
  inferInstanceAs (Decidable (∀ byte ∈ _, byte ≠ 0))

/-- **The entropy depends on the hash only** when its leading bytes fill the buffer. -/
theorem getDatabaseEntropy_eq [Ripemd160] {chainId : List UInt8} {live replay : LocalData}
    {b : SignedBlock} (hhash : entropyHash chainId live b = entropyHash chainId replay b)
    (hbytes : LeadingNonzero (entropyHash chainId live b))
    (index index' : FlatMap ℕ SignedTransaction) :
    getDatabaseEntropy chainId live b index = getDatabaseEntropy chainId replay b index' := by
  have hlength : ((entropyHash chainId live b).toList.take 6).length = 6 := by simp
  have hfull (buff : Vector UInt8 6) (index : FlatMap ℕ SignedTransaction) :
      mixTransactions (index.toList.map Prod.snd)
        (copyNonzero ((entropyHash chainId live b).toList.take 6) 0 buff).1
        (copyNonzero ((entropyHash chainId live b).toList.take 6) 0 buff).2 =
      (copyNonzero ((entropyHash chainId live b).toList.take 6) 0 buff).2 :=
    mixTransactions_full _ (by rw [copyNonzero_fst hbytes, hlength]) _
  unfold getDatabaseEntropy
  simp only [← hhash]
  rw [hfull, hfull, copyNonzero_full hbytes hlength live.buff replay.buff]

/-! ### Two states -/

/-- The replaying node has built the same database and has drawn the same entropies; it knows a part of
the live node's transactions. -/
structure Follows (s r : ChainState) : Prop where
  db : r.db = s.db
  draws : r.draws = s.draws
  index : ∀ id trx, r.index.find? id = some trx → s.index.find? id = some trx

theorem Follows.refl (s : ChainState) : Follows s s := ⟨rfl, rfl, fun _ _ h ↦ h⟩

/-- Whenever the live node succeeds, the replaying one does and follows it. -/
def Simulates (x y : Except ChainError ChainState) : Prop :=
  ∀ s', x = .ok s' → ∃ r', y = .ok r' ∧ Follows s' r'

section Simulation

variable {s r : ChainState} {x y : Except ChainError ChainState}

theorem Simulates.bind {f g : ChainState → Except ChainError ChainState} (h : Simulates x y)
    (hfg : ∀ s r, x = .ok s → Follows s r → Simulates (f s) (g r)) :
    Simulates (x >>= f) (y >>= g) := by
  intro s' hs'
  obtain ⟨s₁, hs₁, hs'⟩ := Except.bind_eq_ok.1 hs'
  obtain ⟨r₁, hr₁, h₁⟩ := h s₁ hs₁
  obtain ⟨r', hr', h'⟩ := hfg s₁ r₁ hs₁ h₁ s' hs'
  exact ⟨r', Except.bind_eq_ok.2 ⟨r₁, hr₁, hr'⟩, h'⟩

theorem Simulates.pure (h : Follows s r) : Simulates (Pure.pure s) (Pure.pure r) := by
  intro s' hs'
  obtain rfl := Except.pure_eq_ok.1 hs'
  exact ⟨r, rfl, h⟩

/-- A step of the database alone. -/
theorem Simulates.db (h : Follows s r) (f : Database → Except ChainError Database)
    {g : ChainState → Database → Except ChainError ChainState}
    (hg : ∀ db, Simulates (g s db) (g r db)) :
    Simulates (f s.db >>= g s) (f r.db >>= g r) := by
  intro s' hs'
  obtain ⟨db, hdb, hs'⟩ := Except.bind_eq_ok.1 hs'
  obtain ⟨r', hr', h'⟩ := hg db s' hs'
  exact ⟨r', Except.bind_eq_ok.2 ⟨db, h.db ▸ hdb, hr'⟩, h'⟩

/-- A loop of steps. -/
theorem Simulates.foldlM {α : Type} {f g : ChainState → α → Except ChainError ChainState}
    (hstep : ∀ {s r : ChainState} (a : α), Follows s r → Simulates (f s a) (g r a)) {l : List α}
    (h : Follows s r) : Simulates (l.foldlM f s) (l.foldlM g r) := by
  induction l generalizing s r with
  | nil => exact Simulates.pure h
  | cons a l ih =>
    rw [List.foldlM_cons, List.foldlM_cons]
    exact (hstep a h).bind fun _ _ _ h₁ ↦ ih h₁

theorem Follows.withDb (h : Follows s r) (db : Database) :
    Follows { s with db := db } { r with db := db } := ⟨rfl, h.draws, h.index⟩

theorem Follows.clearExpired (h : Follows s r) :
    Follows (clearExpiredTransactions s) (clearExpiredTransactions r) where
  db := h.db
  draws := h.draws
  index id trx htrx := by
    obtain ⟨hfind, hlive⟩ := FlatMap.find?_filter.1 htrx
    rw [h.db] at hlive
    exact FlatMap.find?_filter.2 ⟨h.index id trx hfind, hlive⟩

theorem depositFees_simulates (h : Follows s r) :
    Simulates (depositFees s) (depositFees r) :=
  Simulates.db h depositPendingFees (g := fun s db ↦ Pure.pure { s with db := db })
    fun db ↦ Simulates.pure (h.withDb db)

end Simulation

/-- The rating of rooms reads the entropy only when it is drawn. -/
theorem updateRoomRating_eq [RatingFunctions] {d : Database} (h : ¬DrawsEntropy d) (entropy entropy' : ℤ) :
    updateRoomRating d entropy = updateRoomRating d entropy' := by
  obtain ⟨m, hm⟩ := removeExpiredRoomRatingMeasurements_eq d
  unfold updateRoomRating
  simp only [hm]
  by_cases htime : d.headBlockTime < hardforkPlaychain5Time
  · have hrooms : (roomsByLastUpdate d).length = 1 := by
      by_contra hne
      exact h ⟨htime, hne⟩
    have hrooms' : (roomsByLastUpdate { d with roomRatingMeasurements := m }).length = 1 := hrooms
    rw [if_pos htime, if_pos htime, if_pos hrooms', if_pos hrooms']
  · rw [if_neg htime, if_neg htime]

/-! ### Two nodes -/

/-- A block of the chain, with the data of the live node and of the replaying one while they apply it.
The flags of a replay skip the check for duplicates up to some block. -/
structure Link where
  block : SignedBlock
  live : LocalData
  replay : LocalData
  replaySkips : Bool

section Nodes

variable [GameDigest] [RatingFunctions]

theorem applyTransaction_simulates {s r : ChainState} (h : Follows s r) (skip : Bool)
    (trx : SignedTransaction) :
    Simulates (applyTransaction false s trx) (applyTransaction skip r trx) := by
  intro s' hs'
  obtain ⟨_, hnew, hs'⟩ := Except.bind_eq_ok.1 hs'
  obtain ⟨db, hdb, hs'⟩ := Except.bind_eq_ok.1 hs'
  obtain rfl := Except.pure_eq_ok.1 hs'
  have hnone : s.index.find? trx.id = none := by simpa using fcAssert_eq_ok.1 hnew
  have hnone' : r.index.find? trx.id = none := by
    by_contra hsome
    obtain ⟨t, ht⟩ := Option.ne_none_iff_exists'.1 hsome
    rw [h.index _ _ ht] at hnone
    cases hnone
  refine ⟨_, Except.bind_eq_ok.2 ⟨(), fcAssert_of_true (.inr hnone'),
    Except.bind_eq_ok.2 ⟨db, h.db ▸ hdb, rfl⟩⟩, rfl, h.draws, fun id t ht ↦ ?_⟩
  show (s.index.insert trx.id trx).find? id = some t
  by_cases hid : id = trx.id
  · subst hid
    cases skip with
    | true => exact absurd (hnone'.symm.trans ht) (by simp)
    | false =>
      have ht : (r.index.insert trx.id trx).find? trx.id = some t := ht
      rwa [FlatMap.find?_insert_self] at ht ⊢
  · rw [FlatMap.find?_insert_of_ne _ _ hid]
    cases skip with
    | true => exact h.index id t ht
    | false =>
      have ht : (r.index.insert trx.id trx).find? id = some t := ht
      rw [FlatMap.find?_insert_of_ne _ _ hid] at ht
      exact h.index id t ht

theorem runElsewhere_simulates {s r : ChainState} (h : Follows s r) (elsewhere : List Surroundings) :
    Simulates (runElsewhere elsewhere s) (runElsewhere elsewhere r) :=
  Simulates.db h (fun d ↦ elsewhere.foldlM (fun d s ↦ Event.run d (.elsewhere s)) d)
    (g := fun s db ↦ Pure.pure { s with db := db }) fun db ↦ Simulates.pure (h.withDb db)

theorem beginBlock_simulates {s r : ChainState} (h : Follows s r) (skip : Bool) (b : SignedBlock) :
    Simulates (beginBlock false s b) (beginBlock skip r b) :=
  (Simulates.foldlM (fun trx h ↦ applyTransaction_simulates h skip trx) h).bind fun _ _ _ h ↦
    Simulates.db h (fun d ↦ Event.run d (.headBlock b.timestamp))
      (g := fun s db ↦ runElsewhere b.beforeMaintenance { s with db := db })
      fun db ↦ runElsewhere_simulates (h.withDb db) _

theorem endBlock_simulates {s r : ChainState} (h : Follows s r) (b : SignedBlock) :
    Simulates (endBlock b s) (endBlock b r) :=
  (runElsewhere_simulates h _).bind fun _ _ _ h ↦
    Simulates.db h.clearExpired (fun d ↦ processBlockTasks d b.maintenance)
      (g := fun s db ↦ Pure.pure { s with db := db })
      fun db ↦ Simulates.pure (h.clearExpired.withDb db)

section Run

variable [Ripemd160]

/-- The live node pushes the blocks. -/
def pushLive (chainId : List UInt8) (s : ChainState) (links : List Link) :
    Except ChainError ChainState :=
  links.foldlM (fun s link ↦ applyBlock chainId false link.live s link.block) s

/-- The other node replays them. -/
def replayAll (chainId : List UInt8) (s : ChainState) (links : List Link) :
    Except ChainError ChainState :=
  links.foldlM (fun s link ↦ applyBlock chainId link.replaySkips link.replay s link.block) s

/-- Rooms are rated without entropy, or both nodes find the same hash and it fills the buffer. -/
def Reproducible (chainId : List UInt8) (link : Link) (d : Database) : Prop :=
  hardforkPlaychain5Time ≤ d.headBlockTime ∨ (roomsByLastUpdate d).length = 1 ∨
    (entropyHash chainId link.live link.block = entropyHash chainId link.replay link.block ∧
      LeadingNonzero (entropyHash chainId link.live link.block))

/-- The state of the live node when it rates the rooms in a maintenance. -/
def ratingState (s : ChainState) (b : SignedBlock) : Except ChainError ChainState := do
  let s ← beginBlock false s b
  depositFees s

/-- Every rating of the live node is reproducible. -/
def AllReproducible (chainId : List UInt8) : ChainState → List Link → Prop
  | _, [] => True
  | s, link :: links =>
    (link.block.maintenance = true → ∀ m, ratingState s link.block = .ok m →
      Reproducible chainId link m.db) ∧
    ∀ s', applyBlock chainId false link.live s link.block = .ok s' → AllReproducible chainId s' links

variable {chainId : List UInt8} {link : Link} {s r : ChainState}

omit [GameDigest] in
theorem rateRooms_simulates (h : Follows s r) (hdraw : Reproducible chainId link s.db) :
    Simulates (rateRooms chainId link.live link.block s)
      (rateRooms chainId link.replay link.block r) := by
  have hrating : updateRoomRating s.db (getDatabaseEntropy chainId link.live link.block s.index) =
        updateRoomRating r.db (getDatabaseEntropy chainId link.replay link.block r.index) ∧
      (DrawsEntropy s.db → getDatabaseEntropy chainId link.live link.block s.index =
        getDatabaseEntropy chainId link.replay link.block r.index) := by
    rw [h.db]
    by_cases hdraws : DrawsEntropy s.db
    · obtain htime | hone | ⟨hhash, hbytes⟩ := hdraw
      · exact absurd hdraws.1 (not_lt.2 htime)
      · exact absurd hone hdraws.2
      · have heq := getDatabaseEntropy_eq hhash hbytes s.index r.index
        exact ⟨by rw [heq], fun _ ↦ heq⟩
    · exact ⟨updateRoomRating_eq hdraws _ _, fun hd ↦ absurd hd hdraws⟩
  intro s' hs'
  obtain ⟨d₁, hd₁, hs'⟩ := Except.bind_eq_ok.1 hs'
  obtain ⟨d₂, hd₂, hs'⟩ := Except.bind_eq_ok.1 hs'
  obtain rfl := Except.pure_eq_ok.1 hs'
  refine ⟨_, Except.bind_eq_ok.2 ⟨d₁, hrating.1 ▸ hd₁, Except.bind_eq_ok.2 ⟨d₂, hd₂, rfl⟩⟩, rfl, ?_,
    h.index⟩
  show (if DrawsEntropy r.db then _ else r.draws) = if DrawsEntropy s.db then _ else s.draws
  rw [h.db, h.draws]
  by_cases hdraws : DrawsEntropy s.db
  · rw [if_pos hdraws, if_pos hdraws, hrating.2 hdraws]
  · rw [if_neg hdraws, if_neg hdraws]

theorem applyBlock_simulates (h : Follows s r)
    (hdraw : link.block.maintenance = true → ∀ m, ratingState s link.block = .ok m →
      Reproducible chainId link m.db) :
    Simulates (applyBlock chainId false link.live s link.block)
      (applyBlock chainId link.replaySkips link.replay r link.block) := by
  refine (beginBlock_simulates h link.replaySkips link.block).bind fun s₁ r₁ hs₁ h₁ ↦ ?_
  refine Simulates.bind ?_ fun s₂ r₂ _ h₂ ↦ endBlock_simulates h₂ link.block
  unfold maintainBlock
  by_cases hmaintenance : link.block.maintenance = true
  · rw [if_pos hmaintenance, if_pos hmaintenance]
    exact (depositFees_simulates h₁).bind fun m _ hm hfollows ↦ rateRooms_simulates hfollows
      (hdraw hmaintenance m (Except.bind_eq_ok.2 ⟨s₁, hs₁, hm⟩))
  · rw [if_neg hmaintenance, if_neg hmaintenance]
    exact Simulates.pure h₁

/-- **A replay reproduces the state** when every rating is reproducible: the replaying node accepts the
blocks that the live node has accepted, and it has the same database, with the ratings of all rooms and
the weights of all tables, after the same draws of entropy. -/
theorem replay_reproduces (chainId : List UInt8) (links : List Link) (s s' : ChainState)
    (hlive : pushLive chainId s links = .ok s') (hdraws : AllReproducible chainId s links) :
    ∃ r, replayAll chainId s links = .ok r ∧ r.db = s'.db ∧ r.draws = s'.draws := by
  suffices h : ∀ r, Follows s r → ∃ r', replayAll chainId r links = .ok r' ∧ Follows s' r' by
    obtain ⟨r, hr, hfollows⟩ := h s (Follows.refl s)
    exact ⟨r, hr, hfollows.db, hfollows.draws⟩
  induction links generalizing s with
  | nil =>
    obtain rfl := Except.pure_eq_ok.1 hlive
    exact fun r h ↦ ⟨r, rfl, h⟩
  | cons link links ih =>
    intro r h
    rw [pushLive, List.foldlM_cons] at hlive
    obtain ⟨s₁, hs₁, hlive⟩ := Except.bind_eq_ok.1 hlive
    obtain ⟨r₁, hr₁, h₁⟩ := applyBlock_simulates h hdraws.1 s₁ hs₁
    obtain ⟨r', hr', h'⟩ := ih s₁ hlive (hdraws.2 s₁ hs₁) r₁ h₁
    refine ⟨r', ?_, h'⟩
    rw [replayAll, List.foldlM_cons]
    exact Except.bind_eq_ok.2 ⟨r₁, hr₁, hr'⟩

end Run

end Nodes

/-! ### A chain with one room -/

/-- The values of the hash at the buffers of the chains below. -/
@[reducible] def sampleRipemd160 : Ripemd160 where
  hash bytes :=
    if bytes = [1, 42, 59, 7, 0, 0] then
      #v[96, 246, 138, 252, 18, 48, 225, 203, 139, 3, 113, 201, 9, 85, 29, 73, 191, 146, 218, 118]
    else if bytes = [1, 42, 59, 0, 0, 0] then
      #v[97, 148, 175, 188, 226, 185, 84, 71, 226, 69, 74, 87, 242, 127, 186, 145, 93, 104, 21, 114]
    else
      #v[0, 78, 231, 160, 16, 129, 186, 38, 60, 73, 20, 237, 152, 161, 101, 225, 7, 85, 171, 121]

/-- The id of a block, with its number in front. -/
def sampleId (a b c d : UInt8) : BlockId :=
  #v[a, b, c, d, 42, 59, 0, 0, 0, 0, 0, 0, 0, 0, 0, 0, 0, 0, 0, 0]

/-- A signature; its fourth byte is read when three bytes of the buffer are written. -/
def sampleSignature : Signature := Vector.replicate 65 7

/-- A room is created in the first block, and the second block performs the maintenance. The live node
has the blocks in its fork database, the replaying node has them in its block log; both find zeros on
the stack. -/
def roomLinks (first second : BlockId) : List Link :=
  let live : LocalData := { forkBlocks := fun n ↦
    if n = first.num then [first] else if n = second.num then [second] else [] }
  let replay : LocalData := { loggedBlock := fun n ↦
    if n = first.num then some first else if n = second.num then some second else none }
  [{ block :=
      { id := first
        timestamp := 1561000003
        transactions :=
          [{ id := 5
             signatures := [sampleSignature]
             expiration := 1561000100
             steps := [.operation (.roomCreate ⟨6, "url", "room", "1.0.0"⟩)] }] }
     live := live
     replay := replay
     replaySkips := true },
    { block :=
        { id := second
          timestamp := 1561000006
          lastIrreversible := first.num
          maintenance := true }
      live := live
      replay := replay
      replaySkips := true }]

/-- Genesis before the fifth hard fork. -/
def sampleGenesis : Except ChainError ChainState := do
  let db ← initGenesis 1561000000 9 sampleClaimed
  return { db := db }

/-- The rating of the room. -/
def roomRating (s : ChainState) : Option ℤ := (s.db.rooms.find? 1).map RoomObject.rating

/-- **A replay can differ**: with the number of the first block in front of its id only three bytes of the
buffer are written. The live node mixes the fourth one with a signature of its deduplication index,
which is empty on the replaying node, and they give the room different ratings. Besides, the bytes that
are not written decide about the entropy. -/
theorem replay_differs : (∃ s l r, sampleGenesis = .ok s ∧
      @pushLive sampleDigest sampleRating sampleRipemd160 [] s
        (roomLinks (sampleId 0 0 0 1) (sampleId 0 0 0 2)) = .ok l ∧
      @replayAll sampleDigest sampleRating sampleRipemd160 [] s
        (roomLinks (sampleId 0 0 0 1) (sampleId 0 0 0 2)) = .ok r ∧
      roomRating l ≠ roomRating r) ∧
    ∃ (b : SignedBlock) (l l' : LocalData), (∀ n, l.fetchBlockByNumber n = l'.fetchBlockByNumber n) ∧
      @getDatabaseEntropy sampleRipemd160 [] l b ∅ ≠ @getDatabaseEntropy sampleRipemd160 [] l' b ∅ := by
  constructor
  · have hrun : (do
        let s ← sampleGenesis
        let l ← @pushLive sampleDigest sampleRating sampleRipemd160 [] s
          (roomLinks (sampleId 0 0 0 1) (sampleId 0 0 0 2))
        let r ← @replayAll sampleDigest sampleRating sampleRipemd160 [] s
          (roomLinks (sampleId 0 0 0 1) (sampleId 0 0 0 2))
        fcAssert (roomRating l ≠ roomRating r) "" : Except ChainError Unit) = .ok () := by
      rfl
    obtain ⟨s, hs, hrun⟩ := Except.bind_eq_ok.1 hrun
    obtain ⟨l, hl, hrun⟩ := Except.bind_eq_ok.1 hrun
    obtain ⟨r, hr, hrun⟩ := Except.bind_eq_ok.1 hrun
    exact ⟨s, l, r, hs, hl, hr, fcAssert_eq_ok.1 hrun⟩
  · refine ⟨{ id := sampleId 0 0 0 1, timestamp := 1561000003 },
      { loggedBlock := fun _ ↦ some (sampleId 0 0 0 1) },
      { loggedBlock := fun _ ↦ some (sampleId 0 0 0 1), buff := #v[0, 0, 0, 7, 0, 0] },
      fun _ ↦ rfl, ?_⟩
    decide +kernel

theorem replay_reproduces_room : ∃ s l r, sampleGenesis = .ok s ∧
    @pushLive sampleDigest sampleRating sampleRipemd160 [] s
      (roomLinks (sampleId 1 1 1 2) (sampleId 1 1 1 3)) = .ok l ∧ l.draws ≠ [] ∧
    @replayAll sampleDigest sampleRating sampleRipemd160 [] s
      (roomLinks (sampleId 1 1 1 2) (sampleId 1 1 1 3)) = .ok r ∧
    r.db = l.db ∧ r.draws = l.draws := by
  have hrun : (do
      let s ← sampleGenesis
      let l ← @pushLive sampleDigest sampleRating sampleRipemd160 [] s
        (roomLinks (sampleId 1 1 1 2) (sampleId 1 1 1 3))
      fcAssert (l.draws ≠ []) "" : Except ChainError Unit) = .ok () := by
    rfl
  obtain ⟨s, hs, hrun⟩ := Except.bind_eq_ok.1 hrun
  obtain ⟨l, hl, hrun⟩ := Except.bind_eq_ok.1 hrun
  obtain ⟨r, hr, hdb, hdraws⟩ := @replay_reproduces sampleDigest sampleRating sampleRipemd160 []
    (roomLinks (sampleId 1 1 1 2) (sampleId 1 1 1 3)) s l hl
    ⟨fun h ↦ absurd h (by decide), fun _ _ ↦
      ⟨fun _ _ _ ↦ .inr (.inr ⟨by decide +kernel, by decide +kernel⟩), fun _ _ ↦ trivial⟩⟩
  exact ⟨s, l, r, hs, hl, fcAssert_eq_ok.1 hrun, hr, hdb, hdraws⟩

end Playchain.Replay
