import Mathlib.Data.Nat.Pairing
import Playchain.Lib.Control
import Playchain.Lib.HashTree
import Playchain.Protocol.Block

/-!
# The merkle root commits to the transactions

The vector that `calculate_merkle_root` works in holds, in its first `current_number_of_hashes` places, the digests of hash
trees whose leaves together are the transactions' digests in order. A level joins neighbouring trees (`hashLevel_eq`),
so the digest that is left is that of one tree over all transactions (`computeMerkleRoot_eq`), and the digest of a tree
determines its leaves.
-/

namespace Playchain

namespace BlockHashes

variable {Tx Digest Checksum : Type*} (H : BlockHashes Tx Digest Checksum)

/-! ### One level -/

theorem at?_eq_ok {ids : List Digest} {i : ℕ} (h : i < ids.length) : at? ids i = .ok ids[i] := by
  unfold at?
  rw [List.getElem?_eq_getElem h]

theorem put_eq_ok {ids : List Digest} {k : ℕ} {d : Digest} (h : k < ids.length) : put ids k d = .ok (ids.set k d) :=
  if_pos h

/-- What a write puts in front of the next place. -/
theorem take_succ_set {ids : List Digest} {k : ℕ} (d : Digest) (h : k < ids.length) :
    (ids.set k d).take (k + 1) = ids.take k ++ [d] := by
  rw [List.take_succ_eq_append_getElem (by rw [List.length_set]; exact h), List.take_set_of_le le_rfl,
    List.getElem_set_self]

/-- **The loop over the pairs.** The hashes go in front of what is still to be read. -/
theorem hashPairs_eq (n i k : ℕ) (ids : List Digest) (hk : k ≤ i) (hi : i + 2 * n ≤ ids.length) :
    ∃ ids', H.hashPairs n i k ids = .ok (ids', k + n) ∧ ids'.length = ids.length ∧
      ids'.take (k + n) = ids.take k ++ HashTree.pairUp (fun a b ↦ H.hash (a, b)) ((ids.drop i).take (2 * n)) ∧
      ids'.drop (i + 2 * n) = ids.drop (i + 2 * n) := by
  induction n generalizing i k ids with
  | zero => exact ⟨ids, rfl, rfl, by simp [HashTree.pairUp], rfl⟩
  | succ n ih =>
    have h₀ : i < ids.length := by omega
    have h₁ : i + 1 < ids.length := by omega
    have hput : k < ids.length := by omega
    have hdrop : (ids.drop i).take (2 * (n + 1)) = ids[i] :: ids[i + 1] :: (ids.drop (i + 2)).take (2 * n) := by
      rw [List.drop_eq_getElem_cons h₀, List.drop_eq_getElem_cons h₁]
      rfl
    obtain ⟨ids', hids', hlen, htake, hrest⟩ :=
      ih (i + 2) (k + 1) (ids.set k (H.hash (ids[i], ids[i + 1]))) (by omega) (by rw [List.length_set]; omega)
    refine ⟨ids', ?_, ?_, ?_, ?_⟩
    · rw [hashPairs, at?_eq_ok h₀, Except.ok_bind, at?_eq_ok h₁, Except.ok_bind, put_eq_ok hput, Except.ok_bind, hids',
        Nat.add_assoc, Nat.add_comm 1]
    · rw [hlen, List.length_set]
    · rw [← Nat.add_assoc, Nat.add_right_comm, htake, take_succ_set _ hput, hdrop, HashTree.pairUp,
        List.drop_set_of_lt (by omega), List.append_assoc, List.singleton_append]
    · rw [Nat.mul_succ, Nat.add_comm (2 * n), ← Nat.add_assoc, hrest, List.drop_set_of_lt (by omega)]

/-- **One level** joins neighbours, and carries the last digest of an odd number. -/
theorem hashLevel_eq {ids : List Digest} {n : ℕ} (hn : n ≤ ids.length) :
    ∃ ids', H.hashLevel ids n = .ok (ids', (n + 1) / 2) ∧ ids'.length = ids.length ∧
      ids'.take ((n + 1) / 2) = HashTree.pairUp (fun a b ↦ H.hash (a, b)) (ids.take n) := by
  obtain ⟨ids', hids', hlen, htake, hrest⟩ := H.hashPairs_eq ((n - n % 2) / 2) 0 0 ids le_rfl (by omega)
  rw [List.take_zero, List.nil_append, List.drop_zero] at htake
  rw [Nat.zero_add] at hids' hrest htake
  unfold hashLevel
  dsimp only
  rw [hids', Except.ok_bind]
  dsimp only
  rcases Nat.mod_two_eq_zero_or_one n with heven | hodd
  · rw [if_neg (by omega)]
    have hhalf : (n - n % 2) / 2 = (n + 1) / 2 := by omega
    have htwice : 2 * ((n + 1) / 2) = n := by omega
    rw [hhalf] at htake ⊢
    rw [htwice] at htake
    exact ⟨ids', rfl, hlen, htake⟩
  · rw [if_pos hodd]
    have hlast : n - n % 2 < ids.length := by omega
    have hhalf : (n - n % 2) / 2 + 1 = (n + 1) / 2 := by omega
    have htwice : 2 * ((n - n % 2) / 2) = n - n % 2 := by omega
    have hlast' : n - n % 2 < ids'.length := by omega
    have hcarried : ids'[n - n % 2] = ids[n - n % 2] := by
      have h := congrArg (·[0]?) hrest
      simpa [htwice, List.getElem?_drop, List.getElem?_eq_getElem hlast, List.getElem?_eq_getElem hlast'] using h
    rw [at?_eq_ok hlast', Except.ok_bind, put_eq_ok (by omega), Except.ok_bind, hhalf, hcarried]
    refine ⟨_, rfl, by rw [List.length_set, hlen], ?_⟩
    have hsplit : ids.take n = ids.take (n - n % 2) ++ [ids[n - n % 2]] := by
      rw [← List.take_succ_eq_append_getElem hlast]
      congr 1
      omega
    rw [← hhalf, take_succ_set _ (by omega), htake, htwice, hsplit,
      HashTree.pairUp_append _ (by rw [List.length_take]; omega)]
    rfl

/-! ### The whole loop -/

/-- The first `n` digests are those of trees with the given leaves. -/
def Covers (leaves : List Digest) (s : List Digest × ℕ) : Prop :=
  0 < s.2 ∧ s.2 ≤ s.1.length ∧
    ∃ ts : List (HashTree Digest), s.1.take s.2 = ts.map (HashTree.digest H.hash) ∧ ts.flatMap HashTree.leaves = leaves

theorem covers_init {leaves : List Digest} (h : leaves ≠ []) : H.Covers leaves (leaves, leaves.length) := by
  refine ⟨List.length_pos_iff.2 h, le_rfl, leaves.map HashTree.leaf, ?_, HashTree.flatMap_leaves_map_leaf leaves⟩
  rw [List.take_length, List.map_map]
  exact (List.map_id leaves).symm

/-- A round with more than one digest halves their number and keeps the leaves. -/
theorem merkleRound_of_one_lt {leaves : List Digest} {s : List Digest × ℕ} (hs : H.Covers leaves s) (h : 1 < s.2) :
    ∃ s', H.merkleRound s = some (.ok (.inl s')) ∧ H.Covers leaves s' ∧ s'.2 < s.2 := by
  obtain ⟨hpos, hle, ts, hts, hleaves⟩ := hs
  obtain ⟨ids', hids', hlen, htake⟩ := H.hashLevel_eq hle
  refine ⟨(ids', (s.2 + 1) / 2), ?_, ⟨?_, ?_, HashTree.pairUp HashTree.node ts, ?_, ?_⟩, ?_⟩
  · rw [merkleRound, if_pos h, hids']
    rfl
  · dsimp only
    omega
  · dsimp only
    omega
  · rw [HashTree.map_digest_pairUp, ← hts]
    exact htake
  · rw [HashTree.flatMap_leaves_pairUp, hleaves]
  · dsimp only
    omega

/-- The last round returns the digest of one tree with all the leaves. -/
theorem merkleRound_of_le_one {leaves : List Digest} {s : List Digest × ℕ} (hs : H.Covers leaves s) (h : ¬1 < s.2) :
    ∃ t : HashTree Digest, t.leaves = leaves ∧ H.merkleRound s = some (.ok (.inr (t.digest H.hash))) := by
  obtain ⟨hpos, hle, ts, hts, hleaves⟩ := hs
  have hone : s.2 = 1 := by omega
  have hlen : 0 < s.1.length := by omega
  have hfirst : s.1.take 1 = [s.1[0]] := by
    rw [List.take_succ_eq_append_getElem hlen, List.take_zero, List.nil_append]
  rw [hone, hfirst] at hts
  obtain ⟨t, ts', rfl⟩ : ∃ t ts', ts = t :: ts' := by
    cases ts with
    | nil => cases hts
    | cons t ts' => exact ⟨t, ts', rfl⟩
  obtain ⟨hdigest, hnil⟩ := List.cons.inj hts
  obtain rfl : ts' = [] := by simpa using hnil.symm
  refine ⟨t, ?_, ?_⟩
  · rw [← hleaves, List.flatMap_singleton]
  · rw [merkleRound, if_neg h, at?_eq_ok hlen, hdigest]
    rfl

/-- **The root of a block with transactions** is the checksum of the digest of a tree over them. -/
theorem computeMerkleRoot_eq {transactions : List Tx} (h : transactions ≠ []) :
    ∃ t : HashTree Digest, t.leaves = transactions.map H.merkleDigest ∧
      H.computeMerkleRoot transactions = some (.ok (H.checksum (t.digest H.hash))) := by
  have hne : transactions.map H.merkleDigest ≠ [] := fun hnil ↦ h (List.map_eq_nil_iff.1 hnil)
  have hround (s : List Digest × ℕ) (hs : H.Covers (transactions.map H.merkleDigest) s) :
      (∃ s', H.merkleRound s = some (.ok (.inl s')) ∧ H.Covers (transactions.map H.merkleDigest) s' ∧ s'.2 < s.2) ∨
        ∃ d, H.merkleRound s = some (.ok (.inr d)) ∧
          ∃ t : HashTree Digest, t.leaves = transactions.map H.merkleDigest ∧ d = t.digest H.hash := by
    by_cases hmore : 1 < s.2
    · exact Or.inl (H.merkleRound_of_one_lt hs hmore)
    · obtain ⟨t, ht, hend⟩ := H.merkleRound_of_le_one hs hmore
      exact Or.inr ⟨_, hend, t, ht, rfl⟩
  obtain ⟨d, hiter, t, ht, rfl⟩ := Loop.exists_iterate_eq_ok _ Prod.snd _ hround (H.covers_init hne) (Nat.lt_succ_self _)
  refine ⟨t, ht, ?_⟩
  unfold computeMerkleRoot
  dsimp only
  rw [hiter]
  rfl

/-- What a block with a fresh root returns: the zero checksum, or the checksum of a tree over the transactions. -/
theorem calculateMerkleRoot_eq {b : SignedBlock Tx Checksum} (hb : H.Fresh b) :
    ∃ root b', H.calculateMerkleRoot b = some (.ok (root, b')) ∧
      (b.transactions = [] ∧ root = H.emptyChecksum ∨
        ∃ t : HashTree Digest, t.leaves = b.transactions.map H.merkleDigest ∧ root = H.checksum (t.digest H.hash)) := by
  unfold calculateMerkleRoot
  by_cases hnil : b.transactions = []
  · rw [if_pos (by rw [hnil]; rfl)]
    exact ⟨_, _, rfl, Or.inl ⟨hnil, rfl⟩⟩
  rw [if_neg fun h ↦ hnil (List.length_eq_zero_iff.1 h)]
  obtain ⟨t, ht, hroot⟩ := H.computeMerkleRoot_eq hnil
  by_cases hkept : H.firstWord b.calculatedMerkleRoot = 0
  · rw [if_pos hkept, hroot]
    exact ⟨_, _, rfl, Or.inr ⟨t, ht, rfl⟩⟩
  · rw [if_neg hkept]
    have hcomputed := hb.resolve_left hkept
    rw [hroot] at hcomputed
    exact ⟨_, _, rfl, Or.inr ⟨t, ht, (Except.ok.inj (Option.some.inj hcomputed)).symm⟩⟩

/-- Hash functions without collisions: both are injective, no digest of a transaction is the hash of a pair, and no
checksum is zero. -/
structure CollisionFree : Prop where
  hash_injective : Function.Injective H.hash
  checksum_injective : Function.Injective H.checksum
  merkleDigest_ne_hash : ∀ tx p, H.merkleDigest tx ≠ H.hash p
  checksum_ne_empty : ∀ d, H.checksum d ≠ H.emptyChecksum

/-- **Equal roots, equal transactions.** The root of a block is always computed, and two blocks with fresh roots that agree
hold the same number of transactions, with equal digests in the same order. -/
theorem merkle_root_commits (hH : H.CollisionFree) (b c : SignedBlock Tx Checksum) (hb : H.Fresh b) (hc : H.Fresh c) :
    ∃ rb b' rc c', H.calculateMerkleRoot b = some (.ok (rb, b')) ∧ H.calculateMerkleRoot c = some (.ok (rc, c')) ∧
      (rb = rc → b.transactions.length = c.transactions.length ∧
        b.transactions.map H.merkleDigest = c.transactions.map H.merkleDigest) := by
  obtain ⟨rb, b', hrb, hbcase⟩ := H.calculateMerkleRoot_eq hb
  obtain ⟨rc, c', hrc, hccase⟩ := H.calculateMerkleRoot_eq hc
  refine ⟨rb, b', rc, c', hrb, hrc, fun heq ↦ ?_⟩
  have hleaf {txs : List Tx} : ∀ a ∈ txs.map H.merkleDigest, ∀ p, a ≠ H.hash p := by
    intro a ha p
    obtain ⟨tx, -, rfl⟩ := List.mem_map.1 ha
    exact hH.merkleDigest_ne_hash tx p
  have hdigests : b.transactions.map H.merkleDigest = c.transactions.map H.merkleDigest := by
    rcases hbcase with ⟨hbnil, hrb'⟩ | ⟨t, ht, hrb'⟩ <;> rcases hccase with ⟨hcnil, hrc'⟩ | ⟨u, hu, hrc'⟩
    · rw [hbnil, hcnil]
    · exact absurd (hrc'.symm.trans (heq.symm.trans hrb')) (hH.checksum_ne_empty _)
    · exact absurd (hrb'.symm.trans (heq.trans hrc')) (hH.checksum_ne_empty _)
    · have hdigest := hH.checksum_injective (hrb'.symm.trans (heq.trans hrc'))
      rw [← ht, ← hu]
      exact HashTree.leaves_eq_of_digest_eq hH.hash_injective (ht ▸ hleaf) (hu ▸ hleaf) hdigest
  refine ⟨?_, hdigests⟩
  simpa using congrArg List.length hdigests

/-- Hash functions on numbers: the digest of a transaction is even, the hash of a pair is odd. -/
def ofNumbers : BlockHashes ℕ ℕ (Option ℕ) where
  merkleDigest tx := 2 * tx
  hash p := 2 * Nat.pair p.1 p.2 + 1
  checksum := some
  emptyChecksum := none
  firstWord c := if c = none then 0 else 1

theorem ofNumbers_collisionFree : ofNumbers.CollisionFree where
  hash_injective := by
    intro p q h
    have hpair : Nat.pair p.1 p.2 = Nat.pair q.1 q.2 := by
      have h' : 2 * Nat.pair p.1 p.2 + 1 = 2 * Nat.pair q.1 q.2 + 1 := h
      omega
    exact Prod.ext (Nat.pair_eq_pair.1 hpair).1 (Nat.pair_eq_pair.1 hpair).2
  checksum_injective := Option.some_injective ℕ
  merkleDigest_ne_hash tx p h := by
    have h' : 2 * tx = 2 * Nat.pair p.1 p.2 + 1 := h
    omega
  checksum_ne_empty d h := by cases h

/-- Three transactions and four, the last two of them equal, have different roots. -/
theorem merkle_root_commits_three_four :
    ∃ rb b' rc c', ofNumbers.calculateMerkleRoot ⟨[1, 2, 3], none⟩ = some (.ok (rb, b')) ∧
      ofNumbers.calculateMerkleRoot ⟨[1, 2, 3, 3], none⟩ = some (.ok (rc, c')) ∧ rb ≠ rc := by
  obtain ⟨rb, b', rc, c', hb, hc, h⟩ := ofNumbers.merkle_root_commits ofNumbers_collisionFree ⟨[1, 2, 3], none⟩
    ⟨[1, 2, 3, 3], none⟩ (Or.inl rfl) (Or.inl rfl)
  refine ⟨rb, b', rc, c', hb, hc, fun heq ↦ ?_⟩
  exact absurd (h heq).1 (by decide)

end BlockHashes

end Playchain
