import Playchain.Lib.Loop

/-!
# Blocks and their merkle root

`signed_block::calculate_merkle_root`: the digests of the transactions are hashed in pairs, in place in one vector, until
one is left; the last one of an odd number is carried up without being hashed. The root is the checksum of the digest that
is left, and the zero checksum for a block without transactions. It is kept in the block, and what is kept is used
when its first word is not zero.

Every access to the vector is checked in the model, with `outOfRange` if it fails. The counters of the loops are natural
numbers; the source's are 32-bit ones, which is the same for the number of transactions a block can hold.
-/

namespace Playchain

/-- What the root is made with: the digest of a transaction, the hash of a pair of digests, and the checksums, with the
one that is all zeros and the first word of each. -/
structure BlockHashes (Tx Digest Checksum : Type*) where
  merkleDigest : Tx → Digest
  hash : Digest × Digest → Digest
  checksum : Digest → Checksum
  emptyChecksum : Checksum
  firstWord : Checksum → UInt32

/-- An access to a vector beyond its end. -/
inductive VectorError where
  | outOfRange
  deriving DecidableEq, Repr

namespace BlockHashes

/-- The part of `signed_block` the root is computed from. -/
structure SignedBlock (Tx Checksum : Type*) where
  transactions : List Tx
  calculatedMerkleRoot : Checksum

variable {Tx Digest Checksum : Type*} (H : BlockHashes Tx Digest Checksum)

/-- `ids[i]`. -/
def at? (ids : List Digest) (i : ℕ) : Except VectorError Digest :=
  match ids[i]? with
  | some d => .ok d
  | none => .error .outOfRange

/-- `ids[k] = d`. -/
def put (ids : List Digest) (k : ℕ) (d : Digest) : Except VectorError (List Digest) :=
  if k < ids.length then .ok (ids.set k d) else .error .outOfRange

/-- The loop over the pairs of one level, for the given number of pairs: `i` is the next pair's place and `k` where its
hash goes. -/
def hashPairs : ℕ → ℕ → ℕ → List Digest → Except VectorError (List Digest × ℕ)
  | 0, _, k, ids => .ok (ids, k)
  | n + 1, i, k, ids => do
    let a ← at? ids i
    let b ← at? ids (i + 1)
    let ids ← put ids k (H.hash (a, b))
    hashPairs n (i + 2) (k + 1) ids

/-- One level: the pairs, and the last digest of an odd number. -/
def hashLevel (ids : List Digest) (currentNumberOfHashes : ℕ) : Except VectorError (List Digest × ℕ) := do
  let iMax := currentNumberOfHashes - currentNumberOfHashes % 2
  let (ids, k) ← H.hashPairs (iMax / 2) 0 0 ids
  if currentNumberOfHashes % 2 = 1 then
    let d ← at? ids iMax
    let ids ← put ids k d
    return (ids, k + 1)
  return (ids, k)

/-- One round of `while( current_number_of_hashes > 1 )`; the loop ends with the first digest. -/
def merkleRound (s : List Digest × ℕ) : Option (Except VectorError ((List Digest × ℕ) ⊕ Digest)) :=
  some (if 1 < s.2 then (H.hashLevel s.1 s.2).map Sum.inl else (at? s.1 0).map Sum.inr)

/-- The root that is computed, without what is kept. -/
def computeMerkleRoot (transactions : List Tx) : Option (Except VectorError Checksum) :=
  let ids := transactions.map H.merkleDigest
  (Loop.iterate H.merkleRound (ids.length + 1) (ids, ids.length)).map (·.map H.checksum)

/-- The root, and the block with it kept. -/
def calculateMerkleRoot (b : SignedBlock Tx Checksum) :
    Option (Except VectorError (Checksum × SignedBlock Tx Checksum)) :=
  if b.transactions.length = 0 then some (.ok (H.emptyChecksum, b))
  else if H.firstWord b.calculatedMerkleRoot = 0 then
    (H.computeMerkleRoot b.transactions).map (·.map fun root ↦ (root, { b with calculatedMerkleRoot := root }))
  else some (.ok (b.calculatedMerkleRoot, b))

/-- The block's root is computed for its present transactions: nothing is kept, or what is kept was computed for them. -/
def Fresh (b : SignedBlock Tx Checksum) : Prop :=
  H.firstWord b.calculatedMerkleRoot = 0 ∨ H.computeMerkleRoot b.transactions = some (.ok b.calculatedMerkleRoot)

end BlockHashes

end Playchain
