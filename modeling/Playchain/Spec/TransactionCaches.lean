import Playchain.Lib.Control
import Playchain.Protocol.Transaction

/-!
# What a precomputable transaction remembers

The buffers of a transaction hold what it answered last (`Remembers`): the id of the body it had when it was last asked for
its id, and the keys of the body and the signatures it had when it was last asked for its keys. Edits leave the buffers
alone, and a precomputable transaction that is made of the transaction trusts them. So its answers are those of a fresh
computation when nothing has been edited since these questions (`precomputed_agrees`), and may be stale otherwise
(`precomputed_stale`).
-/

namespace Playchain

/-- The body when the id was last asked for, and what the keys were last found for. -/
structure LastQueries (Op Ext Sig ChainId : Type*) where
  atId : Option (TransactionBody Op Ext) := none
  atKeys : Option (ChainId × TransactionBody Op Ext × List Sig) := none

namespace TransactionCrypto

variable {Op Ext Sig Key ChainId Id : Type*} [LinearOrder Key] (C : TransactionCrypto Op Ext Sig Key ChainId Id)

/-- What a step asks for; keys that are not found are not remembered. -/
def noteQuery (t : SignedTransaction Op Ext Sig Key Id) (q : LastQueries Op Ext Sig ChainId) :
    TransactionStep Op Ext Sig ChainId → LastQueries Op Ext Sig ChainId
  | .id => { q with atId := some t.body }
  | .getSignatureKeys chainId =>
    match C.signatureKeys chainId t.body t.signatures ∅ with
    | .ok _ => { q with atKeys := some (chainId, t.body, t.signatures) }
    | .error _ => q
  | _ => q

/-- The last queries of a run that goes on from a transaction. -/
def lastQueries (t : SignedTransaction Op Ext Sig Key Id) (q : LastQueries Op Ext Sig ChainId) :
    List (TransactionStep Op Ext Sig ChainId) → LastQueries Op Ext Sig ChainId
  | [] => q
  | s :: steps => lastQueries (C.step t s) (C.noteQuery t q s) steps

/-- The buffers hold what was answered last. -/
structure Remembers (t : SignedTransaction Op Ext Sig Key Id) (q : LastQueries Op Ext Sig ChainId) : Prop where
  id_none : q.atId = none → t.txIdBuffer = C.zeroId
  id_some : ∀ body, q.atId = some body → t.txIdBuffer = C.digestId body
  keys_none : q.atKeys = none → t.signees = ∅
  keys_some : ∀ chainId body signatures, q.atKeys = some (chainId, body, signatures) →
    C.signatureKeys chainId body signatures ∅ = .ok t.signees

variable {C} {t : SignedTransaction Op Ext Sig Key Id} {q : LastQueries Op Ext Sig ChainId}

/-- An edit leaves the buffers alone. -/
theorem Remembers.edit {t' : SignedTransaction Op Ext Sig Key Id} (h : C.Remembers t q)
    (hid : t'.txIdBuffer = t.txIdBuffer) (hkeys : t'.signees = t.signees) : C.Remembers t' q where
  id_none hq := hid.trans (h.id_none hq)
  id_some body hq := hid.trans (h.id_some body hq)
  keys_none hq := hkeys.trans (h.keys_none hq)
  keys_some chainId body signatures hq := by
    rw [hkeys]
    exact h.keys_some chainId body signatures hq

/-- **One step** keeps track of the last queries. -/
theorem Remembers.step (h : C.Remembers t q) (s : TransactionStep Op Ext Sig ChainId) :
    C.Remembers (C.step t s) (C.noteQuery t q s) := by
  cases s with
  | setOperations operations => exact h.edit rfl rfl
  | setExpiration expiration => exact h.edit rfl rfl
  | setReferenceBlock num pre => exact h.edit rfl rfl
  | setExtensions extensions => exact h.edit rfl rfl
  | setSignatures signatures => exact h.edit rfl rfl
  | id =>
    refine ⟨fun hq ↦ ?_, fun body hq ↦ ?_, h.keys_none, h.keys_some⟩
    · cases hq
    · obtain rfl := Option.some.inj hq
      rfl
  | getSignatureKeys chainId =>
    unfold TransactionCrypto.step getSignatureKeys noteQuery
    dsimp only
    rcases hkeys : C.signatureKeys chainId t.body t.signatures ∅ with e | keys
    · exact h
    · refine ⟨h.id_none, h.id_some, fun hq ↦ ?_, fun chainId' body signatures hq ↦ ?_⟩
      · cases hq
      · obtain ⟨rfl, rfl, rfl⟩ : chainId = chainId' ∧ t.body = body ∧ t.signatures = signatures := by
          simpa using Option.some.inj hq
        exact hkeys

theorem Remembers.foldl (h : C.Remembers t q) (steps : List (TransactionStep Op Ext Sig ChainId)) :
    C.Remembers (steps.foldl C.step t) (C.lastQueries t q steps) := by
  induction steps generalizing t q with
  | nil => exact h
  | cons s steps ih => exact ih (h.step s)

theorem remembers_newTransaction (body : TransactionBody Op Ext) :
    C.Remembers (C.newTransaction body : SignedTransaction Op Ext Sig Key Id) {} where
  id_none _ := rfl
  id_some _ hq := by cases hq
  keys_none _ := rfl
  keys_some _ _ _ hq := by cases hq

/-! ### Fresh answers -/

/-- The answers of a precomputable transaction that is made of the transaction are those of a fresh computation. -/
def AnswersFreshly (C : TransactionCrypto Op Ext Sig Key ChainId Id) (chainId : ChainId)
    (t : SignedTransaction Op Ext Sig Key Id) : Prop :=
  C.precomputedId (precomputable t) = C.digestId t.body ∧
  C.precomputedPackedSize (precomputable t) = C.packSize t.body ∧
  C.precomputedValidate (precomputable t) = C.validate t.body ∧
  C.precomputedSignatureKeys chainId (precomputable t) = C.signatureKeys chainId t.body t.signatures ∅

/-- The fields are those for which the id and the keys were asked last. -/
def UpToDate (chainId : ChainId) (t : SignedTransaction Op Ext Sig Key Id) (q : LastQueries Op Ext Sig ChainId) : Prop :=
  (∀ body, q.atId = some body → body = t.body) ∧
  ∀ chainId' body signatures, q.atKeys = some (chainId', body, signatures) →
    chainId' = chainId ∧ body = t.body ∧ signatures = t.signatures

/-- **Nothing is stale** that has not been edited since it was asked for. -/
theorem Remembers.answersFreshly {chainId : ChainId} (h : C.Remembers t q) (hq : UpToDate chainId t q) :
    AnswersFreshly C chainId t := by
  refine ⟨?_, rfl, rfl, ?_⟩
  · unfold precomputedId
    by_cases hempty : C.firstWord (precomputable t).txIdBuffer = 0
    · rw [if_pos hempty]
      rfl
    · rw [if_neg hempty]
      rcases hatId : q.atId with _ | body
      · have hzero : (precomputable t).txIdBuffer = C.zeroId := h.id_none hatId
        rw [hzero, C.firstWord_zeroId] at hempty
        exact absurd rfl hempty
      · rw [← hq.1 body hatId]
        exact h.id_some body hatId
  · unfold precomputedSignatureKeys
    by_cases hempty : (precomputable t).signees.isEmpty = true
    · rw [if_pos hempty]
      rfl
    · rw [if_neg hempty]
      rcases hatKeys : q.atKeys with _ | ⟨chainId', body, signatures⟩
      · have hnone : (precomputable t).signees = ∅ := h.keys_none hatKeys
        exact absurd (FlatMap.isEmpty_iff.2 hnone) hempty
      · obtain ⟨rfl, rfl, rfl⟩ := hq.2 chainId' body signatures hatKeys
        exact (h.keys_some _ _ _ hatKeys).symm

/-- **Cached data is fresh** in every run at whose end the fields are those for which the id and the keys, if ever, were
asked last. -/
theorem precomputed_agrees (C : TransactionCrypto Op Ext Sig Key ChainId Id) (chainId : ChainId)
    (body : TransactionBody Op Ext) (steps : List (TransactionStep Op Ext Sig ChainId))
    (h : UpToDate chainId (C.run body steps) (C.lastQueries (C.newTransaction body) {} steps)) :
    AnswersFreshly C chainId (C.run body steps) :=
  ((remembers_newTransaction body).foldl steps).answersFreshly h

/-- Ids that show the expiration; a signature is made by the key with its number. -/
def expirationCrypto : TransactionCrypto ℕ Unit ℕ ℕ Unit ℕ where
  digestId body := body.expiration.toNat + 1
  firstWord i := i.toUInt32
  zeroId := 0
  firstWord_zeroId := rfl
  packSize body := 20 + body.operations.length.toUInt64
  validOperation op := decide (op ≠ 0)
  publicKey _ _ sig := some sig

/-- A transaction with one operation. -/
def oneOperation : TransactionBody ℕ Unit where
  refBlockNum := 0
  refBlockPrefix := 0
  expiration := 10
  operations := [1]
  extensions := []

/-- Edited, asked and signed, and asked again for its keys. -/
theorem precomputed_agrees_signed :
    AnswersFreshly expirationCrypto () (expirationCrypto.run oneOperation
      [.id, .setExpiration 20, .id, .setSignatures [7], .getSignatureKeys ()]) := by
  refine precomputed_agrees expirationCrypto () oneOperation _ ⟨fun body h ↦ ?_, fun chainId body signatures h ↦ ?_⟩
  · obtain rfl := Option.some.inj h
    rfl
  · obtain ⟨-, h'⟩ := Prod.mk.inj (Option.some.inj h)
    obtain ⟨rfl, rfl⟩ := Prod.mk.inj h'
    exact ⟨rfl, rfl, rfl⟩

/-- **A stale id.** The expiration is changed after the id was asked for, and the transaction that is made of this one
still has the old id. -/
theorem precomputed_stale :
    ¬∀ (steps : List (TransactionStep ℕ Unit ℕ Unit)),
      AnswersFreshly expirationCrypto () (expirationCrypto.run oneOperation steps) := by
  intro h
  have hid := (h [.id, .setExpiration 20]).1
  revert hid
  decide

end TransactionCrypto

end Playchain
