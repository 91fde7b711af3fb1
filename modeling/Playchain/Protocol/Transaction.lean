import Playchain.Lib.FlatMap

/-!
# Transactions and what they remember

`transaction`, `signed_transaction` and `precomputable_transaction`, with the mutable buffers that queries fill:

* `id` and `get_signature_keys` of a signed transaction compute their result anew and put it into a buffer;
* those of a precomputable transaction return what is in the buffer, if there is something in it.

A precomputable (or processed) transaction that is constructed from a signed one takes the buffers with it. Serialization,
hashes, the recovery of keys and the validation of operations are given (`TransactionCrypto`).
-/

namespace Playchain

/-- What the digest of a transaction covers. -/
structure TransactionBody (Op Ext : Type*) where
  refBlockNum : UInt16
  refBlockPrefix : UInt32
  expiration : UInt32
  operations : List Op
  extensions : List Ext

/-- What is computed from transactions: ids (the first bytes of the digest) with their first words, the size, the
validation of an operation, and the key that made a signature of a body, if it is the signature of any key. -/
structure TransactionCrypto (Op Ext Sig Key ChainId Id : Type*) where
  digestId : TransactionBody Op Ext → Id
  firstWord : Id → UInt32
  zeroId : Id
  firstWord_zeroId : firstWord zeroId = 0
  packSize : TransactionBody Op Ext → UInt64
  validOperation : Op → Bool
  publicKey : ChainId → TransactionBody Op Ext → Sig → Option Key

inductive TransactionError where
  | noOperation
  | invalidOperation
  | badSignature
  | duplicateSignature
  deriving DecidableEq, Repr

/-- `signed_transaction` -/
structure SignedTransaction (Op Ext Sig Key Id : Type*) [LinearOrder Key] where
  body : TransactionBody Op Ext
  signatures : List Sig
  txIdBuffer : Id
  signees : FlatSet Key

/-- `precomputable_transaction` -/
structure PrecomputableTransaction (Op Ext Sig Key Id : Type*) [LinearOrder Key] extends
    SignedTransaction Op Ext Sig Key Id where
  validated : Bool
  packedSize : UInt64

namespace TransactionCrypto

variable {Op Ext Sig Key ChainId Id : Type*} [LinearOrder Key] (C : TransactionCrypto Op Ext Sig Key ChainId Id)

/-- `transaction::validate` -/
def validate (body : TransactionBody Op Ext) : Except TransactionError Unit :=
  if body.operations.length = 0 then .error .noOperation
  else if body.operations.all C.validOperation then .ok ()
  else .error .invalidOperation

/-- The loop of `signed_transaction::get_signature_keys` over the signatures. -/
def signatureKeys (chainId : ChainId) (body : TransactionBody Op Ext) :
    List Sig → FlatSet Key → Except TransactionError (FlatSet Key)
  | [], result => .ok result
  | sig :: signatures, result =>
    match C.publicKey chainId body sig with
    | none => .error .badSignature
    | some key =>
      if result.contains key then .error .duplicateSignature
      else signatureKeys chainId body signatures (result.add key)

/-! ### Signed transactions -/

/-- `signed_transaction()` -/
def newTransaction (body : TransactionBody Op Ext) : SignedTransaction Op Ext Sig Key Id where
  body := body
  signatures := []
  txIdBuffer := C.zeroId
  signees := ∅

/-- `transaction::id` -/
def id (t : SignedTransaction Op Ext Sig Key Id) : Id × SignedTransaction Op Ext Sig Key Id :=
  (C.digestId t.body, { t with txIdBuffer := C.digestId t.body })

/-- `signed_transaction::get_signature_keys`; nothing is stored when it throws. -/
def getSignatureKeys (chainId : ChainId) (t : SignedTransaction Op Ext Sig Key Id) :
    Except TransactionError (FlatSet Key) × SignedTransaction Op Ext Sig Key Id :=
  match C.signatureKeys chainId t.body t.signatures ∅ with
  | .ok keys => (.ok keys, { t with signees := keys })
  | .error e => (.error e, t)

/-! ### Precomputable transactions -/

/-- `precomputable_transaction( const signed_transaction& )` -/
def precomputable (t : SignedTransaction Op Ext Sig Key Id) : PrecomputableTransaction Op Ext Sig Key Id :=
  { t with
    validated := false
    packedSize := 0 }

/-- `precomputable_transaction::id` -/
def precomputedId (p : PrecomputableTransaction Op Ext Sig Key Id) : Id :=
  if C.firstWord p.txIdBuffer = 0 then C.digestId p.body else p.txIdBuffer

/-- `precomputable_transaction::validate` -/
def precomputedValidate (p : PrecomputableTransaction Op Ext Sig Key Id) : Except TransactionError Unit :=
  if p.validated then .ok () else C.validate p.body

/-- `precomputable_transaction::get_packed_size` -/
def precomputedPackedSize (p : PrecomputableTransaction Op Ext Sig Key Id) : UInt64 :=
  if p.packedSize = 0 then C.packSize p.body else p.packedSize

/-- `precomputable_transaction::get_signature_keys` -/
def precomputedSignatureKeys (chainId : ChainId) (p : PrecomputableTransaction Op Ext Sig Key Id) :
    Except TransactionError (FlatSet Key) :=
  if p.signees.isEmpty then C.signatureKeys chainId p.body p.signatures ∅ else .ok p.signees

end TransactionCrypto

/-! ### Runs -/

/-- What is done to a signed transaction: its fields are set (operations, expiration, reference block, extensions and
signatures in any way), and it is asked for its id or its keys. -/
inductive TransactionStep (Op Ext Sig ChainId : Type*) where
  | setOperations (operations : List Op)
  | setExpiration (expiration : UInt32)
  | setReferenceBlock (refBlockNum : UInt16) (refBlockPrefix : UInt32)
  | setExtensions (extensions : List Ext)
  | setSignatures (signatures : List Sig)
  | id
  | getSignatureKeys (chainId : ChainId)

namespace TransactionCrypto

variable {Op Ext Sig Key ChainId Id : Type*} [LinearOrder Key] (C : TransactionCrypto Op Ext Sig Key ChainId Id)

def step (t : SignedTransaction Op Ext Sig Key Id) :
    TransactionStep Op Ext Sig ChainId → SignedTransaction Op Ext Sig Key Id
  | .setOperations operations => { t with body := { t.body with operations := operations } }
  | .setExpiration expiration => { t with body := { t.body with expiration := expiration } }
  | .setReferenceBlock num pre => { t with body := { t.body with refBlockNum := num, refBlockPrefix := pre } }
  | .setExtensions extensions => { t with body := { t.body with extensions := extensions } }
  | .setSignatures signatures => { t with signatures := signatures }
  | .id => (C.id t).2
  | .getSignatureKeys chainId => (C.getSignatureKeys chainId t).2

/-- A run, from a new transaction on. -/
def run (body : TransactionBody Op Ext) (steps : List (TransactionStep Op Ext Sig ChainId)) :
    SignedTransaction Op Ext Sig Key Id :=
  steps.foldl C.step (C.newTransaction body)

end TransactionCrypto

end Playchain
