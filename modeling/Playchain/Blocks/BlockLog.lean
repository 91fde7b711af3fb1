import Playchain.Blocks.Replay
import Playchain.Lib.ByteFile

/-!
# The block log

`block_database`: a file of packed blocks, which only grows, and an index with an entry of 32 bytes for
each block number, which says where the block is. The entry of a removed block has the size zero, as have
the gaps of the index.

Both files are streams that throw exceptions. **A read that comes up short leaves its stream failed**: every
later call on it throws, until the log is opened again. The methods that fetch blocks catch the exception,
and nobody clears the stream. `last_id` cuts the index behind the entry it returns.
-/

namespace Playchain.BlockLog

open ByteFile Replay

/-- Blocks with their ids, and `fc::raw::pack` and `unpack`. -/
class BlockFormat (B : Type) where
  id : B → BlockId
  pack : B → List UInt8
  unpack : List UInt8 → Option B

/-- `block_id_type()` -/
def noId : BlockId := Vector.replicate 20 0

/-- `index_entry` -/
structure IndexEntry where
  blockPos : ℕ := 0
  blockSize : ℕ := 0
  blockId : BlockId := noId
  deriving DecidableEq

/-- `sizeof( index_entry )` -/
def entrySize : ℕ := 32

namespace IndexEntry

/-- The bytes of an entry: eight for the position, four for the size, and the id. -/
def toBytes (e : IndexEntry) : List UInt8 := leBytes 8 e.blockPos ++ (leBytes 4 e.blockSize ++ e.blockId.toList)

/-- The entry of bytes. -/
def ofBytes (l : List UInt8) : IndexEntry where
  blockPos := ofLeBytes (l.take 8)
  blockSize := ofLeBytes ((l.drop 8).take 4)
  blockId := Vector.ofFn fun i ↦ l.getD (12 + i) 0

end IndexEntry

/-- What a stream or a method throws. -/
inductive LogError where
  | ioFailure
  | keyNotFound
  | unpack
  | assertion
  deriving DecidableEq

/-- A file stream, with its `failbit`. -/
structure Stream where
  bytes : List UInt8 := []
  failed : Bool := false
  deriving DecidableEq

/-- `block_database` -/
structure BlockDatabase where
  /-- `_block_num_to_pos` -/
  index : Stream := {}
  /-- `_blocks` -/
  blocks : Stream := {}
  deriving DecidableEq

/-- A method: what it has done to the files stays when it throws. -/
abbrev LogM (α : Type) := BlockDatabase → Except LogError α × BlockDatabase

namespace LogM

variable {α β : Type}

/-- The method that returns a value. -/
def ret (a : α) : LogM α := fun log ↦ (.ok a, log)

/-- The method that throws. -/
def throw (e : LogError) : LogM α := fun log ↦ (.error e, log)

/-- One method after another. -/
def andThen (x : LogM α) (f : α → LogM β) : LogM β := fun log ↦
  match x log with
  | (.ok a, log') => f a log'
  | (.error e, log') => (.error e, log')

instance : Monad LogM where
  pure := ret
  bind := andThen

/-- `try` with empty `catch` clauses, followed by the return of a default. -/
def orElse (x : LogM α) (a : α) : LogM α := fun log ↦
  match x log with
  | (.ok b, log') => (.ok b, log')
  | (.error _, log') => (.ok a, log')

end LogM

/-! ### The files -/

/-- One of the two files. -/
inductive LogFile where
  | index
  | blocks

namespace BlockDatabase

/-- The stream of a file. -/
def stream (log : BlockDatabase) : LogFile → Stream
  | .index => log.index
  | .blocks => log.blocks

/-- Replace the stream of a file. -/
def setStream (log : BlockDatabase) (s : Stream) : LogFile → BlockDatabase
  | .index => { log with index := s }
  | .blocks => { log with blocks := s }

end BlockDatabase

/-- `seekg( 0, end )` and `tellg()` -/
def tellEnd (file : LogFile) : LogM ℕ := fun log ↦
  if (log.stream file).failed then (.error .ioFailure, log) else (.ok (log.stream file).bytes.length, log)

/-- `seekg` and `read`; to read no bytes always succeeds -/
def read (file : LogFile) (pos len : ℕ) : LogM (List UInt8) := fun log ↦
  if (log.stream file).failed then (.error .ioFailure, log)
  else if len = 0 ∨ pos + len ≤ (log.stream file).bytes.length then (.ok (slice (log.stream file).bytes pos len), log)
  else (.error .ioFailure, log.setStream { log.stream file with failed := true } file)

/-- `seekp` and `write` -/
def write (file : LogFile) (pos : ℕ) (data : List UInt8) : LogM Unit := fun log ↦
  if (log.stream file).failed then (.error .ioFailure, log)
  else (.ok (), log.setStream { log.stream file with bytes := writeAt (log.stream file).bytes pos data } file)

/-- `fc::resize_file` of the index, which does not go through the stream -/
def resizeIndex (size : ℕ) : LogM Unit := fun log ↦
  (.ok (), { log with index := { log.index with bytes := log.index.bytes.take size } })

/-- `seekg` to an entry of the index and `read` -/
def readEntry (num : ℕ) : LogM IndexEntry := do
  return IndexEntry.ofBytes (← read .index (entrySize * num) entrySize)

/-! ### The methods -/

section Methods

variable {B : Type} [BlockFormat B]

/-- `store` -/
def store (id : BlockId) (b : B) : LogM Unit := do
  let id := if id = noId then BlockFormat.id b else id
  -- `seekp` of the index comes first
  let _ ← tellEnd .index
  let pos ← tellEnd .blocks
  let vec := BlockFormat.pack b
  write .blocks pos vec
  write .index (entrySize * id.num) (IndexEntry.toBytes ⟨pos, vec.length, id⟩)

/-- `remove` -/
def remove (id : BlockId) : LogM Unit := do
  let size ← tellEnd .index
  if size ≤ entrySize * id.num then LogM.throw .keyNotFound
  else do
    let e ← readEntry id.num
    if e.blockId = id then write .index (entrySize * id.num) { e with blockSize := 0 }.toBytes
    else return ()

/-- `contains` -/
def contains (id : BlockId) : LogM Bool :=
  if id = noId then return false
  else do
    let size ← tellEnd .index
    if size < entrySize * id.num + entrySize then return false
    else do
      let e ← readEntry id.num
      return e.blockId = id && 0 < e.blockSize

/-- `fc::raw::unpack` -/
def unpack (data : List UInt8) : LogM B :=
  match BlockFormat.unpack data with
  | some b => return b
  | none => LogM.throw .unpack

/-- The block of an entry. -/
def fetchEntry (e : IndexEntry) : LogM (Option B) := do
  let data ← read .blocks e.blockPos e.blockSize
  let result ← unpack data
  if BlockFormat.id result = e.blockId then return some result else LogM.throw .assertion

/-- `fetch_optional` -/
def fetchOptional (id : BlockId) : LogM (Option B) :=
  LogM.orElse (do
    let size ← tellEnd .index
    if size ≤ entrySize * id.num then return none
    else do
      let e ← readEntry id.num
      if e.blockId ≠ id then return none
      else fetchEntry e) none

/-- `fetch_by_number` -/
def fetchByNumber (num : ℕ) : LogM (Option B) :=
  LogM.orElse (do
    let size ← tellEnd .index
    if size ≤ entrySize * num then return none
    else do
      let e ← readEntry num
      fetchEntry e) none

variable (B) in
/-- Whether the block of an entry can be read and has its id. -/
def isReadable (blocksSize : ℕ) (e : IndexEntry) : LogM Bool :=
  if 0 < e.blockSize ∧ e.blockPos + e.blockSize ≤ blocksSize then
    LogM.orElse (do
      let data ← read .blocks e.blockPos e.blockSize
      let block : B ← unpack data
      return BlockFormat.id block = e.blockId) false
  else return false

variable (B) in
/-- The loop of `last_index_entry`, over the entries below a number. -/
def lastIndexEntryLoop (blocksSize : ℕ) : ℕ → LogM (Option IndexEntry)
  | 0 => return none
  | num + 1 => do
    let e ← readEntry num
    let found ← isReadable B blocksSize e
    if found then return some e
    else do
      resizeIndex (entrySize * num)
      lastIndexEntryLoop blocksSize num

variable (B) in
/-- `last_index_entry` -/
def lastIndexEntry : LogM (Option IndexEntry) :=
  LogM.orElse (do
    let size ← tellEnd .index
    if size < entrySize then return none
    else do
      let blocksSize ← tellEnd .blocks
      lastIndexEntryLoop B blocksSize (size / entrySize)) none

variable (B) in
/-- `last_id` -/
def lastId : LogM (Option BlockId) := do
  return (← lastIndexEntry B).map IndexEntry.blockId

end Methods

/-! ### Cutting the files -/

/-- A file that is cut behind a number of bytes. -/
structure Cut where
  file : LogFile
  size : ℕ

/-- `open` of the files that a cut has left. -/
def reopen (log : BlockDatabase) (cut : Cut) : BlockDatabase :=
  match cut.file with
  | .index => ⟨⟨log.index.bytes.take cut.size, false⟩, ⟨log.blocks.bytes, false⟩⟩
  | .blocks => ⟨⟨log.index.bytes, false⟩, ⟨log.blocks.bytes.take cut.size, false⟩⟩

end Playchain.BlockLog
