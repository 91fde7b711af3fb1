import Mathlib.Data.List.Basic
import Mathlib.Tactic

/-!
# The fork database

The blocks of all branches that are not too old, linked by their previous blocks. The links are **weak
pointers**: an item that has been erased from the index is gone, even when a block with the same id is
pushed again later. The identity of an item is the number `ref` under which it was made.

The head moves to a block as soon as it is pushed with a greater number than the head, before the block
is applied.
-/

namespace Playchain

/-- What is read of blocks. The number of a block is stored in its id, and it is one more than the
number in the id of the previous block; the id without a block has number zero. -/
class Blocks (β : Type*) (ι τ : outParam Type*) where
  id : β → ι
  previous : β → ι
  transactions : β → List τ
  /-- `num_from_id` -/
  numFromId : ι → ℕ
  /-- `block_id_type()` -/
  noBlock : ι
  id_inj : ∀ {b b' : β}, id b = id b' → b = b'
  numFromId_id : ∀ b, numFromId (id b) = numFromId (previous b) + 1
  numFromId_noBlock : numFromId noBlock = 0

section Blocks

variable {β ι τ : Type*} [Blocks β ι τ]

/-- `block_num` -/
def blockNum (b : β) : ℕ := Blocks.numFromId β (Blocks.previous b) + 1

/-- `fork_item` -/
structure ForkItem (β : Type*) where
  /-- The identity of the item. -/
  ref : ℕ
  data : β
  /-- The item of the previous block, a weak pointer. -/
  prev : Option ℕ := none
  deriving DecidableEq

namespace ForkItem

def num (it : ForkItem β) : ℕ := blockNum it.data

def id (it : ForkItem β) : ι := Blocks.id it.data

def previousId (it : ForkItem β) : ι := Blocks.previous it.data

end ForkItem

/-- Why a block is not taken into the fork database. -/
inductive ForkError where
  | tooOld
  | unlinkable
  deriving DecidableEq

/-- `fork_database` -/
structure ForkDatabase (β : Type*) where
  index : List (ForkItem β) := []
  head : Option (ForkItem β) := none
  maxSize : ℕ := 1024
  /-- The identity of the next item. -/
  nextRef : ℕ := 0
  deriving DecidableEq

namespace ForkDatabase

/-- `weak_ptr::lock`: an item is alive while the index or the head holds it. -/
def lock (f : ForkDatabase β) (ref : ℕ) : Option (ForkItem β) :=
  (f.index ++ f.head.toList).find? fun it ↦ it.ref = ref

/-- The item of the previous block. -/
def previousOf (f : ForkDatabase β) (it : ForkItem β) : Option (ForkItem β) := it.prev.bind f.lock

/-- Drop the blocks below a number. -/
def trim (f : ForkDatabase β) (minNum : ℕ) : ForkDatabase β :=
  { f with index := f.index.filter fun it ↦ minNum ≤ it.num }

/-- `set_max_size` -/
def setMaxSize (f : ForkDatabase β) (size : ℕ) : ForkDatabase β :=
  match f.head with
  | none => { f with maxSize := size }
  | some h => ({ f with maxSize := size } : ForkDatabase β).trim (h.num - size)

/-- `set_head` -/
def setHead (f : ForkDatabase β) (h : Option (ForkItem β)) : ForkDatabase β := { f with head := h }

/-- `pop_block` -/
def popBlock (f : ForkDatabase β) : Option (ForkDatabase β) := do
  let h ← f.head
  let p ← f.previousOf h
  return { f with head := some p }

variable [DecidableEq ι]

/-- `fetch_block` -/
def fetchBlock (f : ForkDatabase β) (id : ι) : Option (ForkItem β) :=
  f.index.find? fun it ↦ it.id = id

/-- `_push_block` -/
def pushBlock (f : ForkDatabase β) (b : β) : Except ForkError (ForkDatabase β) :=
  match f.head with
  | none =>
    -- without a head nothing is checked, and nothing is linked
    .ok { f with
      index := { ref := f.nextRef, data := b } :: f.index
      head := some { ref := f.nextRef, data := b }
      nextRef := f.nextRef + 1 }
  | some h =>
    if blockNum b ≤ h.num - f.maxSize then .error .tooOld
    else
      match if Blocks.previous b = Blocks.noBlock β then some none
        else (f.fetchBlock (Blocks.previous b)).map fun p ↦ some p.ref with
      | none => .error .unlinkable
      | some prev =>
        let item : ForkItem β := { ref := f.nextRef, data := b, prev := prev }
        let f := { f with
          -- a block whose id is known already is not inserted again
          index := if (f.fetchBlock (Blocks.id b)).isSome then f.index else item :: f.index
          nextRef := f.nextRef + 1 }
        if h.num < item.num then
          .ok (({ f with head := some item } : ForkDatabase β).trim (item.num - f.maxSize))
        else .ok f

/-- `remove` -/
def remove (f : ForkDatabase β) (id : ι) : ForkDatabase β :=
  let f := { f with index := f.index.filter fun it ↦ it.id ≠ id }
  match f.head with
  | none => f
  | some h => if h.id = id then f.popBlock.getD { f with head := none } else f

/-- Remove the blocks of a branch. -/
def removeAll (f : ForkDatabase β) (items : List (ForkItem β)) : ForkDatabase β :=
  items.foldl (fun (f : ForkDatabase β) (it : ForkItem β) ↦ f.remove it.id) f

/-! ### Branches -/

/-- The loop of `fetch_branch_from` down to a number; the items it passes come first. The fuel is the
number of the item, which goes down by one from each block to the previous one. -/
def descend (f : ForkDatabase β) (target : ℕ) : ℕ → ForkItem β →
    Option (List (ForkItem β) × ForkItem β)
  | 0, _ => none
  | fuel + 1, it =>
    if target < it.num then do
      let p ← f.previousOf it
      let (passed, stop) ← f.descend target fuel p
      return (it :: passed, stop)
    else some ([], it)

/-- The loop of `fetch_branch_from` down to a common previous block. -/
def descendBoth (f : ForkDatabase β) : ℕ → ForkItem β → ForkItem β →
    Option (List (ForkItem β) × List (ForkItem β))
  | 0, _, _ => none
  | fuel + 1, a, b =>
    if a.previousId ≠ b.previousId then do
      let a' ← f.previousOf a
      let b' ← f.previousOf b
      let (as, bs) ← f.descendBoth fuel a' b'
      return (a :: as, b :: bs)
    else some ([a], [b])

/-- `fetch_branch_from` -/
def fetchBranchFrom (f : ForkDatabase β) (first second : ι) :
    Option (List (ForkItem β) × List (ForkItem β)) := do
  let a ← f.fetchBlock first
  let b ← f.fetchBlock second
  let (as, a) ← f.descend b.num (a.num + 1) a
  let (bs, b) ← f.descend a.num (b.num + 1) b
  let (as', bs') ← f.descendBoth (a.num + 1) a b
  return (as ++ as', bs ++ bs')

end ForkDatabase

end Blocks

end Playchain
