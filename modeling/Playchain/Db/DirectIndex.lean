import Playchain.Lib.FlatMap

/-!
# The direct index

`direct_index` of `index.hpp`, the secondary index that finds objects by their instance: pointers to the objects, in
chunks of `2 ^ chunkbits`. The chunks reach up to `next`, which follows the highest instance that was ever inserted
and is not lowered when objects are removed. With it the part of `primary_index` that feeds it: the objects with their
addresses, and the id the next object is created with.

Accesses to the vectors are checked, with `outOfBounds` where the source would read or write beyond an end. Addresses are
of any type. The errors `refused` are the primary index's own, raised before the direct index is told.
-/

namespace Playchain

inductive DirectError where
  /-- An access beyond the end of a vector, or the top of an empty stack. -/
  | outOfBounds
  /-- `Overwriting insert at {id}!` -/
  | overwritingInsert
  /-- `Out-of-order insert: {id} > {next}!` -/
  | outOfOrderInsert
  /-- `Removing out-of-range object: {id} > {next}!` -/
  | removingOutOfRange
  /-- `Removing non-existent object {id}!` -/
  | removingNonExistent
  /-- `Modification of ID is not supported!` -/
  | idModified
  deriving DecidableEq, Repr

/-- `direct_index`; null pointers are `none`. -/
structure DirectIndex (Ptr : Type*) where
  next : ℕ
  content : List (List (Option Ptr))
  idsBeingModified : List ℕ

namespace DirectIndex

variable {Ptr : Type*}

def empty : DirectIndex Ptr := { next := 0, content := [], idsBeingModified := [] }

/-- The widest gap an insertion may leave. -/
def maxHole : ℕ := 100

/-- `vector::resize` -/
def resize {α : Type*} (l : List α) (n : ℕ) (a : α) : List α := l.take n ++ List.replicate (n - l.length) a

variable (chunkbits : ℕ)

/-- `_mask` -/
def mask : ℕ := 2 ^ chunkbits - 1

/-- `content[i >> chunkbits][i & _mask]` -/
def slot (content : List (List (Option Ptr))) (i : ℕ) : Except DirectError (Option Ptr) :=
  match content[i >>> chunkbits]? with
  | none => .error .outOfBounds
  | some chunk =>
    match chunk[i &&& mask chunkbits]? with
    | none => .error .outOfBounds
    | some p => .ok p

/-- `content[i >> chunkbits][i & _mask] = p` -/
def setSlot (content : List (List (Option Ptr))) (i : ℕ) (p : Option Ptr) :
    Except DirectError (List (List (Option Ptr))) :=
  match content[i >>> chunkbits]? with
  | none => .error .outOfBounds
  | some chunk =>
    if i &&& mask chunkbits < chunk.length then
      .ok (content.set (i >>> chunkbits) (chunk.set (i &&& mask chunkbits) p))
    else .error .outOfBounds

/-- The chunk of a place is made the last one, and filled up. -/
def growTo (content : List (List (Option Ptr))) (i : ℕ) : Except DirectError (List (List (Option Ptr))) :=
  let content := resize content ((i >>> chunkbits) + 1) []
  match content[i >>> chunkbits]? with
  | none => .error .outOfBounds
  | some chunk => .ok (content.set (i >>> chunkbits) (resize chunk (2 ^ chunkbits) none))

/-- `while( next <= instance )`, for the given number of rounds. -/
def clearHole : ℕ → DirectIndex Ptr → Except DirectError (DirectIndex Ptr)
  | 0, d => .ok d
  | n + 1, d => do
    let content ← setSlot chunkbits d.content d.next none
    clearHole n { d with content := content, next := d.next + 1 }

/-- The first part of `object_inserted`: there is a place for the instance. -/
def makeRoom (d : DirectIndex Ptr) (inst : ℕ) : Except DirectError (DirectIndex Ptr) :=
  if inst = d.next then
    if d.next &&& mask chunkbits = 0 then do
      let content ← growTo chunkbits d.content d.next
      return { d with content := content, next := d.next + 1 }
    else return { d with next := d.next + 1 }
  else if inst < d.next then do
    let p ← slot chunkbits d.content inst
    if p.isSome then throw .overwritingInsert
    return d
  else if ¬inst ≤ d.next + maxHole then throw .outOfOrderInsert
  else
    -- the parts of the two above the mask are the numbers of their chunks
    if d.next &&& mask chunkbits = 0 ∨ d.next >>> chunkbits ≠ inst >>> chunkbits then do
      let content ← growTo chunkbits d.content inst
      clearHole chunkbits (inst + 1 - d.next) { d with content := content }
    else clearHole chunkbits (inst + 1 - d.next) d

def objectInserted (d : DirectIndex Ptr) (inst : ℕ) (obj : Ptr) : Except DirectError (DirectIndex Ptr) := do
  let d ← makeRoom chunkbits d inst
  let content ← setSlot chunkbits d.content inst (some obj)
  return { d with content := content }

def objectRemoved (d : DirectIndex Ptr) (inst : ℕ) : Except DirectError (DirectIndex Ptr) := do
  if ¬inst < d.next then throw .removingOutOfRange
  let p ← slot chunkbits d.content inst
  if p.isNone then throw .removingNonExistent
  let content ← setSlot chunkbits d.content inst none
  return { d with content := content }

def aboutToModify (d : DirectIndex Ptr) (inst : ℕ) : DirectIndex Ptr :=
  { d with idsBeingModified := inst :: d.idsBeingModified }

def objectModified (d : DirectIndex Ptr) (inst : ℕ) : Except DirectError (DirectIndex Ptr) :=
  match d.idsBeingModified with
  | [] => .error .outOfBounds
  | top :: ids => if top = inst then .ok { d with idsBeingModified := ids } else .error .idModified

/-- A null pointer stands for no object. -/
def find (d : DirectIndex Ptr) (inst : ℕ) : Except DirectError (Option Ptr) :=
  if d.next ≤ inst then .ok none else slot chunkbits d.content inst

end DirectIndex

/-! ### The primary index -/

inductive IndexError where
  /-- The primary index holds the id already, or does not hold it. -/
  | refused
  | direct (e : DirectError)
  deriving DecidableEq, Repr

/-- `primary_index` with a direct index: the objects under their instances, each with its address. -/
structure PrimaryIndex (Ptr α : Type*) where
  objects : FlatMap ℕ (Ptr × α)
  nextId : ℕ
  direct : DirectIndex Ptr

/-- What is done to an index. `insert` is a load, or the insertion of an object that an undo brings back. -/
inductive IndexOp (Ptr α : Type*) where
  | create (p : Ptr) (a : α)
  | insert (inst : ℕ) (p : Ptr) (a : α)
  | remove (inst : ℕ)
  | modify (inst : ℕ) (a : α)
  | setNextId (n : ℕ)

/-- The state of a session for one index: the values before modifications, the objects that were created, the next
id before the first of them, and the objects that were removed (with the address each is given when it comes back). -/
structure IndexUndoState (Ptr α : Type*) where
  oldValues : List (ℕ × α)
  newIds : List ℕ
  oldNextId : Option ℕ
  removed : List (ℕ × Ptr × α)

namespace PrimaryIndex

variable {Ptr α : Type*}

def empty : PrimaryIndex Ptr α := { objects := ∅, nextId := 0, direct := DirectIndex.empty }

variable (chunkbits : ℕ)

/-- The insertion of an object, then of a pointer to it in the direct index. -/
def add (s : PrimaryIndex Ptr α) (inst : ℕ) (p : Ptr) (a : α) : Except IndexError (PrimaryIndex Ptr α) :=
  if s.objects.contains inst then .error .refused
  else
    match s.direct.objectInserted chunkbits inst p with
    | .error e => .error (.direct e)
    | .ok d => .ok { s with objects := s.objects.insert inst (p, a), direct := d }

def apply (s : PrimaryIndex Ptr α) : IndexOp Ptr α → Except IndexError (PrimaryIndex Ptr α)
  | .create p a => do
    let s' ← s.add chunkbits s.nextId p a
    return { s' with nextId := s.nextId + 1 }
  | .insert inst p a => s.add chunkbits inst p a
  | .remove inst =>
    if s.objects.contains inst then
      match s.direct.objectRemoved chunkbits inst with
      | .error e => .error (.direct e)
      | .ok d => .ok { s with objects := s.objects.erase inst, direct := d }
    else .error .refused
  | .modify inst a =>
    match s.objects.find? inst with
    | none => .error .refused
    | some (p, _) =>
      match (s.direct.aboutToModify inst).objectModified inst with
      | .error e => .error (.direct e)
      | .ok d => .ok { s with objects := s.objects.insert inst (p, a), direct := d }
  | .setNextId n => .ok { s with nextId := n }

/-- `undo_database::undo`, as far as it concerns one index. -/
def undoOps (state : IndexUndoState Ptr α) : List (IndexOp Ptr α) :=
  state.oldValues.map (fun v ↦ .modify v.1 v.2) ++ state.newIds.map .remove ++ state.oldNextId.toList.map .setNextId ++
    state.removed.map (fun r ↦ .insert r.1 r.2.1 r.2.2)

/-- The operations one after the other. -/
def applyAll (s : PrimaryIndex Ptr α) (ops : List (IndexOp Ptr α)) : Except IndexError (PrimaryIndex Ptr α) :=
  ops.foldlM (apply chunkbits) s

end PrimaryIndex

end Playchain
