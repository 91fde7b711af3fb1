import Mathlib.Logic.Function.Basic
import Playchain.Lib.FlatMap

/-!
# The object database

The objects of all indices under their ids, with the next id of each index. An index may have unique
secondary keys: an object that has such a key in common with another one is not admitted.

* An insertion that is not admitted leaves the container as it is.
* A modification is done in place and **without a rollback**: when the modified object collides with
  another one, the container erases it.

The objects of an index may be mirrored in a secondary index, which is told about every object that is
inserted, removed or modified.
-/

namespace Playchain

/-- Ids of objects: an index, and an instance in it. -/
class ObjectIds (ι : Type*) (σ : outParam Type*) where
  objectId : σ → ℕ → ι
  objectId_inj : ∀ {s s' : σ} {n n' : ℕ}, objectId s n = objectId s' n' → s = s' ∧ n = n'

/-- In a single index the ids are the instances. -/
instance : ObjectIds ℕ Unit where
  objectId _ n := n
  objectId_inj h := ⟨rfl, h⟩

/-- The unique secondary keys of objects. -/
class UniqueKeys (α : Type*) where
  /-- The two objects have a unique key in common. -/
  collide : α → α → Bool
  collide_comm : ∀ a b, collide a b = collide b a

/-- `secondary_index`; its methods do nothing unless they are overridden. -/
class SecondaryIndex (ι α : Type*) (β : outParam Type*) where
  empty : β
  /-- `object_inserted` -/
  objectInserted : ι → α → β → β := fun _ _ x ↦ x
  /-- `object_removed` -/
  objectRemoved : ι → α → β → β := fun _ _ x ↦ x
  /-- `about_to_modify` with the object before, then `object_modified` with the object after. -/
  objectModified : ι → α → α → β → β := fun _ _ _ x ↦ x

/-- `object_database` -/
structure ObjectDatabase (ι σ α β : Type*) [LinearOrder ι] where
  objects : FlatMap ι α
  nextId : σ → ℕ
  secondary : β

namespace ObjectDatabase

variable {ι σ α β : Type*} [LinearOrder ι] [UniqueKeys α] [SecondaryIndex ι α β]

/-- No other object has a unique key in common with the given one. -/
def admits (d : ObjectDatabase ι σ α β) (i : ι) (a : α) : Bool :=
  d.objects.toList.all fun p ↦ p.1 = i || !UniqueKeys.collide p.2 a

/-- `primary_index::insert`, without its report to the undo database. -/
def insert (d : ObjectDatabase ι σ α β) (i : ι) (a : α) : Option (ObjectDatabase ι σ α β) :=
  if d.objects.contains i = false ∧ d.admits i a = true then
    some { d with
      objects := d.objects.insert i a
      secondary := SecondaryIndex.objectInserted i a d.secondary }
  else none

/-- `primary_index::create` in an index -/
def create [DecidableEq σ] [ObjectIds ι σ] (d : ObjectDatabase ι σ α β) (s : σ) (a : α) :
    Option (ObjectDatabase ι σ α β) := do
  let d' ← d.insert (ObjectIds.objectId s (d.nextId s)) a
  return { d' with nextId := Function.update d'.nextId s (d.nextId s + 1) }

/-- `primary_index::remove` -/
def remove (d : ObjectDatabase ι σ α β) (i : ι) (a : α) : ObjectDatabase ι σ α β :=
  { d with
    objects := d.objects.erase i
    secondary := SecondaryIndex.objectRemoved i a d.secondary }

/-- `primary_index::modify` of an object to another value. A failure carries what it leaves behind: the
object is erased, and the secondary index has not been told. -/
def modify (d : ObjectDatabase ι σ α β) (i : ι) (before after : α) :
    Except (ObjectDatabase ι σ α β) (ObjectDatabase ι σ α β) :=
  if d.admits i after then
    .ok { d with
      objects := d.objects.insert i after
      secondary := SecondaryIndex.objectModified i before after d.secondary }
  else .error { d with objects := d.objects.erase i }

/-- `primary_index::open` of what `save` has written: the objects are inserted again, and the secondary
index starts empty. -/
def reload (d : ObjectDatabase ι σ α β) : ObjectDatabase ι σ α β :=
  { d with
    secondary := d.objects.toList.foldl (fun x p ↦ SecondaryIndex.objectInserted p.1 p.2 x)
      (SecondaryIndex.empty ι α) }

end ObjectDatabase

end Playchain
