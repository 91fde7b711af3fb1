import Playchain.Lib.Codec
import Playchain.Lib.Control

/-!
# Extensions

`extension<T>` of `ext.hpp`: a struct with optional members only, of which the set ones are written, each behind its
place in the struct. The struct is a list of members, with the conversions of each (`ExtensionMember`), and its value a
tuple of optional values. The visitors of the source are recursions over the members which carry the visitor's counters.

* `pack` writes how many members are set, then for each of them its place and its value.
* `unpack` reads the number of members and, ahead of the member it belongs to, each place. A member is read when its turn
  has come; what is left over at the end is an error. Numbers in the stream have 64 bits (`fc::unsigned_int`), and the
  visitor keeps the low 32 of them.
* `toVariant` and `fromVariant` do the same with an object that has an entry for each member that is set.

The conversions of the members and of the numbers are the library's. Its variants are modelled as far as `from_variant`
distinguishes them.
-/

namespace Playchain

/-- The kinds of `fc::variant` that `from_variant` tells apart. -/
inductive Variant where
  | null
  | uint64 (n : UInt64)
  | string (text : String)
  | array (elements : List Variant)
  | object (entries : List (String × Variant))

namespace Variant

/-- `variant_object::find`. -/
def find (entries : List (String × Variant)) (name : String) : Option Variant :=
  (entries.find? (·.1 = name)).map (·.2)

/-- `mutable_variant_object::operator()`: the entry is replaced, or added at the end. -/
def set (entries : List (String × Variant)) (name : String) (v : Variant) : List (String × Variant) :=
  if entries.any (·.1 = name) then entries.map fun e ↦ if e.1 = name then (name, v) else e
  else entries ++ [(name, v)]

end Variant

inductive ExtensionError where
  /-- `FC_ASSERT( _max_depth > 0 )`. -/
  | depthExceeded
  /-- The stream ended or held no such value. -/
  | badStream
  /-- `FC_ASSERT( vtor.count_left == 0 )`: unrecognized extension. -/
  | unrecognized
  /-- A variant that is not an object, or an array that is not empty. -/
  | badVariant
  deriving DecidableEq, Repr

/-- A member of the struct: the type of its value, its name, and the library's conversions. Variants are made of and read
into the optional. -/
structure ExtensionMember where
  Value : Type
  name : String
  codec : Codec Value
  toVariant : Option Value → Variant
  fromVariant : Variant → Except ExtensionError (Option Value)

/-- A struct: its members have different names, and their places fit the 32 bits of a tag. -/
structure ExtensionStruct where
  members : List ExtensionMember
  nodup_names : (members.map (·.name)).Nodup
  length_lt : members.length < 2 ^ 32

namespace Extension

/-- The value of a struct with these members. -/
def Values : List ExtensionMember → Type
  | [] => Unit
  | m :: ms => Option m.Value × Values ms

/-- The value `T()`, with no member set. -/
def empty : (ms : List ExtensionMember) → Values ms
  | [] => ()
  | _ :: ms => (none, empty ms)

variable (tag : Codec UInt64)

/-! ### Bytes -/

/-- `graphene_extension_pack_count_visitor`. -/
def packCount : (ms : List ExtensionMember) → Values ms → UInt32 → UInt32
  | [], _, count => count
  | _ :: ms, vs, count => packCount ms vs.2 (count + if vs.1.isSome then 1 else 0)

/-- `graphene_extension_pack_read_visitor`. -/
def packMembers : (ms : List ExtensionMember) → Values ms → UInt32 → List UInt8 → List UInt8
  | [], _, _, stream => stream
  | m :: ms, vs, which, stream =>
    match vs.1 with
    | some v => packMembers ms vs.2 (which + 1) (stream ++ tag.encode which.toUInt64 ++ m.codec.encode v)
    | none => packMembers ms vs.2 (which + 1) stream

/-- `fc::raw::pack` of an extension, after what is in the stream already. -/
def pack {ms : List ExtensionMember} (stream : List UInt8) (value : Values ms) (maxDepth : ℕ) :
    Except ExtensionError (List UInt8) := do
  if maxDepth = 0 then throw .depthExceeded
  let maxDepth := maxDepth - 1
  let count := packCount ms value 0
  let stream := stream ++ tag.encode count.toUInt64
  if maxDepth = 0 then throw .depthExceeded
  return packMembers tag ms value 0 stream

/-- The state of `graphene_extension_unpack_visitor`. -/
structure UnpackState where
  stream : List UInt8
  which : UInt32
  nextWhich : UInt32
  countLeft : UInt32

/-- `fc::raw::unpack` of one value. -/
def read {α : Type} (codec : Codec α) (stream : List UInt8) : Except ExtensionError (α × List UInt8) :=
  match codec.decode stream with
  | some r => .ok r
  | none => .error .badStream

/-- `maybe_read_next_which`. -/
def maybeReadNextWhich (s : UnpackState) : Except ExtensionError UnpackState := do
  if 0 < s.countLeft then
    let (w, stream) ← read tag s.stream
    return { s with stream := stream, nextWhich := w.toUInt32 }
  return s

/-- The visitor's constructor. -/
def unpackInit (stream : List UInt8) (maxDepth : ℕ) : Except ExtensionError UnpackState := do
  if maxDepth = 0 then throw .depthExceeded
  let (c, stream) ← read tag stream
  maybeReadNextWhich tag { stream := stream, which := 0, nextWhich := 0, countLeft := c.toUInt32 }

/-- The visitor: a member is read if the place that was read ahead is its own, and reset otherwise. -/
def unpackMembers : (ms : List ExtensionMember) → UnpackState → Except ExtensionError (Values ms × UnpackState)
  | [], s => .ok ((), s)
  | m :: ms, s =>
    if 0 < s.countLeft ∧ s.which = s.nextWhich then do
      let (temp, stream) ← read m.codec s.stream
      let s ← maybeReadNextWhich tag { s with stream := stream, countLeft := s.countLeft - 1 }
      let (vs, s) ← unpackMembers ms { s with which := s.which + 1 }
      return ((some temp, vs), s)
    else do
      let (vs, s) ← unpackMembers ms { s with which := s.which + 1 }
      return ((none, vs), s)

/-- `fc::raw::unpack` of an extension: its value and what is left of the stream. -/
def unpack (ms : List ExtensionMember) (stream : List UInt8) (maxDepth : ℕ) :
    Except ExtensionError (Values ms × List UInt8) := do
  if maxDepth = 0 then throw .depthExceeded
  let maxDepth := maxDepth - 1
  let s ← unpackInit tag stream maxDepth
  let (value, s) ← unpackMembers tag ms s
  if s.countLeft = 0 then return (value, s.stream)
  throw .unrecognized

/-! ### Variants -/

/-- `graphene_extension_to_variant_visitor`. -/
def toVariantMembers : (ms : List ExtensionMember) → Values ms → List (String × Variant) → List (String × Variant)
  | [], _, mvo => mvo
  | m :: ms, vs, mvo =>
    toVariantMembers ms vs.2 (if vs.1.isSome then Variant.set mvo m.name (m.toVariant vs.1) else mvo)

/-- `fc::to_variant` of an extension. The object that is filled counts as one level of depth. -/
def toVariant {ms : List ExtensionMember} (value : Values ms) (maxDepth : ℕ) : Except ExtensionError Variant := do
  if maxDepth = 0 then throw .depthExceeded
  return .object (toVariantMembers ms value [])

/-- `graphene_extension_from_variant_visitor`: the value and how many entries are left. -/
def fromVariantMembers (vo : List (String × Variant)) :
    (ms : List ExtensionMember) → Values ms → UInt32 → Except ExtensionError (Values ms × UInt32)
  | [], _, countLeft => .ok ((), countLeft)
  | m :: ms, vs, countLeft =>
    match Variant.find vo m.name with
    | some v => do
      let member ← m.fromVariant v
      let (vs, countLeft) ← fromVariantMembers vo ms vs.2 (countLeft - 1)
      return ((member, vs), countLeft)
    | none => do
      let (rest, countLeft) ← fromVariantMembers vo ms vs.2 countLeft
      return ((vs.1, rest), countLeft)

/-- `fc::from_variant` of an extension. -/
def fromVariant (ms : List ExtensionMember) (var : Variant) (maxDepth : ℕ) : Except ExtensionError (Values ms) :=
  match var with
  | .null => .ok (empty ms)
  | .array elements => if elements.length = 0 then .ok (empty ms) else .error .badVariant
  | .uint64 _ => .error .badVariant
  | .string _ => .error .badVariant
  | .object entries => do
    if maxDepth = 0 then throw .depthExceeded
    let (value, countLeft) ← fromVariantMembers entries ms (empty ms) entries.length.toUInt32
    if countLeft = 0 then return value
    throw .unrecognized

end Extension

end Playchain
