import Playchain.Protocol.Types

/-!
# Protocol versions

A version is `major.minor.patch`, packed into one 32-bit number; a `version_ext` adds build metadata
after a `+`. Two extended versions are *compatible* when major and minor agree: this is the
`operator==` the table allocation uses.

Parsing follows the stream extraction of the source: a number takes an optional sign and wraps when
negated, a failed extraction leaves zero behind, and reading up to the end of the text sets the
end-of-file flag.
-/

namespace Playchain

/-! ### Formatted extraction -/

/-- A text stream with its failure and end-of-file flags. -/
structure TextStream where
  /-- The characters not read yet. -/
  rest : List Char
  /-- An extraction has failed. -/
  fail : Bool := false
  /-- The end of the text has been reached. -/
  eof : Bool := false
  deriving DecidableEq, Repr

namespace TextStream

/-- White space of the classic locale. -/
def isSpace (c : Char) : Bool :=
  c = ' ' ∨ c = '\t' ∨ c = '\n' ∨ c = '\r' ∨ c.toNat = 11 ∨ c.toNat = 12

/-- What precedes every formatted extraction: give up on a stream that is not good, skip white
space, fail at the end of the text. -/
def sentry (s : TextStream) : Option TextStream × TextStream :=
  if s.fail ∨ s.eof then (none, { s with fail := true })
  else
    match s.rest.dropWhile isSpace with
    | [] => (none, { rest := [], fail := true, eof := true })
    | c :: cs => (some { s with rest := c :: cs }, { s with rest := c :: cs })

/-- Extract one character; `none` leaves the target as it was. -/
def extractChar (s : TextStream) : Option Char × TextStream :=
  match s.sentry with
  | (none, s) => (none, s)
  | (some _, s) =>
    match s.rest with
    | [] => (none, { s with fail := true, eof := true })
    | c :: cs => (some c, { s with rest := cs })

/-- The value of a list of decimal digits. -/
def digitsValue (cs : List Char) : ℕ := cs.foldl (fun a c ↦ 10 * a + (c.toNat - '0'.toNat)) 0

/-- Extract an unsigned 32-bit number. A sign is allowed and a minus negates modulo `2 ^ 32`; a
value out of range becomes the largest one and fails. -/
def extractUInt32 (s : TextStream) : ℕ × TextStream :=
  match s.sentry with
  | (none, s) => (0, s)
  | (some _, s) =>
    let negative := s.rest.head? = some '-'
    let body := if s.rest.head? = some '-' ∨ s.rest.head? = some '+' then s.rest.tail else s.rest
    let digits := body.takeWhile Char.isDigit
    let rest := body.dropWhile Char.isDigit
    let s' : TextStream := { rest := rest, fail := s.fail, eof := rest.isEmpty }
    if digits.isEmpty then (0, { s' with fail := true })
    else if 2 ^ 32 ≤ digitsValue digits then (2 ^ 32 - 1, { s' with fail := true })
    else if negative then ((2 ^ 32 - digitsValue digits) % 2 ^ 32, s')
    else (digitsValue digits, s')

end TextStream

/-! ### Versions -/

/-- A version packed into 32 bits. -/
structure Version where
  /-- Major in the top byte, minor in the next, patch in the low half. -/
  vNum : ℕ := 0
  deriving DecidableEq, Repr

namespace Version

/-- `version::major_v` -/
def majorV (v : Version) : ℕ := v.vNum / 2 ^ 24 % 2 ^ 8

/-- `version::minor_v` -/
def minorV (v : Version) : ℕ := v.vNum / 2 ^ 16 % 2 ^ 8

/-- `version::patch` -/
def patch (v : Version) : ℕ := v.vNum % 2 ^ 16

/-- `version::operator fc::string` -/
def toText (v : Version) : List Char :=
  Nat.toDigits 10 v.majorV ++ '.' :: (Nat.toDigits 10 v.minorV ++ '.' :: Nat.toDigits 10 v.patch)

/-- `from_variant` for `version` -/
def fromVariant (text : List Char) : Except ChainError Version := do
  let s : TextStream := { rest := text }
  let (major, s) := s.extractUInt32
  let (dotA, s) := s.extractChar
  let (hardfork, s) := s.extractUInt32
  let (dotB, s) := s.extractChar
  let (revision, s) := s.extractUInt32
  fcAssert ((dotA = some '.' ∨ dotA = some '_') ∧ dotA = dotB)
    "Variant does not contain proper dotted decimal format"
  fcAssert (major ≤ 0xFF) "Major version is out of range"
  fcAssert (hardfork ≤ 0xFF) "Minor/Hardfork version is out of range"
  fcAssert (revision ≤ 0xFFFF) "Patch/Revision version is out of range"
  fcAssert (s.eof = true) "Extra information at end of version string"
  return { vNum := major * 2 ^ 24 + hardfork * 2 ^ 16 + revision }

end Version

/-- A version with build metadata. -/
structure VersionExt where
  /-- The packed version. -/
  base : Version := {}
  /-- What follows the first `+`. -/
  metadata : String := ""
  deriving DecidableEq, Repr

namespace VersionExt

/-- `operator==`: the versions agree up to the patch number and the metadata. -/
def compatible (a b : VersionExt) : Bool :=
  a.base.majorV = b.base.majorV ∧ a.base.minorV = b.base.minorV

/-- `version_ext::operator fc::string`: with no metadata the text has no `+` either. -/
def toText (v : VersionExt) : String :=
  String.ofList
    (if v.metadata = "" then v.base.toText else v.base.toText ++ '+' :: v.metadata.toList)

/-- `from_variant` for `version_ext`, into a target that holds `target`: without a `+` in the text
the target's metadata stays. -/
def fromVariant (text : String) (target : VersionExt) : Except ChainError VersionExt := do
  let base ← Version.fromVariant (text.toList.takeWhile fun c ↦ c ≠ '+')
  match text.toList.dropWhile fun c ↦ c ≠ '+' with
  | [] => return { target with base := base }
  | _ :: metadata => return { base := base, metadata := String.ofList metadata }

end VersionExt

example : (VersionExt.fromVariant "1.2.3+build" {}).toOption.map (·.base.majorV) = some 1 := by
  decide

end Playchain
