import PosDictionary.Bytes.LittleEndian
import PosDictionary.Fault
import PosDictionary.Text.Structured

/-!
# Views of bytes

An `Owner` holds bytes, and any number of views may look at parts of it. A view is given by the
place where it starts and its length, and lies inside its owner; taking a part of a view shares the
owner and copies nothing.

* Two views are equal, `==`, if they show the same bytes;
* they are the same region, `sameRegion`, if they are of the same length and begin at the same
  address, whoever owns what lies there. An owner may hold a part of what another one holds, and
  owners that hold nothing may lie anywhere.

Reading outside a view is a `Fault`.
-/

namespace PosDictionary

/-- Bytes held somewhere in memory, one after the other. -/
structure Owner where
  /-- The address of the first byte. -/
  address : Nat
  /-- What it holds. -/
  data : Array UInt8
deriving DecidableEq, Repr

/-- A part of an owner's bytes. -/
structure Bytes where
  /-- Where the bytes are held. -/
  owner : Owner
  /-- The place of the first byte in the owner. -/
  offset : Nat
  /-- The number of bytes. -/
  len : Nat
  /-- The view lies inside its owner. -/
  within : offset + len ≤ owner.data.size

/-- A bound of a range of positions. -/
inductive Bound where
  /-- The range goes as far as it can. -/
  | unbounded
  /-- The range reaches this position and has it. -/
  | included (position : Nat)
  /-- The range reaches this position and does not have it. -/
  | excluded (position : Nat)
deriving DecidableEq, Repr

/-- The first position of a range with this lower bound. -/
def Bound.asStart : Bound → Nat
  | .unbounded => 0
  | .included n => n
  | .excluded n => n + 1

/-- The position after the last of a range with this upper bound, in a view of `len` bytes. -/
def Bound.asStop (len : Nat) : Bound → Nat
  | .unbounded => len
  | .included n => n + 1
  | .excluded n => n

namespace Bytes

/-! ## Making views -/

/-- All bytes of an owner. -/
def ofOwner (owner : Owner) : Bytes where
  owner := owner
  offset := 0
  len := owner.data.size
  within := by omega

/-- The distance of segments of memory. No owner holds as many bytes. -/
def segmentSize : Nat := UInt64.size

/-- All bytes of a new owner, which lies at the beginning of a segment of memory. Owners in
different segments share no bytes. -/
def ofArray (data : Array UInt8) (segment : Nat) : Bytes :=
  ofOwner ⟨segmentSize * segment, data⟩

/-- No bytes. -/
def empty : Bytes :=
  ofArray #[] 0

/-- The bytes from `start` up to and without `stop`. -/
def slice (b : Bytes) (start stop : Nat) : Except Fault Bytes :=
  if h : start ≤ stop ∧ stop ≤ b.len then
    .ok {
      owner := b.owner
      offset := b.offset + start
      len := stop - start
      within := by have := b.within; omega }
  else
    .error (.sliceOutOfBounds start stop b.len)

/-- The bytes between two bounds. -/
def sliceBetween (b : Bytes) (lower upper : Bound) : Except Fault Bytes :=
  b.slice lower.asStart (upper.asStop b.len)

/-! ## Looking at views -/

/-- The view shows no bytes. -/
def isEmpty (b : Bytes) : Bool := b.len == 0

/-- The bytes shown. -/
def toArray (b : Bytes) : Array UInt8 :=
  b.owner.data.extract b.offset (b.offset + b.len)

/-- The bytes shown, as a list. -/
def toList (b : Bytes) : List UInt8 := b.toArray.toList

@[simp] theorem size_toArray (b : Bytes) : b.toArray.size = b.len := by
  have := b.within
  simp [toArray]
  omega

instance : BEq Bytes where
  beq a b := a.toArray == b.toArray

/-- The address of the first byte shown. -/
def address (b : Bytes) : Nat := b.owner.address + b.offset

/-- The views are of the same length and begin at the same address. -/
def sameRegion (a b : Bytes) : Bool :=
  a.len == b.len && a.address == b.address

/-- The byte at position `i`. -/
def get (b : Bytes) (i : Nat) : Except Fault UInt8 :=
  if h : i < b.len then
    have inside : b.offset + i < b.owner.data.size := by have := b.within; omega
    .ok b.owner.data[b.offset + i]
  else
    .error (.indexOutOfBounds b.len i)

/-- The two-byte number at position `i`. -/
def getUInt16 (b : Bytes) (i : Nat) : Except Fault UInt16 := do
  let b0 ← b.get i
  let b1 ← b.get (i + 1)
  return UInt16.ofNat (LittleEndian.decode [b0, b1])

/-- The four-byte number at position `i`. -/
def getUInt32 (b : Bytes) (i : Nat) : Except Fault UInt32 := do
  let b0 ← b.get i
  let b1 ← b.get (i + 1)
  let b2 ← b.get (i + 2)
  let b3 ← b.get (i + 3)
  return UInt32.ofNat (LittleEndian.decode [b0, b1, b2, b3])

/-- The place of the view in its owner. -/
def describe (b : Bytes) : String :=
  "Bytes \x7b " ++ s!"offset: {b.offset}, len: {b.len}, .." ++ " \x7d"

end Bytes

end PosDictionary
