import PosDictionary.Bytes.View

/-!
# Buffers

A buffer takes bytes at its end while a piece of data is put together. `freeze` turns it into a
view. Each operation is described by the bytes it appends, `Buffer.toList`.
-/

namespace PosDictionary

/-- Bytes to which more can be added. -/
structure Buffer where
  /-- The bytes so far. -/
  data : Array UInt8
deriving DecidableEq, Repr

namespace Buffer

/-- A buffer without bytes. -/
def empty : Buffer := ⟨#[]⟩

/-- A buffer without bytes that expects to take `capacity` of them. -/
def withCapacity (capacity : Nat) : Buffer := ⟨Array.mkEmpty capacity⟩

/-- The bytes of a buffer, first to last. -/
def toList (buf : Buffer) : List UInt8 := buf.data.toList

/-- The number of bytes. -/
def len (buf : Buffer) : Nat := buf.data.size

/-- The buffer has no bytes. -/
def isEmpty (buf : Buffer) : Bool := buf.data.isEmpty

/-- Appends bytes. -/
def append (buf : Buffer) (bytes : List UInt8) : Buffer :=
  ⟨bytes.foldl Array.push buf.data⟩

/-- Appends one byte. -/
def putUInt8 (buf : Buffer) (value : UInt8) : Buffer :=
  ⟨buf.data.push value⟩

/-- Appends a two-byte number. -/
def putUInt16 (buf : Buffer) (value : UInt16) : Buffer :=
  buf.append (LittleEndian.encode 2 value.toNat)

/-- Appends a four-byte number. -/
def putUInt32 (buf : Buffer) (value : UInt32) : Buffer :=
  buf.append (LittleEndian.encode 4 value.toNat)

/-- The bytes as a view of a new owner in a segment of memory. -/
def freeze (buf : Buffer) (segment : Nat) : Bytes :=
  Bytes.ofArray buf.data segment

/-- The bytes as decimal numbers. -/
def describe (buf : Buffer) : String :=
  Text.wrapped "BytesMut" (Text.listed (buf.toList.map fun b => s!"{b.toNat}"))

/-! ## What is appended -/

@[simp] theorem toList_empty : empty.toList = [] := rfl

@[simp] theorem toList_withCapacity (n : Nat) : (withCapacity n).toList = [] := rfl

@[simp] theorem toList_append (buf : Buffer) (bytes : List UInt8) :
    (buf.append bytes).toList = buf.toList ++ bytes := by
  simp [toList, append]

@[simp] theorem toList_putUInt8 (buf : Buffer) (value : UInt8) :
    (buf.putUInt8 value).toList = buf.toList ++ [value] := by
  simp [toList, putUInt8]

@[simp] theorem toList_putUInt16 (buf : Buffer) (value : UInt16) :
    (buf.putUInt16 value).toList = buf.toList ++ LittleEndian.encode 2 value.toNat :=
  toList_append ..

@[simp] theorem toList_putUInt32 (buf : Buffer) (value : UInt32) :
    (buf.putUInt32 value).toList = buf.toList ++ LittleEndian.encode 4 value.toNat :=
  toList_append ..

end Buffer

end PosDictionary
