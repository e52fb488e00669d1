import PosDictionary.Bytes.Buffer
import PosDictionary.Proofs.Outcomes

/-!
# Reading a view is reading a list

A view is known by the list of the bytes that it shows, `Bytes.toList`. Every access inside the
view is an access to that list: `get_of_lt` for a byte, `slice_of_le` for a part, and
`getUInt16_of_le`, `getUInt32_of_le` for numbers, which read `LittleEndian.numberAt`.
-/

namespace PosDictionary

namespace LittleEndian

/-- The number in the `width` bytes of `data` at `place`. -/
def numberAt (width : Nat) (data : List UInt8) (place : Nat) : Nat :=
  decode ((data.drop place).take width)

/-- A number of some bytes is one of as many digits to the base 256. -/
theorem decode_lt (bytes : List UInt8) : decode bytes < Nat.pow 256 bytes.length := by
  induction bytes with
  | nil => exact Nat.one_pos
  | cons b rest ih =>
    have hb : b.toNat < 256 := b.toNat_lt
    show b.toNat + 256 * decode rest < Nat.pow 256 rest.length * 256
    omega

/-- A number of `width` bytes is less than 256 to that power. -/
theorem numberAt_lt (width : Nat) (data : List UInt8) (place : Nat) :
    numberAt width data place < Nat.pow 256 width :=
  Nat.lt_of_lt_of_le (decode_lt _) (Nat.pow_le_pow_right (by decide) (List.length_take_le ..))

/-! ## Numbers in pieces -/

/-- A number is read behind a place as it is read there. -/
theorem numberAt_drop (width : Nat) (data : List UInt8) (start place : Nat) :
    numberAt width (data.drop start) place = numberAt width data (start + place) := by
  rw [numberAt, numberAt, List.drop_drop]

/-- A number is read in a part of the bytes as it is read in all of them. -/
theorem numberAt_part {width start size place : Nat} (data : List UInt8)
    (inside : place + width ≤ size) :
    numberAt width ((data.drop start).take size) place = numberAt width data (start + place) := by
  rw [← numberAt_drop, numberAt, numberAt, List.drop_take, List.take_take, Nat.min_eq_left]
  omega

/-- A number that fits its width is read where it was written. -/
theorem numberAt_encode {width n : Nat} (fits : n < Nat.pow 256 width) (rest : List UInt8) :
    numberAt width (encode width n ++ rest) 0 = n := by
  unfold numberAt
  rw [List.drop_zero, List.take_left' (length_encode width n), decode_encode fits]

/-- A written number is passed over. -/
theorem numberAt_encode_append {width place : Nat} (n : Nat) (rest : List UInt8)
    (h : width ≤ place) :
    numberAt width (encode width n ++ rest) place = numberAt width rest (place - width) := by
  rw [← Nat.add_sub_cancel' h, ← numberAt_drop, List.drop_left' (length_encode width n),
    Nat.add_sub_cancel_left]

/-- Of blocks of one width, those from `i` on stand behind `i` widths. -/
theorem drop_flatMap_of_length {α : Type} {block : α → List UInt8} {width : Nat}
    (hwidth : ∀ a, (block a).length = width) (items : List α) (i : Nat) :
    (items.flatMap block).drop (width * i) = (items.drop i).flatMap block := by
  induction items generalizing i with
  | nil => simp
  | cons a items ih =>
    cases i with
    | zero => simp
    | succ i =>
      rw [Nat.mul_succ, Nat.add_comm, ← List.drop_drop, List.flatMap_cons,
        List.drop_left' (hwidth a), ih, List.drop_succ_cons]

end LittleEndian

namespace Bytes

open LittleEndian

variable {b : Bytes}

/-- A view has as many bytes as its length says, since it lies in its owner. -/
@[simp] theorem length_toList (b : Bytes) : b.toList.length = b.len := by
  simp [toList]

/-- The bytes of a view are a part of those of its owner. -/
theorem toList_eq (b : Bytes) : b.toList = (b.owner.data.toList.drop b.offset).take b.len := by
  simp [toList, toArray, List.take_drop]

/-- A byte inside the view is read from its list. -/
theorem get_of_lt {i : Nat} (h : i < b.toList.length) : b.get i = .ok b.toList[i] := by
  unfold get
  rw [dif_pos (by simpa using h)]
  simp [toList, toArray]

/-- A part of the view shows that part of its list. -/
theorem slice_of_le {start stop : Nat} (h : start ≤ stop) (inside : stop ≤ b.len) :
    ∃ c, b.slice start stop = .ok c ∧ c.len = stop - start ∧
      c.toList = (b.toList.drop start).take (stop - start) := by
  refine ⟨_, dif_pos ⟨h, inside⟩, rfl, ?_⟩
  rw [toList_eq, toList_eq, List.drop_take, List.take_take, List.drop_drop, Nat.min_eq_left]
  omega

/-! ## Numbers -/

/-- A two-byte number inside the view is read from its list. -/
theorem getUInt16_of_le {i : Nat} (h : i + 2 ≤ b.len) :
    b.getUInt16 i = .ok (UInt16.ofNat (numberAt 2 b.toList i)) := by
  rw [← length_toList] at h
  have h₀ : i < b.toList.length := by omega
  have h₁ : i + 1 < b.toList.length := by omega
  rw [getUInt16, get_of_lt h₀, get_of_lt h₁, numberAt, List.drop_eq_getElem_cons h₀,
    List.drop_eq_getElem_cons h₁]
  rfl

/-- A four-byte number inside the view is read from its list. -/
theorem getUInt32_of_le {i : Nat} (h : i + 4 ≤ b.len) :
    b.getUInt32 i = .ok (UInt32.ofNat (numberAt 4 b.toList i)) := by
  rw [← length_toList] at h
  have h₀ : i < b.toList.length := by omega
  have h₁ : i + 1 < b.toList.length := by omega
  have h₂ : i + 2 < b.toList.length := by omega
  have h₃ : i + 3 < b.toList.length := by omega
  rw [getUInt32, get_of_lt h₀, get_of_lt h₁, get_of_lt h₂, get_of_lt h₃, numberAt,
    List.drop_eq_getElem_cons h₀, List.drop_eq_getElem_cons h₁, List.drop_eq_getElem_cons h₂,
    List.drop_eq_getElem_cons h₃]
  rfl

/-- A four-byte number fits its type, so it is read without loss. -/
theorem toNat_numberAt (data : List UInt8) (place : Nat) :
    (UInt32.ofNat (numberAt 4 data place)).toNat = numberAt 4 data place :=
  UInt32.toNat_ofNat_of_lt' (numberAt_lt 4 data place)

/-! ## Views of new bytes -/

/-- A view of new bytes shows all of them. -/
theorem toList_ofArray (data : Array UInt8) (segment : Nat) :
    (ofArray data segment).toList = data.toList := by
  simp [toList, toArray, ofArray, ofOwner]

/-- What was appended to a buffer is shown when it is frozen. -/
theorem toList_freeze (buf : Buffer) (segment : Nat) :
    (buf.freeze segment).toList = buf.toList :=
  toList_ofArray _ _

end Bytes

end PosDictionary
