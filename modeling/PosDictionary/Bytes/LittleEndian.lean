/-!
# Little-endian numbers

A number of fixed width is stored with its least significant byte first. `encode` writes the bytes
of a number, `decode` reads any bytes as a number, and `decode_encode` says that a number that fits
its width comes back.
-/

namespace PosDictionary.LittleEndian

/-- The `width` lowest bytes of `n`, least significant first. -/
def encode : Nat → Nat → List UInt8
  | 0, _ => []
  | width + 1, n => UInt8.ofNat n :: encode width (n / 256)

/-- The number with the given bytes, least significant first. -/
def decode : List UInt8 → Nat
  | [] => 0
  | b :: rest => b.toNat + 256 * decode rest

@[simp] theorem length_encode (width n : Nat) : (encode width n).length = width := by
  induction width generalizing n with
  | zero => rfl
  | succ width ih => simp [encode, ih]

/-- A number with no more than `width` bytes is read back from them. -/
theorem decode_encode {width n : Nat} (h : n < Nat.pow 256 width) :
    decode (encode width n) = n := by
  induction width generalizing n with
  | zero =>
    have : n = 0 := Nat.lt_one_iff.mp h
    simp [encode, decode, this]
  | succ width ih =>
    have hn : n / 256 < Nat.pow 256 width :=
      Nat.div_lt_of_lt_mul (Nat.mul_comm 256 _ ▸ h)
    rw [encode, decode, ih hn, UInt8.toNat_ofNat']
    omega

/-- Bytes are the encoding of the number they decode to. -/
theorem encode_decode (bytes : List UInt8) : encode bytes.length (decode bytes) = bytes := by
  induction bytes with
  | nil => rfl
  | cons b rest ih =>
    have hb : b.toNat < 256 := b.toNat_lt
    have hd : (b.toNat + 256 * decode rest) / 256 = decode rest := by omega
    rw [List.length_cons, decode, encode, hd, ih]
    congr 1
    apply UInt8.toNat_inj.mp
    rw [UInt8.toNat_ofNat']
    omega

end PosDictionary.LittleEndian
