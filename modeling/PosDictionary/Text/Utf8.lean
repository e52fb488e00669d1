/-!
# Reading UTF-8

`decode` reads bytes as a text. Bytes that are no text are refused with a `Malformed`, which says
where the first character that cannot be read begins, and how much of it was seen: every byte
before that place belongs to a complete character.
-/

namespace PosDictionary.Utf8

/-- Why bytes are no text. -/
inductive Malformed where
  /-- The `length` bytes from `index` on begin no character. -/
  | invalid (length index : Nat)
  /-- The bytes end inside the character that begins at `index`. -/
  | incomplete (index : Nat)
deriving DecidableEq, Repr

/-- The text of a refusal. -/
def Malformed.message : Malformed → String
  | .invalid length index => s!"invalid utf-8 sequence of {length} bytes from index {index}"
  | .incomplete index => s!"incomplete utf-8 byte sequence from index {index}"

/-- The bytes that may follow a first byte: the range of the second byte, and how many bytes
stand behind that one. -/
structure Continuation where
  /-- The least second byte. -/
  low : UInt8
  /-- The greatest second byte. -/
  high : UInt8
  /-- The number of bytes after the second. -/
  more : Nat

/-- What may follow `first`: `none` if it begins no character of several bytes. The second byte
is bounded so that no character has two forms, none is a surrogate and none is too large. -/
def continuation (first : UInt8) : Option Continuation :=
  if 0xC2 ≤ first ∧ first ≤ 0xDF then some ⟨0x80, 0xBF, 0⟩
  else if first = 0xE0 then some ⟨0xA0, 0xBF, 1⟩
  else if first = 0xED then some ⟨0x80, 0x9F, 1⟩
  else if 0xE1 ≤ first ∧ first ≤ 0xEF then some ⟨0x80, 0xBF, 1⟩
  else if first = 0xF0 then some ⟨0x90, 0xBF, 2⟩
  else if first = 0xF4 then some ⟨0x80, 0x8F, 2⟩
  else if 0xF1 ≤ first ∧ first ≤ 0xF3 then some ⟨0x80, 0xBF, 2⟩
  else none

/-- A byte that stands inside a character. -/
def isTrailing (b : UInt8) : Bool := decide (0x80 ≤ b ∧ b ≤ 0xBF)

/-- The first place at which the bytes cannot be read, `index` being the position of their first
byte. Bytes that can all be read end inside the character that is not there. -/
def firstFault : List UInt8 → Nat → Malformed
  | [], index => .incomplete index
  | first :: rest, index =>
    if first < 0x80 then
      firstFault rest (index + 1)
    else
      match continuation first, rest with
      | none, _ => .invalid 1 index
      | some _, [] => .incomplete index
      | some next, second :: rest =>
        if second < next.low ∨ next.high < second then
          .invalid 1 index
        else
          match next.more, rest with
          | 0, rest => firstFault rest (index + 2)
          | _ + 1, [] => .incomplete index
          | more + 1, third :: rest =>
            if ¬ isTrailing third then
              .invalid 2 index
            else
              match more, rest with
              | 0, rest => firstFault rest (index + 3)
              | _ + 1, [] => .incomplete index
              | _ + 1, fourth :: rest =>
                if isTrailing fourth then firstFault rest (index + 4) else .invalid 3 index

/-- Reads bytes as a text. -/
def decode (bytes : Array UInt8) : Except Malformed String :=
  match String.fromUTF8? ⟨bytes⟩ with
  | some text => .ok text
  | none => .error (firstFault bytes.toList 0)

end PosDictionary.Utf8
