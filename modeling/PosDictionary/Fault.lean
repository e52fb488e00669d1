/-!
# Faults: calls outside their contract

A fault says that a caller broke what an operation asks of its arguments: bounds that do not fit,
a position outside the data, a size that cannot be. It also says where a number comes up that does
not fit the words that it is computed in. Bad data is never a fault, it is an `Error`.
-/

namespace PosDictionary

/-- What a caller did wrong. -/
inductive Fault where
  /-- The bounds `start..stop` do not lie in a view of `len` bytes. -/
  | sliceOutOfBounds (start stop len : Nat)
  /-- The bounds `start..stop` do not lie in an array of `count` records. -/
  | recordRangeOutOfBounds (start stop count : Nat)
  /-- There is no item at `index` among `len` items. -/
  | indexOutOfBounds (len index : Nat)
  /-- Data that should divide into blocks of one size leaves `rest` bytes over. -/
  | unevenBlocks (rest : Nat)
  /-- Data should be divided into blocks of no bytes. -/
  | emptyBlocks
  /-- A sample was asked for in which no POS may have a form. -/
  | noFormsAllowed
  /-- A sum is too great for its word. -/
  | sumOverflow
  /-- A difference is negative. -/
  | differenceOverflow
deriving DecidableEq, Repr

/-- The text of a fault. -/
def Fault.message : Fault → String
  | .sliceOutOfBounds start stop len =>
    s!"slice {start}..{stop} out of bounds for length {len}"
  | .recordRangeOutOfBounds start stop count =>
    s!"record range {start}..{stop} out of bounds for {count} records"
  | .indexOutOfBounds len index =>
    s!"index out of bounds: the len is {len} but the index is {index}"
  | .unevenBlocks rest => unexpected "left == right" rest 0
  | .emptyBlocks => "attempt to calculate the remainder with a divisor of zero"
  | .noFormsAllowed => unexpected "left != right" 0 0
  | .sumOverflow => "attempt to add with overflow"
  | .differenceOverflow => "attempt to subtract with overflow"
where
  /-- The text of a condition on two numbers that does not hold. -/
  unexpected (condition : String) (left right : Nat) : String :=
    s!"assertion `{condition}` failed\n  left: {left}\n right: {right}"

end PosDictionary
