import PosDictionary.Fault

/-!
# Reversed blocks

Data that consists of blocks of one size, with its blocks in the opposite order and each block as
it was. Applied to stored records it breaks their order and nothing else.
-/

namespace PosDictionary.Sample

/-- The `count` blocks of `size` bytes at the beginning of `data`, last first. -/
def blocksReversed (data : Array UInt8) (size count : Nat) : Array UInt8 :=
  (List.range count).foldr
    (fun i out => out ++ data.extract (i * size) (i * size + size)) #[]

/-- The blocks of `size` bytes in the opposite order. The data has to divide into such blocks. -/
def reverseBlocks (data : Array UInt8) (size : Nat) : Except Fault (Array UInt8) :=
  if size = 0 then
    .error .emptyBlocks
  else if data.size % size ≠ 0 then
    .error (.unevenBlocks (data.size % size))
  else
    .ok (blocksReversed data size (data.size / size))

end PosDictionary.Sample
