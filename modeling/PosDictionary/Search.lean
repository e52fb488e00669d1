import PosDictionary.Fault

/-!
# Bound searches over positions

Two sequences of a dictionary are kept in order: its strings by their bytes and its token records
by their POS. Both are searched here, through a question that is asked at a position:

* `partitionPoint len holds`: where a question answered yes, then no, changes its answer;
* `lowerBound`, `upperBound`, `equalRange`, `find`: the same for ordering keys;
* `locate len compareAt`: where a question with three answers says that the position is the right
  one.

The question may be asked in any monad `m` that has faults. A question that is `told` is a plain
function; another one may fail, and the search fails with it; under `recorded` it leaves a trace of
the positions asked. The search for a partition point halves `lo..hi` in every round, so it asks
each position at most once. `locate` halves the number of positions instead, however they answer,
and asks the last one again.

A bound search computes in checked numbers: a sum above `limit`, the greatest number of its words,
and a negative difference are faults. The search among `len` positions asks for no greater words
than `len` takes, so a number above `len` is a fault already.
-/

namespace PosDictionary

/-- The positions from `start` up to and without `stop`. -/
structure Span where
  /-- The first position. -/
  start : Nat
  /-- The first position after the span. -/
  stop : Nat
deriving DecidableEq, Repr

/-- A span is empty when it has no position, also when it ends before it starts. -/
def Span.isEmpty (s : Span) : Bool := decide (s.stop ≤ s.start)

/-- The number of positions of the span. -/
def Span.size (s : Span) : Nat := s.stop - s.start

instance : Membership Nat Span where
  mem s i := s.start ≤ i ∧ i < s.stop

namespace Search

/-! ## Checked numbers -/

/-- The sum of two numbers, in words that go up to `limit`. -/
def checkedAdd (limit a b : Nat) : Except Fault { c : Nat // c = a + b } :=
  if a + b ≤ limit then .ok ⟨a + b, rfl⟩ else .error .sumOverflow

/-- The difference of two numbers. -/
def checkedSub (a b : Nat) : Except Fault { c : Nat // c + b = a } :=
  if h : b ≤ a then .ok ⟨a - b, Nat.sub_add_cancel h⟩ else .error .differenceOverflow

variable {m : Type → Type} [Monad m] [MonadExceptOf Fault m]

/-! ## Partition points -/

/-- Narrows `lo..hi` to the position where `holds` turns from true to false: everything below
`lo` is known to satisfy it, everything from `hi` on is known not to. The words go up to
`limit`. -/
@[specialize] def narrow (limit : Nat) (holds : Nat → m Bool) (lo hi : Nat) : m Nat :=
  if _h : lo < hi then do
    let ⟨width, _⟩ ← liftExcept (checkedSub hi lo)
    let ⟨mid, _⟩ ← liftExcept (checkedAdd limit lo (width / 2))
    if ← holds mid then
      let ⟨next, _⟩ ← liftExcept (checkedAdd limit mid 1)
      narrow limit holds next hi
    else
      narrow limit holds lo mid
  else
    pure lo
termination_by hi - lo

/-- The first position below `len` at which `holds` is false, or `len`, provided that `holds` is
true on an initial part of the positions and false on the others. -/
@[inline] def partitionPoint (len : Nat) (holds : Nat → m Bool) : m Nat :=
  narrow len holds 0 len

/-! ## Searches for a key -/

variable {K : Type} [LT K] [DecidableLT K]

/-- The first position whose key is not below `target`. -/
@[inline] def lowerBound (len : Nat) (target : K) (keyAt : Nat → m K) : m Nat :=
  partitionPoint len fun i => do return decide ((← keyAt i) < target)

/-- The first position whose key is above `target`. -/
@[inline] def upperBound (len : Nat) (target : K) (keyAt : Nat → m K) : m Nat :=
  partitionPoint len fun i => do return decide (¬ target < (← keyAt i))

/-- The key at the position that is `i` behind `start`. -/
@[inline] def keyBehind (len start : Nat) (keyAt : Nat → m K) (i : Nat) : m K := do
  let ⟨place, _⟩ ← liftExcept (checkedAdd len start i)
  keyAt place

/-- The positions whose key is `target`. Its end is sought only from its start on; without such a
key the span is empty and lies where `target` belongs. -/
@[inline] def equalRange (len : Nat) (target : K) (keyAt : Nat → m K) : m Span := do
  let start ← lowerBound len target keyAt
  let ⟨rest, _⟩ ← liftExcept (checkedSub len start)
  let count ← upperBound rest target (keyBehind len start keyAt)
  let ⟨stop, _⟩ ← liftExcept (checkedAdd len start count)
  return ⟨start, stop⟩

/-- The first position whose key is `target`, if there is one. -/
@[inline] def find [DecidableEq K] (len : Nat) (target : K) (keyAt : Nat → m K) :
    m (Option Nat) := do
  let pos ← lowerBound len target keyAt
  if pos < len then
    return if (← keyAt pos) = target then some pos else none
  else
    return none

/-! ## Searches with three answers -/

section located

variable {m : Type → Type} [Monad m]

/-- Narrows the `size` positions from `base` on to one of them. A position that is above the right
one is left out with all behind it; one that is not is kept, and those before it are left out. -/
@[specialize] def settle (compareAt : Nat → m Ordering) (base size : Nat) : m Nat :=
  if _h : 1 < size then do
    let half := size / 2
    let mid := base + half
    if (← compareAt mid) = .gt then
      settle compareAt base (size - half)
    else
      settle compareAt mid (size - half)
  else
    pure base
termination_by size

/-- The right position below `len`, if there is one, and else as an error the position where it
would have to be inserted. At each position `compareAt` says whether that is below the right one,
is the right one, or is above it. -/
@[inline] def locate (len : Nat) (compareAt : Nat → m Ordering) : m (Except Nat Nat) :=
  if len = 0 then
    return .error 0
  else do
    let pos ← settle compareAt 0 len
    match ← compareAt pos with
    | .lt => return .error (pos + 1)
    | .eq => return .ok pos
    | .gt => return .error pos

end located

/-! ## Questions -/

/-- A question to which the answers are known. -/
def told {α : Type} (answer : Nat → α) (i : Nat) : Except Fault α := .ok (answer i)

/-- A question that is answered as `answer` does and remembers where it was asked, in order. -/
def recorded {m : Type → Type} [Monad m] {α : Type} (answer : Nat → m α) (i : Nat) :
    StateT (Array Nat) m α := do
  modify (·.push i)
  answer i

end Search

end PosDictionary
