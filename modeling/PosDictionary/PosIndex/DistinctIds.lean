import PosDictionary.Cursor
import PosDictionary.TokenRecord

/-!
# Distinct POS ids

The POS indices of a sequence of records, with neighbours that are equal given only once. When the
records are in the order of their POS, these are the ids that occur, ascending and each once.
-/

namespace PosDictionary

/-- The POS ids still to come. -/
structure DistinctIds where
  /-- The records not looked at yet. -/
  records : Cursor TokenRecord
  /-- The id given last. -/
  last : Option UInt16

namespace DistinctIds

/-- The ids of all records that a cursor has left. -/
def ofRecords (records : Cursor TokenRecord) : DistinctIds := ⟨records, none⟩

/-- Takes the next id: that of the first record whose POS differs from the id given last. -/
def next (d : DistinctIds) : Option UInt16 × DistinctIds :=
  match _h : d.records.next with
  | (none, records) => (none, { d with records })
  | (some r, records) =>
    if d.last = some r.posIndex then
      next { d with records }
    else
      (some r.posIndex, ⟨records, some r.posIndex⟩)
termination_by d.records.len
decreasing_by exact Cursor.len_next _h

/-- An id that is given takes at least one record. -/
theorem len_next (d : DistinctIds) {id : UInt16} {rest : DistinctIds}
    (given : d.next = (some id, rest)) : rest.records.len < d.records.len := by
  fun_induction next d with
  | case1 d records h => simp at given
  | case2 d r records h hlast ih => exact Nat.lt_trans (ih given) (Cursor.len_next h)
  | case3 d r records h hlast =>
    simp only [Prod.mk.injEq] at given
    obtain ⟨-, rfl⟩ := given
    exact Cursor.len_next h

/-- Passes over `n` ids and takes the one behind them. -/
def nth (d : DistinctIds) : Nat → Option UInt16 × DistinctIds
  | 0 => d.next
  | n + 1 =>
    match d.next with
    | (none, rest) => (none, rest)
    | (some _, rest) => rest.nth n

/-- Takes all ids that are left, behind the ids `taken`. -/
def collect (d : DistinctIds) (taken : Array UInt16) : Array UInt16 × DistinctIds :=
  match _h : d.next with
  | (none, rest) => (taken, rest)
  | (some id, rest) => rest.collect (taken.push id)
termination_by d.records.len
decreasing_by exact len_next d _h

/-- The ids that are left. -/
def toList (d : DistinctIds) : List UInt16 := (d.collect #[]).1.toList

/-- Carries out a request. At most as many ids are left as records. -/
def answer (d : DistinctIds) : Request → Answer UInt16 × DistinctIds
  | .next => let (id, rest) := d.next; (.item id, rest)
  | .nth n => let (id, rest) := d.nth n; (.item id, rest)
  | .hint => (.hint 0 d.records.len, d)
  | .rest => let (ids, rest) := d.collect #[]; (.items ids.toList, rest)
  | .preview => (.items d.toList, d)

/-- The answers to a script, in order. -/
def run (d : DistinctIds) : List Request → List (Answer UInt16)
  | [] => []
  | request :: script =>
    let (answer, rest) := d.answer request
    answer :: rest.run script

end DistinctIds

end PosDictionary
