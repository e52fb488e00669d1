import PosDictionary.Error
import PosDictionary.Fault

/-!
# Failures: errors and faults together

An operation that both judges data and reads it may end in an `Error`, which is an answer about the
data, or in a `Fault`, which is a breach of contract. `ofError` and `ofFault` place the results of
its parts.
-/

namespace PosDictionary

/-- Why an operation gave no value. -/
inductive Failure where
  /-- What the operation was given is refused. -/
  | error (e : Error)
  /-- The operation was called outside its contract. -/
  | fault (f : Fault)
deriving DecidableEq, Repr

namespace Failure

/-- A result that may be an error, among results that may be failures. -/
def ofError {α : Type} : Except Error α → Except Failure α
  | .ok a => .ok a
  | .error e => .error (.error e)

/-- A result that may be a fault, among results that may be failures. -/
def ofFault {α : Type} : Except Fault α → Except Failure α
  | .ok a => .ok a
  | .error f => .error (.fault f)

@[simp] theorem ofError_ok {α : Type} (a : α) : ofError (.ok a) = .ok a := rfl

@[simp] theorem ofError_error {α : Type} (e : Error) :
    ofError (.error e : Except Error α) = .error (.error e) := rfl

@[simp] theorem ofFault_ok {α : Type} (a : α) : ofFault (.ok a) = .ok a := rfl

@[simp] theorem ofFault_error {α : Type} (f : Fault) :
    ofFault (.error f : Except Fault α) = .error (.fault f) := rfl

end Failure

end PosDictionary
