import PosDictionary.UserEntry

/-!
# Events and traced computations

An operation may report what it did. An `Event` is one report; a `Traced` computation comes with
the events it reported, in order, whether or not it gave a value.
-/

namespace PosDictionary

/-- The part of the library that reports an event. -/
inductive Event.Origin where
  /-- The engine that answers queries. -/
  | engine
  /-- The expansion of a user's vocabulary. -/
  | expansion
  /-- The builder of dictionary data. -/
  | builder
deriving DecidableEq, Repr

/-- How much an event matters. -/
inductive Event.Level where
  /-- It tells of a step of the life of a dictionary. -/
  | debug
  /-- It tells of a single query. -/
  | trace
deriving DecidableEq, Repr

/-- A report of what happened. -/
inductive Event where
  /-- Dictionary data was opened. -/
  | loaded (records strings pos : Nat)
  /-- A query named a POS that is not there. -/
  | unknownPos (pos : String)
  /-- An entry was not looked up, since a part of its stem is empty. -/
  | skipped (entry : UserEntry)
  /-- An entry gave no tokens. -/
  | unmatched (entry : UserEntry)
  /-- Dictionary data was built. -/
  | built (pos records strings tokenBytes stringBytes : Nat)
deriving DecidableEq, Repr

namespace Event

/-- The part that reports an event. -/
def origin : Event → Origin
  | .loaded .. => .engine
  | .unknownPos _ => .engine
  | .skipped _ => .expansion
  | .unmatched _ => .expansion
  | .built .. => .builder

/-- The weight of an event. -/
def level : Event → Level
  | .loaded .. => .debug
  | .built .. => .debug
  | .unknownPos _ => .trace
  | .skipped _ => .trace
  | .unmatched _ => .trace

/-- The text of an event. -/
def message : Event → String
  | .loaded records strings pos =>
    s!"loaded user POS dictionary: {records} records, {strings} strings, {pos} POS"
  | .unknownPos pos => "unknown POS " ++ Text.quoted pos
  | .skipped entry => "skipping user entry with empty key or value: " ++ entry.describe
  | .unmatched entry => "no tokens for user entry " ++ entry.describe
  | .built pos records strings tokenBytes stringBytes =>
    s!"built user POS dictionary: {pos} POS, {records} records, {strings} strings " ++
      s!"({tokenBytes} + {stringBytes} bytes)"

end Event

/-- A computation that reports events and may fail with an `ε`. -/
structure Traced (ε α : Type) where
  /-- How it ended. -/
  outcome : Except ε α
  /-- What it reported, first to last. -/
  events : List Event

namespace Traced

variable {ε α β : Type}

/-- A value, without any event. -/
protected def pure (a : α) : Traced ε α := ⟨.ok a, []⟩

/-- First one computation, then the one that its value leads to. -/
protected def bind (x : Traced ε α) (f : α → Traced ε β) : Traced ε β :=
  match x.outcome with
  | .ok a => ⟨(f a).outcome, x.events ++ (f a).events⟩
  | .error e => ⟨.error e, x.events⟩

instance : Monad (Traced ε) where
  pure := Traced.pure
  bind := Traced.bind

/-- A result that reports nothing. -/
def ofExcept (x : Except ε α) : Traced ε α := ⟨x, []⟩

/-- The report of an event. -/
def emit (event : Event) : Traced ε Unit := ⟨.ok (), [event]⟩

end Traced

end PosDictionary
