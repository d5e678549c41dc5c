import Chainload.Bytes

/-!
# Log records

A record is one line of diagnostics with a severity and the place it comes from. A maximum level
decides which records are written at all; `Record.line` is how one is written.
-/

namespace Chainload.Log

/-- The severities, from the gravest to the most detailed. -/
inductive Level
  | error
  | warn
  | info
  | debug
  | trace
  deriving DecidableEq, Repr

namespace Level

/-- The rank of a level: the graver, the lower. -/
def rank : Level → Nat
  | .error => 1
  | .warn => 2
  | .info => 3
  | .debug => 4
  | .trace => 5

/-- The level as a line shows it. -/
def text : Level → String
  | .error => "ERROR"
  | .warn => "WARN"
  | .info => "INFO"
  | .debug => "DEBUG"
  | .trace => "TRACE"

/-- Whether records of this level pass a maximum level. Without one nothing passes. -/
def passes (level : Level) : (limit : Option Level) → Bool
  | none => false
  | some limit => level.rank ≤ limit.rank

end Level

/-- The bytes of a text in UTF-8. -/
def textBytes (text : String) : Bytes :=
  text.toUTF8.data.toList

/-- A line of diagnostics. -/
structure Record where
  level : Level
  target : String
  message : String
  deriving DecidableEq, Repr

namespace Record

/-- The record as it is written: `[LEVEL] target: message` and a newline. -/
def line (record : Record) : String :=
  s!"[{record.level.text}] {record.target}: {record.message}\n"

/-- What a sink with room for `capacity` bytes holds after the line was written into it. Without a
capacity there is room for everything. -/
def bytesTaken (record : Record) (capacity : Option Nat) : Bytes :=
  match capacity with
  | none => textBytes record.line
  | some room => (textBytes record.line).take room

/-- Whether the whole line found room. -/
def isTakenWhole (record : Record) (capacity : Option Nat) : Bool :=
  match capacity with
  | none => true
  | some room => (textBytes record.line).length ≤ room

end Record

/-- The text of all records that pass the maximum level, in their order. -/
def text (limit : Option Level) (records : List Record) : String :=
  String.join ((records.filter (·.level.passes limit)).map Record.line)

end Chainload.Log
