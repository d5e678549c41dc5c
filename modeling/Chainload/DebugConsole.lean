import Chainload.Log

/-!
# The debug console

Bytes written to the I/O address of the debug console show up on the host. An `OutByte` is one such
byte; text goes out as its UTF-8 bytes, and a logger sends the lines of the records that pass its
maximum level.
-/

namespace Chainload.DebugConsole

/-- One byte sent to an I/O address. -/
structure OutByte where
  address : UInt16
  byte : UInt8
  deriving DecidableEq, Repr

/-- The I/O address that the console listens on unless told otherwise. -/
def standardAddress : UInt16 := 0x402

/-- Sends the bytes of a text to an I/O address. -/
def send (address : UInt16) (text : String) : List OutByte :=
  (Log.textBytes text).map (OutByte.mk address)

/-- Sends a text to the standard address, whatever address a logger uses. -/
def trace (text : String) : List OutByte :=
  send standardAddress text

/-- A console that shows log records up to a maximum level. -/
structure Logger where
  address : UInt16
  limit : Option Log.Level
  deriving DecidableEq, Repr

/-- What the logger sends for a record. -/
def Logger.log (logger : Logger) (record : Log.Record) : List OutByte :=
  if record.level.passes logger.limit then send logger.address record.line else []

end Chainload.DebugConsole
