import Chainload.Chain.Fault
import Chainload.Chain.Setup

/-!
# Placing stages in memory

An embedded image is loaded from where it is. A module is copied to the scratch region first and
loaded from there, so that the memory it came in may be overwritten.
-/

namespace Chainload.Chain

open Elf Multiboot

/-- The name under which a chain logs. -/
def logTarget : String := "boot_chain::chainer"

/-- Logs a line of the chain. -/
def note {ε : Type} (level : Log.Level) (message : String) : Action ε Unit :=
  Action.log level logTarget message

/-- Asks memory for an access on behalf of a chain. -/
def request (access : Request) : Action Fault Unit :=
  (Action.request access).mapError fun range => .load (.memory range)

namespace Setup

/-- Loads an image with the chain's loader. -/
def load (setup : Setup) (image : Image) : Action Fault Entry :=
  (setup.loader.load image).mapError .load

/-- Loads an image that is part of the running stage. -/
def placeImage (setup : Setup) (image : Bytes) : Action Fault Entry := do
  note .debug s!"Loading embedded image of {image.length} bytes"
  setup.load (.file image)

/-- The line that announces a module. -/
def stagingMessage (setup : Setup) (extent : Extent) : String :=
  let start := Numeral.hex extent.start.toNat
  let stop := Numeral.hex extent.stop.toNat
  let scratch := Numeral.hex setup.scratch.start.toNat
  s!"Staging module {start}..{stop} ({extent.length.toNat} bytes) at {scratch}"

/-- Copies a module to the scratch region and returns the image it makes there. A strict chain
refuses a module for which there is no room. -/
def stage (setup : Setup) (extent : Extent) : Action Fault Image := do
  let scratch := setup.scratch
  if setup.loader.validation.isStrict && scratch.len < extent.length then
    throw (.noRoom extent.length scratch.len)
  note .info (setup.stagingMessage extent)
  request (.move scratch.start extent.start extent.length)
  request (.view scratch.start extent.length)
  return .view scratch.start extent.length

/-- Stages and loads the first module. -/
def placeModule (setup : Setup) (modules : Modules) : Action Fault Entry := do
  let some extent := modules.first? (← Action.ram) | throw .noModule
  setup.load (← setup.stage extent)

/-- Loads the kernel from where the setup says. -/
def placeKernel (setup : Setup) (modules : Modules) : Action Fault Entry :=
  match setup.kernel with
  | .embedded image => setup.placeImage image
  | .fromModule => setup.placeModule modules

end Setup

end Chainload.Chain
