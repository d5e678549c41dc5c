/-!
# ELF classes

The class of a file decides how wide its header fields are and hence where they lie.
-/

namespace Chainload.Elf

/-- The two layouts of an ELF file. -/
inductive Class
  | elf32
  | elf64
  deriving DecidableEq, Repr

namespace Class

/-- Kernels are 64-bit files unless a configuration says otherwise. -/
instance : Inhabited Class :=
  ⟨.elf64⟩

/-- The class byte of the identification. -/
def ident : Class → UInt8
  | .elf32 => 1
  | .elf64 => 2

/-- The size of the file header in bytes. -/
def headerSize : Class → UInt64
  | .elf32 => 52
  | .elf64 => 64

/-- The size of a program header in bytes, which is also the distance between two of them. -/
def stride : Class → UInt64
  | .elf32 => 32
  | .elf64 => 56

/-- The size of a program header as the file header states it. -/
def entrySize (cls : Class) : UInt16 :=
  cls.stride.toUInt16

/-- The class as diagnostics show it. -/
def text : Class → String
  | .elf32 => "ELF32"
  | .elf64 => "ELF64"

end Class

end Chainload.Elf
