/-!
# Flag words

The boot protocol packs yes-or-no fields into 32-bit words. A word keeps the bits that have no
name.
-/

namespace Chainload.Multiboot

/-- Whether bit `i` of the word is set. -/
def testBit (word : UInt32) (i : UInt32) : Bool :=
  (word >>> i) &&& 1 == 1

/-- The word with bit `i` set or cleared and every other bit kept. -/
def setBit (word : UInt32) (i : UInt32) (on : Bool) : UInt32 :=
  if on then word ||| (1 <<< i) else word &&& ~~~(1 <<< i)

/-! ## The flags of the image header -/

/-- What an operating system image can ask of the bootloader. -/
inductive HeaderFlag
  /-- Align modules on pages of 4 KiB. -/
  | pageAlign
  /-- Report the amount of memory and the memory map. -/
  | memoryInfo
  /-- Report the video mode table. -/
  | videoMode
  /-- The header gives the load addresses itself. -/
  | addressFields
  deriving DecidableEq, Repr

/-- The bit of a request. -/
def HeaderFlag.index : HeaderFlag → UInt32
  | .pageAlign => 0
  | .memoryInfo => 1
  | .videoMode => 2
  | .addressFields => 16

/-- The requests of an image header. -/
structure HeaderFlags where
  bits : UInt32
  deriving DecidableEq, Repr

namespace HeaderFlags

/-- No request. -/
def none : HeaderFlags := ⟨0⟩

/-- Whether a request is made. -/
def has (flags : HeaderFlags) (flag : HeaderFlag) : Bool :=
  testBit flags.bits flag.index

/-- The flags with one request made or withdrawn. -/
def set (flags : HeaderFlags) (flag : HeaderFlag) (on : Bool) : HeaderFlags :=
  ⟨setBit flags.bits flag.index on⟩

end HeaderFlags

/-! ## The flags of the information structure -/

/-- The parts of the information structure that a bootloader can fill in. -/
inductive InfoFlag
  | memory
  | bootDevice
  | commandLine
  | modules
  | aoutSymbols
  | elfSections
  | memoryMap
  | drives
  | configTable
  | loaderName
  | apmTable
  | vbe
  | framebuffer
  deriving DecidableEq, Repr

namespace InfoFlag

/-- Every named flag, in the order of the bits. -/
def all : List InfoFlag :=
  [.memory, .bootDevice, .commandLine, .modules, .aoutSymbols, .elfSections, .memoryMap, .drives,
    .configTable, .loaderName, .apmTable, .vbe, .framebuffer]

/-- The bit of a flag. -/
def index : InfoFlag → UInt32
  | .memory => 0
  | .bootDevice => 1
  | .commandLine => 2
  | .modules => 3
  | .aoutSymbols => 4
  | .elfSections => 5
  | .memoryMap => 6
  | .drives => 7
  | .configTable => 8
  | .loaderName => 9
  | .apmTable => 10
  | .vbe => 11
  | .framebuffer => 12

/-- The name that the boot protocol has for a flag. -/
def name : InfoFlag → String
  | .memory => "memory"
  | .bootDevice => "boot_device"
  | .commandLine => "cmdline"
  | .modules => "mods"
  | .aoutSymbols => "aout_syms"
  | .elfSections => "elf_shdr"
  | .memoryMap => "mmap"
  | .drives => "drives"
  | .configTable => "config_table"
  | .loaderName => "boot_loader_name"
  | .apmTable => "apm_table"
  | .vbe => "vbe"
  | .framebuffer => "framebuffer"

end InfoFlag

/-- Which parts of the information structure are filled in. -/
structure InfoFlags where
  bits : UInt32
  deriving DecidableEq, Repr

namespace InfoFlags

/-- Whether a part is filled in. -/
def has (flags : InfoFlags) (flag : InfoFlag) : Bool :=
  testBit flags.bits flag.index

/-- The flags with one part marked or unmarked. -/
def set (flags : InfoFlags) (flag : InfoFlag) (on : Bool) : InfoFlags :=
  ⟨setBit flags.bits flag.index on⟩

/-- The named flags that are set, in the order of the bits. -/
def names (flags : InfoFlags) : List InfoFlag :=
  InfoFlag.all.filter flags.has

end InfoFlags

end Chainload.Multiboot
