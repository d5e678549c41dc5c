/-!
# Colors and styles

Every cell of the text screen has a style byte: four bits of foreground color, three of
background color and one that makes the cell blink.
-/

namespace Chainload.Screen

/-- The colors of the palette, the eight dark ones first. -/
inductive Color
  | black
  | blue
  | green
  | cyan
  | red
  | magenta
  | brown
  | lightGray
  | darkGray
  | lightBlue
  | lightGreen
  | lightCyan
  | lightRed
  | pink
  | yellow
  | white
  deriving DecidableEq, Repr

namespace Color

/-- All colors, in the order of their numbers. -/
def palette : Vector Color 16 :=
  #v[.black, .blue, .green, .cyan, .red, .magenta, .brown, .lightGray, .darkGray, .lightBlue,
    .lightGreen, .lightCyan, .lightRed, .pink, .yellow, .white]

/-- The color whose number is in the low four bits. -/
def ofBits (bits : UInt8) : Color :=
  palette.get ⟨bits.toNat % 16, Nat.mod_lt _ (by decide)⟩

/-- The number of a color. -/
def bits : Color → UInt8
  | .black => 0
  | .blue => 1
  | .green => 2
  | .cyan => 3
  | .red => 4
  | .magenta => 5
  | .brown => 6
  | .lightGray => 7
  | .darkGray => 8
  | .lightBlue => 9
  | .lightGreen => 10
  | .lightCyan => 11
  | .lightRed => 12
  | .pink => 13
  | .yellow => 14
  | .white => 15

/-- The name of a color. -/
def name : Color → String
  | .black => "Black"
  | .blue => "Blue"
  | .green => "Green"
  | .cyan => "Cyan"
  | .red => "Red"
  | .magenta => "Magenta"
  | .brown => "Brown"
  | .lightGray => "LightGray"
  | .darkGray => "DarkGray"
  | .lightBlue => "LightBlue"
  | .lightGreen => "LightGreen"
  | .lightCyan => "LightCyan"
  | .lightRed => "LightRed"
  | .pink => "Pink"
  | .yellow => "Yellow"
  | .white => "White"

@[simp] theorem ofBits_bits (color : Color) : ofBits color.bits = color := by
  cases color <;> rfl

end Color

/-- The style byte of a cell. -/
structure Style where
  bits : UInt8
  deriving DecidableEq, Repr

namespace Style

/-- Light gray on black. -/
def standard : Style := ⟨0x07⟩

/-- The foreground color. -/
def foreground (style : Style) : Color :=
  .ofBits (style.bits &&& 0x0F)

/-- The background color, one of the eight dark ones. -/
def background (style : Style) : Color :=
  .ofBits ((style.bits >>> 4) &&& 0x07)

/-- Whether the cell blinks. -/
def blinks (style : Style) : Bool :=
  style.bits &&& 0x80 != 0

/-- The style with another foreground color. -/
def withForeground (style : Style) (color : Color) : Style :=
  ⟨(style.bits &&& 0xF0) ||| color.bits⟩

/-- The style with another background color, a light one darkened. -/
def withBackground (style : Style) (color : Color) : Style :=
  ⟨(style.bits &&& 0x8F) ||| ((color.bits &&& (0x07 : UInt8)) <<< (4 : UInt8))⟩

/-- The style with blinking turned on or off. -/
def withBlink (style : Style) (on : Bool) : Style :=
  ⟨(style.bits &&& 0x7F) ||| (if on then 0x80 else 0)⟩

/-- The style with two colors that does not blink. -/
def ofColors (foreground background : Color) : Style :=
  (standard.withForeground foreground).withBackground background

end Style

end Chainload.Screen
