/-
# Terminal colours

The palette shared by every renderer of the toolchain: dumps, diagnostics and
traces. It uses the sixteen standard colours only, so that output reads alike on
light and dark terminals. Turned off, every entry is empty and painting is the
identity.
-/

namespace Statechart.Text

/-- Escape sequences by role. -/
structure Palette where
  /-- Section headers and state names. -/
  blue : String
  /-- Ids and hashes. -/
  green : String
  /-- Warnings and conflicts. -/
  yellow : String
  /-- Errors. -/
  red : String
  /-- Structure and secondary fields. -/
  dim : String
  /-- Back to the terminal's own colour. -/
  reset : String
  deriving DecidableEq, Repr

namespace Palette

/-- Coloured output. -/
def on : Palette where
  blue := "\x1b[34m"
  green := "\x1b[32m"
  yellow := "\x1b[33m"
  red := "\x1b[31m"
  dim := "\x1b[2m"
  reset := "\x1b[0m"

/-- Plain output: no escape sequence is written. -/
def off : Palette where
  blue := ""
  green := ""
  yellow := ""
  red := ""
  dim := ""
  reset := ""

/-- The palette for a renderer whose caller asks for colour or not. -/
def ofBool (colored : Bool) : Palette :=
  if colored then on else off

/-- `text` in `color`, followed by a reset. -/
def paint (palette : Palette) (color text : String) : String :=
  color ++ text ++ palette.reset

/-- Without colour, painting changes nothing. -/
theorem off_paint (text : String) : off.paint off.red text = text := by
  simp [paint, off]

end Palette

end Statechart.Text
