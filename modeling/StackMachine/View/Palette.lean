import StackMachine.Screen

/-! The colours of the inspector and the styles that its panes share. -/
namespace StackMachine.Palette

def fg : Color := .rgb 0xCDD6F4
def primary : Color := .rgb 0x89B4FA
def secondary : Color := .rgb 0xFAB387
def comment : Color := .rgb 0x6C7086
def success : Color := .rgb 0xA6E3A1
def error : Color := .rgb 0xF38BA8
def keyword : Color := .rgb 0x89B4FA
def number : Color := .rgb 0xFAB387
def focusedBorder : Color := .rgb 0xF9E2AF
def normalBorder : Color := .rgb 0x6C7086
def currentLine : Color := .rgb 0x323246
def function : Color := .rgb 0xF9E2AF
def mutedFunction : Color := .rgb 0xB4A578
def typeName : Color := .rgb 0x94E2D5
def returnValue : Color := .rgb 0xF5C2E7

def plain (color : Color) : Style := { fg := color }

def bold (color : Color) : Style := { fg := color, bold := true }

def badge (color : Color) : Style := { fg := Color.black, bg := color, bold := true }

def borderStyle (focused : Bool) : Style :=
  if focused then bold focusedBorder else plain normalBorder

end StackMachine.Palette
