import Pipework.Log.Preset
import Pipework.Text.Quoted

/-!
# Events of the log

An event is written on a line: its level, the part of the program, the message and the facts. The
line may be styled for a terminal, which changes its look and none of its words.
-/

namespace Pipework.Log

/-- Something that happened in a part of the program, and facts about it. -/
structure Event where
  level : Level
  part : String
  message : String
  facts : List (String × String)
deriving DecidableEq, Repr

/-- The looks of a piece of text: the color of a level, or a font. -/
inductive Style where
  | level (level : Level)
  | dimmed
  | italic
deriving DecidableEq, Repr

/-- The number by which a terminal knows a style. -/
def Style.code : Style → Nat
  | .level .trace => 35
  | .level .debug => 34
  | .level .info => 32
  | .level .warn => 33
  | .dimmed => 2
  | .italic => 3

/-- A text in a style, or as it is. -/
def Style.paint (styled : Bool) (style : Style) (text : String) : String :=
  if styled then "\x1b[" ++ toString style.code ++ "m" ++ text ++ "\x1b[0m" else text

/-- The line of an event. -/
def Event.line (styled : Bool) (e : Event) : String :=
  (Style.level e.level).paint styled e.level.label ++ " " ++ Style.dimmed.paint styled e.part ++
    Style.dimmed.paint styled ":" ++ " " ++ e.message ++
    String.join (e.facts.map fun (name, value) ↦
      " " ++ Style.italic.paint styled name ++ Style.dimmed.paint styled "=" ++ value)

/-- The events that a preset shows. -/
def Preset.filterEvents (p : Preset) (events : List Event) : List Event :=
  events.filter fun e ↦ p.shows e.level e.part

end Pipework.Log
