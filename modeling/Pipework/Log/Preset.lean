import Pipework.Codec.Choice

/-!
# Log levels and presets

A preset chooses, for every part of the program, the least important events that are still shown.
-/

namespace Pipework.Log

/-- The importance of an event. -/
inductive Level where
  | trace
  | debug
  | info
  | warn
deriving DecidableEq, Repr

namespace Level

/-- A number that grows with importance. -/
def rank : Level → Nat
  | .trace => 0
  | .debug => 1
  | .info => 2
  | .warn => 3

/-- The name of a level in a filter. -/
def name : Level → String
  | .trace => "trace"
  | .debug => "debug"
  | .info => "info"
  | .warn => "warn"

/-- The name of a level in front of an event, five characters wide. -/
def label : Level → String
  | .trace => "TRACE"
  | .debug => "DEBUG"
  | .info => " INFO"
  | .warn => " WARN"

end Level

/-- How much of the log is shown. -/
inductive Preset where
  | default
  | verbose
  | develop
  | trace
deriving DecidableEq, Repr, Inhabited

/-- The least level shown for the command line, the compiler, its stages, documents, and all
else. -/
structure Levels where
  cli : Level
  compiler : Level
  stages : Level
  document : Level
  other : Level
deriving DecidableEq, Repr

namespace Preset

/-- The name of a preset. -/
def name : Preset → String
  | .default => "Default"
  | .verbose => "Verbose"
  | .develop => "Develop"
  | .trace => "Trace"

/-- The levels of a preset. -/
def levels : Preset → Levels
  | .default => ⟨.info, .info, .warn, .warn, .warn⟩
  | .verbose => ⟨.debug, .debug, .info, .info, .warn⟩
  | .develop => ⟨.trace, .trace, .debug, .debug, .debug⟩
  | .trace => ⟨.trace, .trace, .trace, .trace, .trace⟩

/-- The filter of a preset: levels by the beginning of the name of a part. -/
def filter (p : Preset) : List (String × Level) :=
  let l := p.levels
  [("weirc", l.cli), ("weir_compiler::stage", l.stages), ("weir_compiler", l.compiler),
    ("weir_ir", l.document), ("weir_util", l.document)]

/-- The filter in writing. -/
def directives (p : Preset) : String :=
  ",".intercalate (p.filter.map (fun (part, level) ↦ part ++ "=" ++ level.name) ++
    [p.levels.other.name])

/-- Whether events of a level from a part of the program are shown. Of the entries that the part's
name begins with, the longest decides. -/
def shows (p : Preset) (level : Level) (part : String) : Bool :=
  let entries := p.filter.filter fun (start, _) ↦ start.toList.isPrefixOf part.toList
  let best := entries.foldl
    (fun (best : Nat × Level) (start, l) ↦
      if best.1 < start.length then (start.length, l) else best)
    (0, p.levels.other)
  best.2.rank ≤ level.rank

end Preset
end Pipework.Log

/-- Presets. -/
def Pipework.Codec.preset : Codec Log.Preset :=
  names Log.Preset.name [.default, .verbose, .develop, .trace]
