import Pipework.Environment.Setting
import Pipework.Log.Event

/-!
# Settings of the command line
-/

namespace Pipework.CommandLine

/-- The settings of the command line. -/
structure Settings where
  logLevel : Log.Preset
  /-- Whether documents are indented. -/
  pretty : Bool
  /-- Whether the fingerprint of a document is logged. -/
  fingerprint : Bool
  /-- Whether the log is styled for a terminal. -/
  styled : Bool
deriving DecidableEq, Repr

namespace Settings

/-- How much of the log is shown. -/
def logLevelSetting : Setting Log.Preset :=
  .preset "weirc_loglevel" (some .default)

/-- Whether documents are indented. -/
def prettySetting : Setting Bool :=
  .bool "weirc_pretty" (some true)

/-- Whether fingerprints are logged. -/
def fingerprintSetting : Setting Bool :=
  .bool "weirc_fingerprint" (some true)

/-- The log is styled unless the variable `NO_COLOR` has a value. -/
def wantsStyle (env : Environment) : Bool :=
  ((env.after? "NO_COLOR".toList).getD []).isEmpty

/-- The settings that the variables give. -/
def ofEnvironment (env : Environment) : Except LoadError Settings := do
  let given ← Setting.collect
    [logLevelSetting.slot, prettySetting.slot, fingerprintSetting.slot] .empty env.bindings
  let logLevel ← logLevelSetting.value given
  let pretty ← prettySetting.value given
  let fingerprint ← fingerprintSetting.value given
  return ⟨logLevel, pretty, fingerprint, wantsStyle env⟩

/-- The settings that the variables give, together with those of a file. -/
def load (env : Environment) (file : Option ByteArray) : Except LoadError Settings := do
  ofEnvironment (← env.withFile file)

/-- The lines of a log, as far as they are shown. -/
def logLines (s : Settings) (events : List Log.Event) : List String :=
  (s.logLevel.filterEvents events).map (Log.Event.line s.styled)

/-- The settings in writing. -/
def describe (s : Settings) : String :=
  "WeircConfig \x7b weirc_loglevel: " ++ s.logLevel.name ++ ", weirc_pretty: " ++
    toString s.pretty ++ ", weirc_fingerprint: " ++ toString s.fingerprint ++ " \x7d"

end Settings
end Pipework.CommandLine
