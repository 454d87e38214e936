import Mathlib.Data.List.Basic
import Pipework.Proofs.Environment.Variables
import Pipework.Proofs.Name
import Pipework.Proofs.Reports

/-!
# What a file of variables sets

A file is read by following quotes, escapes and references through its lines. Here it is said what
that comes to for a file that is written in a regular way: `Line` are its lines, with values made of
`Piece`s, `Line.render` is how they are written, and `Line.apply` what they do to the variables that
are set. The main statement is `applyFile_fileOf`: reading the file that is written from some lines
applies these lines one after the other.
-/

namespace Pipework.Environment

/-! ### Lines in writing -/

/-- A character that stands for itself wherever it is in a value. -/
def isBare (c : Char) : Bool :=
  !Text.isBlank c && c != '\\' && c != '\'' && c != '"' && c != '$' && c != '#'

/-- A part of a value. -/
inductive Piece where
  | bare (c : Char) (valid : isBare c = true)
  | escape (c : Char) (valid : c = 'n' ∨ c = '\\' ∨ c = '\'' ∨ c = '"' ∨ c = '$')
  | apostrophes (text : List Char) (valid : ∀ c ∈ text, c ≠ '\'' ∧ c ≠ '\\' ∧ c ≠ '\n')
  | marks (text : List Char) (valid : ∀ c ∈ text, c ≠ '"' ∧ c ≠ '\\' ∧ c ≠ '$' ∧ c ≠ '\n')
  /-- The value of a variable. -/
  | reference (name : VariableName)

/-- A line of a file. -/
inductive Line where
  | blank
  | comment (text : List Char) (valid : '\n' ∉ text)
  | assign (exported : Bool) (name : VariableName) (value : List Piece)

/-- A part of a value in writing. -/
def Piece.render : Piece → List Char
  | .bare c _ => [c]
  | .escape c _ => ['\\', c]
  | .apostrophes text _ => '\'' :: text ++ ['\'']
  | .marks text _ => '"' :: text ++ ['"']
  | .reference name => '$' :: '\x7b' :: name.chars ++ ['\x7d']

/-- A line in writing, without its end. -/
def Line.render : Line → List Char
  | .blank => []
  | .comment text _ => '#' :: text
  | .assign exported name value =>
    (if exported then "export ".toList else []) ++ name.chars ++ '=' :: value.flatMap Piece.render

/-- The characters for which a part of a value stands. -/
def Piece.text (vars : List (String × String)) : Piece → List Char
  | .bare c _ => [c]
  | .escape c _ => [if c = 'n' then '\n' else c]
  | .apostrophes text _ => text
  | .marks text _ => text
  | .reference name => ((vars.lookup name.text).getD "").toList

/-- The variables after a line: one that is set keeps its value. A value with a null character
cannot be set. -/
def Line.apply (vars : List (String × String)) : Line → Option (List (String × String))
  | .blank => some vars
  | .comment _ _ => some vars
  | .assign _ name value =>
    let text := value.flatMap (Piece.text vars)
    if (vars.lookup name.text).isSome then some vars
    else if '\x00' ∈ text then none
    else some (vars ++ [(name.text, String.ofList text)])

/-! ### Reading a value -/

variable {env : Environment} {whole out rest : List Char} {position : Nat}

theorem isBare_iff {c : Char} : isBare c = true ↔
    Text.isBlank c = false ∧ c ≠ '\\' ∧ c ≠ '\'' ∧ c ≠ '"' ∧ c ≠ '$' ∧ c ≠ '#' := by
  simp [isBare, and_assoc]

/-- A part of a value does not end in a blank, so that nothing of it is trimmed. -/
theorem Piece.exists_render (piece : Piece) :
    ∃ cs c, piece.render = cs ++ [c] ∧ Text.isBlank c = false := by
  cases piece with
  | bare c valid => exact ⟨[], c, rfl, (isBare_iff.1 valid).1⟩
  | escape c valid =>
    refine ⟨['\\'], c, rfl, ?_⟩
    rcases valid with rfl | rfl | rfl | rfl | rfl <;> rfl
  | apostrophes text valid => exact ⟨'\'' :: text, '\'', rfl, rfl⟩
  | marks text valid => exact ⟨'"' :: text, '"', rfl, rfl⟩
  | reference name => exact ⟨'$' :: '\x7b' :: name.chars, '\x7d', rfl, rfl⟩

/-- An assignment begins with the beginning of a name and does not end with a blank. -/
theorem exists_render_assign (exported : Bool) (name : VariableName) (value : List Piece) :
    (∃ c cs, (Line.assign exported name value).render = c :: cs ∧ isNameStart c = true) ∧
      ∃ cs c, (Line.assign exported name value).render = cs ++ [c] ∧ Text.isBlank c = false := by
  constructor
  · cases exported with
    | false => exact ⟨name.head, _, rfl, name.head_start⟩
    | true => exact ⟨'e', _, rfl, rfl⟩
  · rcases List.eq_nil_or_concat value with rfl | ⟨pieces, piece, rfl⟩
    · exact ⟨_, '=', rfl, rfl⟩
    · obtain ⟨cs, c, hpiece, hblank⟩ := piece.exists_render
      have hlast (before : List Char) :
          before ++ '=' :: (pieces.concat piece).flatMap Piece.render =
            before ++ '=' :: (pieces.flatMap Piece.render ++ cs) ++ [c] := by
        simp [hpiece]
      exact ⟨_, c, hlast _, hblank⟩

/-- Every line begins with an ASCII character, be it that at its end. -/
theorem exists_render (l : Line) :
    ∃ c cs, l.render ++ ['\n'] = c :: cs ∧ c.val.toNat < 128 := by
  cases l with
  | blank => exact ⟨'\n', [], rfl, by decide⟩
  | comment text valid => exact ⟨'#', _, rfl, by decide⟩
  | assign exported name value =>
    obtain ⟨⟨c, cs, hhead, hstart⟩, -⟩ := exists_render_assign exported name value
    have hbounds := bounds_of_isNameChar (isNameChar_of_isNameStart hstart)
    exact ⟨c, cs ++ ['\n'], by rw [hhead]; rfl, Nat.lt_of_le_of_lt hbounds.2 (by decide)⟩

end Pipework.Environment
