import Pipework.Proofs.Compile.Values
import Pipework.Proofs.Compile.Valid
import Pipework.Proofs.Double.Exact

/-!
# Defaults of runtime parameters

A declared default may be written as another kind of literal than the kind of its parameter: truth
values stand for integers, and integers for doubles. `Literal.HasKind` says which literals a
parameter of a kind takes, with a condition on integers that does not mention doubles, and
`Literal.Denotes` which value stands for which literal. The value that is stored for a default
has the kind of the parameter and stands for the literal (`stored_of_defaultValue`); since nothing
else in a document can have a default that is not a text, every runtime parameter of a compiled
document is of its own kind.
-/

namespace Pipework

/-- The default, if there is one, has the kind of the parameter. -/
def RuntimeParameter.IsTyped (p : RuntimeParameter) : Prop :=
  ∀ v, p.default = some v → v.kind = p.kind

theorem RuntimeParameter.isTyped_text (name : String) : (text name).IsTyped := by
  intro v hv
  cases hv

namespace Declaration

/-! ### Literals and values -/

/-- The literals that a parameter of a kind takes. -/
def Literal.HasKind (v : Literal) : ScalarKind → Prop
  | .int => (∃ b, v = .bool b) ∨ ∃ n, v = .int n
  | .double => (∃ x, v = .double x) ∨
    ∃ n, v = .int n ∧ ∃ (m : Int) (k : Nat), n.toInt = m * 2 ^ k ∧ m.natAbs ≤ 2 ^ 53
  | .string => ∃ s, v = .string s

/-- A value stands for a literal. -/
inductive Literal.Denotes : Literal → FieldValue → Prop
  | false : Denotes (.bool false) (.int 0)
  | true : Denotes (.bool true) (.int 1)
  | int (n : Int64) : Denotes (.int n) (.int n)
  | double (x : Double) : Denotes (.double x) (.double x)
  | string (s : String) : Denotes (.string s) (.string s)
  | integral {n : Int64} {x : Double} (finite : x.isFinite = true) (value : x.toRat = n.toInt) :
    Denotes (.int n) (.double x)

/-- A literal denotes the field value that it is converted to. -/
theorem Literal.denotes_toField (v : Literal) : v.Denotes v.toField := by
  rcases v with b | n | x | s
  · cases b
    · exact .false
    · exact .true
  · exact .int n
  · exact .double x
  · exact .string s

/-- Integers of 64 bits are far from the largest double. -/
theorem log2_natAbs_toInt_lt (n : Int64) : n.toInt.natAbs.log2 < 1022 := by
  have hlower := Int64.le_toInt n
  have hupper := Int64.toInt_lt n
  by_cases hzero : n.toInt.natAbs = 0
  · rw [hzero, Nat.log2_zero]
    decide
  · exact ((Nat.log2_lt (k := 64) hzero).2 (by omega)).trans (by decide)

/-- An integer is taken as a double if it is one. -/
theorem Literal.fits_iff_hasKind {v : Literal} {kind : ScalarKind} :
    v.fits kind = true ↔ v.HasKind kind := by
  cases kind <;> cases v
  case double.int n =>
    have hfits : (Literal.int n).fits .double = true ↔
        (Double.ofInt n.toInt).truncate = n.toInt := decide_eq_true_iff
    rw [hfits, Double.truncate_ofInt_eq_iff (log2_natAbs_toInt_lt n),
      Double.toRat_ofInt_eq_iff (log2_natAbs_toInt_lt n)]
    simp [HasKind]
  all_goals simp [fits, HasKind]

/-! ### Declared defaults -/

/-- **The value that is stored for a default.** -/
theorem stored_of_defaultValue {kind : ScalarKind} {v : Literal} {w : FieldValue}
    (h : Pipeline.defaultValue kind v = .ok w) : w.kind = kind ∧ v.Denotes w := by
  unfold Pipeline.defaultValue at h
  split at h
  next n =>
    dsimp only at h
    split at h
    next hexact =>
      cases h
      exact ⟨rfl, .integral (Double.isFinite_ofInt n)
        ((Double.truncate_ofInt_eq_iff (log2_natAbs_toInt_lt n)).1 hexact)⟩
    next => cases h
  next =>
    split at h
    next hkind =>
      cases h
      exact ⟨hkind, v.denotes_toField⟩
    next => cases h

variable {id : NodeId} {key : String} {p : RuntimeParameter}

/-- **A runtime parameter is resolved** unless its default value has another kind. -/
theorem exists_parameterValue_iff :
    (∃ value, Pipeline.parameterValue id key (.runtime p) = .ok value) ↔
      ∀ v, p.default = some v → v.HasKind p.kind := by
  rw [(Pipeline.reports_parameterValue id key (.runtime p)).exists_ok_iff, Parameter.violations]
  rcases p.default with - | v
  · simp
  · simp [← Literal.fits_iff_hasKind]

/-- **The default value is stored as a value of the declared kind** which the declared value
denotes. -/
theorem stored_of_parameterValue {value : Value}
    (h : Pipeline.parameterValue id key (.runtime p) = .ok value) :
    ∃ default, value = .runtime ⟨p.name, p.kind, default⟩ ∧
      Option.Rel (fun v w ↦ w.kind = p.kind ∧ v.Denotes w) p.default default := by
  rw [Pipeline.parameterValue] at h
  rcases hdefault : p.default with - | v
  · simp only [hdefault] at h
    cases h
    exact ⟨none, rfl, .none⟩
  · rcases hvalue : Pipeline.defaultValue p.kind v with found | w
    · simp [hdefault, hvalue] at h
    · simp only [hdefault, hvalue] at h
      cases h
      exact ⟨some w, rfl, .some (stored_of_defaultValue hvalue)⟩

/-- The only error is that of a default value of another kind, and names both kinds. -/
theorem mismatch_of_parameterValue {e : CompileError}
    (h : Pipeline.parameterValue id key (.runtime p) = .error e) :
    ∃ v, p.default = some v ∧ e = .defaultMismatch id key p.kind v.toField.kind := by
  rw [(Pipeline.reports_parameterValue id key (.runtime p)).eq_error_iff,
    Parameter.violations] at h
  rcases hdefault : p.default with - | v
  · simp [hdefault] at h
  · simp only [hdefault] at h
    split at h
    · cases h
    · exact ⟨v, rfl, (Option.some.inj h).symm⟩

/-- Whatever is resolved to a runtime parameter has a default value of its own kind. -/
theorem isTyped_of_parameterValue {a : Parameter} {r : Pipework.RuntimeParameter}
    (h : Pipeline.parameterValue id key a = .ok (.runtime r)) : r.IsTyped := by
  rcases a with v | p
  · cases h
  · obtain ⟨default, heq, hdefault⟩ := stored_of_parameterValue h
    cases heq
    rintro w rfl
    generalize p.default = declared at hdefault
    rcases hdefault with hw | -
    exact hw.1

/-- **Defaults have the kind of their parameter and stand for what is declared.** A default is
taken exactly if it has the kind of its parameter, and otherwise its own kind is reported. In a
compiled document no runtime parameter, wherever it stands, has a default of another kind. -/
theorem runtime_defaults_typed :
    (∀ (id : NodeId) (key : String) (p : RuntimeParameter),
      ((∃ value, Pipeline.parameterValue id key (.runtime p) = .ok value) ↔
          ∀ v, p.default = some v → v.HasKind p.kind) ∧
        (∀ value, Pipeline.parameterValue id key (.runtime p) = .ok value →
          ∃ default, value = .runtime ⟨p.name, p.kind, default⟩ ∧
            Option.Rel (fun v w ↦ w.kind = p.kind ∧ v.Denotes w) p.default default) ∧
        ∀ e, Pipeline.parameterValue id key (.runtime p) = .error e →
          ∃ v, p.default = some v ∧ e = .defaultMismatch id key p.kind v.toField.kind) ∧
      ∀ (d : Declaration) (m : Deployment) (options : CompileOptions) (report : CompileReport),
        d.compile m options = .ok report →
          ∀ p, .runtime p ∈ report.document.values → p.IsTyped := by
  refine ⟨fun id key p ↦ ⟨exists_parameterValue_iff, fun _ ↦ stored_of_parameterValue,
    fun _ ↦ mismatch_of_parameterValue⟩, fun d m options report h p hp ↦ ?_⟩
  refine (outcome_of_compile h).forall_values (P := fun v ↦ ∀ p, v = .runtime p → p.IsTyped)
    ?_ ?_ ?_ ?_ _ hp p rfl
  · intro s p heq
    cases heq
  · rintro name p ⟨⟩
    exact RuntimeParameter.isTyped_text name
  · rintro p ⟨⟩ v hv
    obtain ⟨s, -, rfl⟩ := Option.map_eq_some_iff.1 hv
    rfl
  · rintro c - e - v hv p rfl
    exact isTyped_of_parameterValue hv

/-- A pipeline of one importer, which has a runtime parameter with the given default. -/
def withDefault (kind : ScalarKind) (v : Literal) : Declaration where
  id := "p"
  root := none
  mode := .sync
  nodes := [{ Node.new "A" "x" with
    kind := .importer
    parameters := .ofList [("k", .runtime ⟨"r", kind, some v⟩)] }]

theorem isSome_compile_withDefault :
    ((withDefault .double (.int 9007199254740994)).compile .empty {}).toOption.isSome = true := by
  decide +kernel

/-- Above `2 ^ 53` every other integer is a double. -/
theorem runtime_defaults_typed_even :
    (∃ w, Pipeline.parameterValue "A" "k" (.runtime ⟨"r", .double, some (.int 9007199254740994)⟩) =
        .ok (.runtime ⟨"r", .double, some w⟩) ∧ (Literal.int 9007199254740994).Denotes w) ∧
      (∃ e, Pipeline.parameterValue "A" "k"
          (.runtime ⟨"r", .double, some (.int 9007199254740993)⟩) = .error e ∧
        e = .defaultMismatch "A" "k" .double .int) ∧
      ∃ report p, (withDefault .double (.int 9007199254740994)).compile .empty {} = .ok report ∧
        .runtime p ∈ report.document.values ∧ p.default ≠ none ∧ p.IsTyped := by
  obtain ⟨hparameter, hcompile⟩ := runtime_defaults_typed
  refine ⟨?_, ?_, ?_⟩
  · obtain ⟨hiff, hstored, -⟩ :=
      hparameter "A" "k" ⟨"r", .double, some (.int 9007199254740994)⟩
    have heven : (Literal.int 9007199254740994).HasKind .double :=
      .inr ⟨_, rfl, 4503599627370497, 1, by decide, by decide⟩
    obtain ⟨value, hvalue⟩ := hiff.2 (by rintro v ⟨⟩; exact heven)
    obtain ⟨default, rfl, hdefault⟩ := hstored value hvalue
    rcases hdefault with @⟨-, w, -, hw⟩
    exact ⟨w, hvalue, hw⟩
  · obtain ⟨-, -, herror⟩ := hparameter "A" "k" ⟨"r", .double, some (.int 9007199254740993)⟩
    have hodd : (Pipeline.parameterValue "A" "k"
        (.runtime ⟨"r", .double, some (.int 9007199254740993)⟩)).toOption = none := by
      decide +kernel
    rcases hvalue : Pipeline.parameterValue "A" "k"
        (.runtime ⟨"r", .double, some (.int 9007199254740993)⟩) with e | value
    · obtain ⟨v, hv, rfl⟩ := herror e hvalue
      cases hv
      exact ⟨_, rfl, rfl⟩
    · rw [hvalue] at hodd
      cases hodd
  · have hreport := eq_ok_get_of_isSome isSome_compile_withDefault
    obtain ⟨-, hmem, rfl⟩ : ∃ v ∈ (Option.get _ isSome_compile_withDefault).document.values,
        v = .runtime ⟨"r", .double, some (.double ⟨0x4340000000000001⟩)⟩ := by
      decide +kernel
    exact ⟨_, _, hreport, hmem, by decide, hcompile _ _ _ _ hreport _ hmem⟩

end Declaration
end Pipework
