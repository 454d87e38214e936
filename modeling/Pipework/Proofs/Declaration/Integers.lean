import Pipework.Proofs.Compile.Rearranging
import Pipework.Proofs.Json.Encoding
import Pipework.Proofs.Json.Integers

/-!
# Integers as literals

The number of a literal may stand alone, as the value of a parameter, or as the default of a runtime
parameter, which in turn may stand alone or be the value of a parameter. What is read is the same in
all of these places, whatever the blanks, the order of members and the spelling of names
(`decodedAs_literal?`), though the first and the third read the text and the others go through a
tree.

For an integer this should be the integer itself if it fits a signed word, and nothing otherwise
(`IntegerSpelling.intended?`). It is not so for negative zero and for most integers that fit no
word, for these come out of the number reader as doubles and are taken for such
(`integer_literal_iff`).
-/

namespace Pipework

namespace Codec

open Json
open Declaration (Literal Parameter)

variable {α V : Type}

/-- Every text of the raw value is decoded as what is given, or refused if nothing is. -/
def Decodes (c : Codec α) (r : Raw) (o : Option α) : Prop :=
  ∀ text, r.IsText text → (c.parse text).toOption = o

/-- A codec decodes what its reader reads, in any layout. -/
theorem Uniform.decodes {c : Codec α} (h : c.Uniform) {r : Raw} {o : Option α}
    (ho : ∀ a, c.Reads maxDepth r a ↔ o = some a) : c.Decodes r o := by
  intro text ht
  refine Option.ext fun a ↦ ?_
  rw [toOption_eq_some_iff, h.parse_eq_ok_iff ht, ho]

/-! ### Literals -/

/-- A literal is a scalar value. -/
theorem recognizes_literal (room : Nat) :
    Recognizes (literal.read room) (ReadsScalar literalOfFound) := by
  have hbrackets : RefusesBrackets literalOfFound := .of_error rfl rfl
  refine recognizes_start fun r s rest v t hs hrest ↦ ?_
  have hscalar := recognizes_readScalar hbrackets hs.spelled hrest (a := v) (t := t)
  -- What begins with a bracket is refused as a scalar, whether or not it may be opened here.
  have hopens {u : List Char} (h : ¬ readScalar literalOfFound u = .ok (v, t)) :
      ¬ (open? room u >>= fun _ ↦ readScalar literalOfFound u) = .ok (v, t) := by
    intro hopened
    obtain ⟨_, -, hread⟩ := bind_eq_ok_iff.1 hopened
    exact h hread
  rcases bare_cases hs with ⟨rs, u, rfl, -, rfl⟩ | ⟨ms, u, rfl, -, rfl⟩ | ⟨hr, d, u, rfl, hd, hd'⟩
  · simp only [ReadsScalar, Raw.isBracket, Bool.true_eq_false, false_and, iff_false,
      List.cons_append] at hscalar ⊢
    exact hopens hscalar
  · simp only [ReadsScalar, Raw.isBracket, Bool.true_eq_false, false_and, iff_false,
      List.cons_append] at hscalar ⊢
    exact hopens hscalar
  · rw [← hscalar, List.cons_append]
    split
    next heq => exact absurd (List.cons.inj heq).1 hd
    next heq => exact absurd (List.cons.inj heq).1 hd'
    next => rfl

/-- The literal that a number is read as. -/
def literal? (k : NumberSpelling) : Option Literal :=
  (Raw.number k).found?.bind fun got ↦ (literalOfFound got).toOption

/-- A number is read as the literal for which it is spelled. -/
theorem reads_literal_iff {room : Nat} {k : NumberSpelling} {v : Literal} :
    literal.Reads room (.number k) v ↔ literal? k = some v := by
  rw [Reads, (recognizes_literal room).reads_iff, literal?, Option.bind_eq_some_iff]
  simp only [toOption_eq_some_iff]
  exact and_iff_right rfl

/-! ### Runtime parameters -/

/-- The fields of a declared runtime parameter. -/
def runtimeParameterFields : Fields [String, ScalarKind, Option Literal] :=
  .cons (.required "name" string) <| .cons (.required "type" scalarKind) <|
    .cons (.defaulting "default_value" (option literal) none) .nil

/-- The members of a runtime parameter with a default, in any order and spelled in any way. -/
def DeclaresParameter (name : String) (kind : ScalarKind) (default : Raw)
    (ms : List (StringSpelling × Raw)) : Prop :=
  ∃ sname skind ns, sname.decode? = some name ∧ skind.decode? = some kind.name ∧ Named ms ns ∧
    ns.Perm [("name", .string sname), ("type", .string skind), ("default_value", default)]

/-- Members with different names are taken in any order. -/
theorem Fields.run_takes_iff_of_perm {αs : List Type} {fields : Fields αs}
    {accepts : ∀ {α : Type}, Codec α → V → α → Prop} {strict : Bool} {ms ms' : List (String × V)}
    (hperm : ms.Perm ms') (hnodup : (ms.map Prod.fst).Nodup) {s t : Slots αs} :
    Run (fields.Takes accepts strict) s ms t ↔ Run (fields.Takes accepts strict) s ms' t := by
  have hmono {ms ms' : List (String × V)} (hperm : ms.Perm ms') (hnodup : (ms.map Prod.fst).Nodup)
      (hrun : Run (fields.Takes accepts strict) s ms t) :
      Run (fields.Takes accepts strict) s ms' t := by
    refine Run.of_shuffled (R := Eq) ?_ Fields.takes_comm ⟨ms, ?_, hperm⟩ hnodup hrun
    · rintro s name v _ t rfl htakes
      exact htakes
    · exact List.forall₂_same.2 fun m _ ↦ ⟨rfl, rfl⟩
  exact ⟨hmono hperm hnodup, hmono hperm.symm ((hperm.map Prod.fst).nodup_iff.1 hnodup)⟩

/-- **A runtime parameter is taken from its three members**, in a text as in a tree. -/
theorem takes_runtimeParameter_iff {accepts : ∀ {α : Type}, Codec α → V → α → Prop}
    {vname vkind vdefault : V} {ms : List (String × V)}
    (hperm : ms.Perm [("name", vname), ("type", vkind), ("default_value", vdefault)])
    {row : Row [String, ScalarKind, Option Literal]} :
    (∃ slots, Run (runtimeParameterFields.Takes accepts true) runtimeParameterFields.empty ms
        slots ∧ runtimeParameterFields.finish slots = .ok row) ↔
      accepts string vname row.1 ∧ accepts scalarKind vkind row.2.1 ∧
        accepts (option literal) vdefault row.2.2.1 := by
  have hnodup : (ms.map Prod.fst).Nodup := by
    rw [(hperm.map Prod.fst).nodup_iff]
    exact (by decide : ["name", "type", "default_value"].Nodup)
  simp only [Fields.run_takes_iff_of_perm hperm hnodup]
  obtain ⟨name, kind, default, ⟨⟩⟩ := row
  simp [Run, runtimeParameterFields, Fields.Takes, Fields.empty, Field.required, Field.defaulting,
    Fields.finish, bind, Except.bind, pure, Except.pure, and_assoc]

/-- The kind of a runtime parameter is given by its name, in any spelling. -/
theorem reads_scalarKind_of_string {room : Nat} {k : StringSpelling} {kind kind' : ScalarKind}
    (hk : k.decode? = some kind.name) : scalarKind.Reads room (.string k) kind' ↔ kind' = kind := by
  have hreads : scalarKind.Reads room (.string k) kind := by
    rw [Reads, scalarKind, names, (recognizes_choice (fun v hv room ↦ ?_) room).reads_iff]
    · exact .inl ⟨k, kind.name, .named kind.name kind, rfl, hk, by cases kind <;> rfl, rfl⟩
    · obtain ⟨a, -, rfl⟩ := List.mem_map.1 hv
      exact (recognizes_named room).uniform
  constructor
  · intro hreads'
    exact (uniform_names room).eq_of_reads hreads' hreads
  · rintro rfl
    exact hreads

/-- A default value that is given is not read as none. -/
theorem reads_optionLiteral_iff {room : Nat} {k : NumberSpelling} {o : Option Literal} :
    (option literal).Reads room (.number k) o ↔ o ≠ none ∧ literal? k = o := by
  rw [Reads, (recognizes_option (fun room ↦ (recognizes_literal room).uniform) room).reads_iff,
    ReadsOption]
  simp only [reads_literal_iff]
  rcases o with - | v
  · simp
  · simp

/-- **The default of a runtime parameter**, read from a text. -/
theorem decodes_declaredRuntimeParameter {name : String} {kind : ScalarKind} {k : NumberSpelling}
    {ms : List (StringSpelling × Raw)} (hms : DeclaresParameter name kind (.number k) ms) :
    declaredRuntimeParameter.Decodes (.object ms)
      ((literal? k).map fun v ↦ ⟨name, kind, some v⟩) := by
  obtain ⟨sname, skind, ns, hname, hkind, hns, hperm⟩ := hms
  have hfields : runtimeParameterFields.All Uniform :=
    ⟨uniform_string, uniform_names,
      uniform_option fun room ↦ (recognizes_literal room).uniform, trivial⟩
  refine Uniform.decodes (uniform_record hfields) fun p ↦ ?_
  show Json.Reads ((record _ true runtimeParameterFields _ _).read maxDepth) _ p ↔ _
  rw [(recognizes_record hfields maxDepth).reads_iff, Option.map_eq_some_iff]
  constructor
  · rintro (⟨inner, _, ns', slots, row, -, ⟨⟩, hns', hrun, hfinish, rfl⟩ | ⟨_, _, _, _, heq, _⟩)
    · obtain rfl := named_unique hns hns'
      obtain ⟨hname', hkind', hdefault⟩ :=
        (takes_runtimeParameter_iff hperm).1 ⟨slots, hrun, hfinish⟩
      obtain ⟨name', kind', default, ⟨⟩⟩ := row
      obtain ⟨_, ⟨⟩, hname'⟩ := reads_string_iff.1 hname'
      obtain rfl := Option.some.inj (hname.symm.trans hname')
      obtain rfl := (reads_scalarKind_of_string hkind).1 hkind'
      obtain ⟨hdefault, hliteral⟩ := reads_optionLiteral_iff.1 hdefault
      obtain ⟨v, rfl⟩ := Option.ne_none_iff_exists'.1 hdefault
      exact ⟨v, hliteral, rfl⟩
    · cases heq
  · rintro ⟨v, hv, rfl⟩
    -- One level of `maxDepth` is spent on the object itself.
    have htakes : ∃ slots, Run (runtimeParameterFields.Takes (fun c r a ↦ c.Reads 126 r a) true)
        runtimeParameterFields.empty ns slots ∧
        runtimeParameterFields.finish slots = .ok (name, kind, some v, ()) :=
      (takes_runtimeParameter_iff hperm).2 ⟨reads_string_iff.2 ⟨sname, rfl, hname⟩,
        (reads_scalarKind_of_string hkind).2 rfl,
        reads_optionLiteral_iff.2 ⟨Option.some_ne_none v, hv⟩⟩
    obtain ⟨slots, hrun, hfinish⟩ := htakes
    exact .inl ⟨126, ms, ns, slots, _, rfl, rfl, hns, hrun, hfinish, rfl⟩

/-! ### Trees -/

/-- A number is read directly or put aside first, with the same result. -/
theorem literal?_eq_some_iff {k : NumberSpelling} {v : Literal} :
    literal? k = some v ↔ ∃ x, k.value? = some x ∧ literal.ofJson .text (ofNumber x) = .ok v := by
  rw [literal?, Raw.found?, Option.bind_map, Option.bind_eq_some_iff]
  exact exists_congr fun x ↦ and_congr_right fun _ ↦ toOption_eq_some_iff

/-- **The value of a parameter**, read from a tree. -/
theorem decodes_parameter (k : NumberSpelling) :
    parameter.Decodes (.number k) ((literal? k).map .literal) := by
  refine Uniform.decodes (fun room ↦ (recognizes_buffered room).uniform) fun a ↦ ?_
  show Json.Reads ((buffered _ _ _).read maxDepth) _ a ↔ _
  rw [(recognizes_buffered maxDepth).reads_iff, Option.map_eq_some_iff]
  simp only [reads_number_iff, literal?_eq_some_iff]
  constructor
  · rintro ⟨_, ⟨x, hx, rfl⟩, hmatch⟩
    split at hmatch
    next v hv =>
      cases hmatch
      exact ⟨v, ⟨x, hx, hv⟩, rfl⟩
    next => cases x <;> cases hmatch
  · rintro ⟨v, ⟨x, hx, hv⟩, rfl⟩
    refine ⟨ofNumber x, ⟨x, hx, rfl⟩, ?_⟩
    rw [hv]

/-- An object with one member stands for a runtime parameter. -/
theorem runtimeOfJson?_eq_some_iff {c : Codec α} {j : Json} {a : α} :
    runtimeOfJson? c (.object [("runtime_parameter", j)]) = some a ↔ c.ofJson .text j = .ok a := by
  rcases h : c.ofJson .text j with e | b
  · simp [runtimeOfJson?, runtimeField, Fields.ofObject, Fields.membersOfJson, Fields.memberOfJson,
      Fields.empty, Field.required, bind, Except.bind, h]
  · simp [runtimeOfJson?, runtimeField, Fields.ofObject, Fields.membersOfJson, Fields.memberOfJson,
      Fields.finish, Fields.empty, Field.required, bind, Except.bind, pure, Except.pure, h]

theorem ofJson_scalarKind_iff {kind kind' : ScalarKind} :
    scalarKind.ofJson .text (.string kind.name) = .ok kind' ↔ kind' = kind := by
  have hkind : scalarKind.ofJson .text (.string kind.name) = .ok kind := by cases kind <;> rfl
  rw [hkind, Except.ok.injEq, eq_comm]

/-- **A runtime parameter is matched with its three members**, in any order. -/
theorem ofJson_declaredRuntimeParameter_iff {name : String} {kind : ScalarKind} {j : Json}
    {js : List (String × Json)}
    (hperm : js.Perm [("name", .string name), ("type", .string kind.name), ("default_value", j)])
    {p : Declaration.RuntimeParameter} :
    declaredRuntimeParameter.ofJson .text (.object js) = .ok p ↔
      ∃ default, (option literal).ofJson .text j = .ok default ∧ p = ⟨name, kind, default⟩ := by
  show (runtimeParameterFields.ofObject true .text js).map _ = .ok p ↔ _
  rw [map_eq_ok_iff]
  constructor
  · rintro ⟨row, hrow, rfl⟩
    obtain ⟨hname, hkind, hdefault⟩ :=
      (takes_runtimeParameter_iff hperm).1 (Fields.ofObject_eq_ok_iff.1 hrow)
    obtain ⟨name', kind', default, ⟨⟩⟩ := row
    obtain rfl : name = name' := Except.ok.inj hname
    obtain rfl := ofJson_scalarKind_iff.1 hkind
    exact ⟨default, hdefault, rfl⟩
  · rintro ⟨default, hdefault, rfl⟩
    refine ⟨(name, kind, default, ()), Fields.ofObject_eq_ok_iff.2 ?_, rfl⟩
    exact (takes_runtimeParameter_iff hperm).2 ⟨rfl, ofJson_scalarKind_iff.2 rfl, hdefault⟩

theorem ofJson_optionLiteral_iff {x : Number} {o : Option Literal} :
    (option literal).ofJson .text (ofNumber x) = .ok o ↔
      ∃ v, literal.ofJson .text (ofNumber x) = .ok v ∧ o = some v := by
  have hoption : (option literal).ofJson .text (ofNumber x) =
      (literal.ofJson .text (ofNumber x)).map some := by cases x <;> rfl
  rw [hoption, map_eq_ok_iff]

/-- The members of a runtime parameter are put aside with the number for the default value. -/
theorem readsMembers_runtimeParameter_iff {room : Nat} {name kind : String} {k : NumberSpelling}
    {sname skind : StringSpelling} (hname : sname.decode? = some name)
    (hkind : skind.decode? = some kind) {js : List (String × Json)} :
    ReadsMembers (readValue room)
        [("name", .string sname), ("type", .string skind), ("default_value", .number k)] js ↔
      ∃ x, k.value? = some x ∧
        js = [("name", .string name), ("type", .string kind), ("default_value", ofNumber x)] := by
  simp only [ReadsMembers, List.forall₂_cons_left_iff, List.forall₂_nil_left_iff, Prod.exists,
    reads_spelling_iff hname, reads_spelling_iff hkind, reads_number_iff]
  constructor
  · rintro ⟨_, _, _, ⟨rfl, rfl⟩, ⟨_, _, _, ⟨rfl, rfl⟩, ⟨_, _, _, ⟨rfl, hj⟩, rfl, rfl⟩, rfl⟩, rfl⟩
    obtain ⟨x, hx, rfl⟩ := hj
    exact ⟨x, hx, rfl⟩
  · rintro ⟨x, hx, rfl⟩
    have hj : ∃ y, k.value? = some y ∧ ofNumber x = ofNumber y := ⟨x, hx, rfl⟩
    exact ⟨_, _, _, ⟨rfl, rfl⟩, ⟨_, _, _, ⟨rfl, rfl⟩, ⟨_, _, _, ⟨rfl, hj⟩, rfl, rfl⟩, rfl⟩, rfl⟩

/-- A runtime parameter is read as a tree and then matched. -/
theorem reads_runtimeParameterTree_iff {room : Nat} {name : String} {kind : ScalarKind}
    {k : NumberSpelling} {ms : List (StringSpelling × Raw)}
    (hms : DeclaresParameter name kind (.number k) ms) {p : Declaration.RuntimeParameter} :
    (∃ j, Json.Reads (readValue (room + 1)) (.object ms) j ∧
        declaredRuntimeParameter.ofJson .text j = .ok p) ↔
      ∃ v, literal? k = some v ∧ p = ⟨name, kind, some v⟩ := by
  obtain ⟨sname, skind, ns, hname, hkind, hns, hperm⟩ := hms
  simp only [reads_members_iff hns, literal?_eq_some_iff]
  constructor
  · rintro ⟨_, ⟨js, hjs, rfl⟩, hp⟩
    obtain ⟨js', hjs', hperm'⟩ := List.perm_comp_forall₂ hperm.symm hjs
    obtain ⟨x, hx, rfl⟩ := (readsMembers_runtimeParameter_iff hname hkind).1 hjs'
    obtain ⟨default, hdefault, rfl⟩ := (ofJson_declaredRuntimeParameter_iff hperm'.symm).1 hp
    obtain ⟨v, hv, rfl⟩ := ofJson_optionLiteral_iff.1 hdefault
    exact ⟨v, ⟨x, hx, hv⟩, rfl⟩
  · rintro ⟨v, ⟨x, hx, hv⟩, rfl⟩
    obtain ⟨js, hjs, hperm'⟩ := List.perm_comp_forall₂ hperm
      ((readsMembers_runtimeParameter_iff hname hkind).2 ⟨x, hx, rfl⟩)
    refine ⟨.object js, ⟨js, hjs, rfl⟩, (ofJson_declaredRuntimeParameter_iff hperm').2 ?_⟩
    exact ⟨some v, ofJson_optionLiteral_iff.2 ⟨v, hv, rfl⟩, rfl⟩

/-- **The default of a runtime parameter**, read from a tree. -/
theorem decodes_runtime {name : String} {kind : ScalarKind} {k : NumberSpelling}
    {ms : List (StringSpelling × Raw)} (hms : DeclaresParameter name kind (.number k) ms)
    {w : StringSpelling} (hw : w.decode? = some "runtime_parameter") :
    parameter.Decodes (.object [(w, .object ms)])
      ((literal? k).map fun v ↦ .runtime ⟨name, kind, some v⟩) := by
  have hwrapped : Named [(w, .object ms)] [("runtime_parameter", .object ms)] :=
    .cons ⟨hw, rfl⟩ .nil
  have hbare {p} : (∃ j, Json.Reads (readValue (125 + 1)) (.object ms) j ∧
      declaredRuntimeParameter.ofJson .text j = .ok p) ↔
      ∃ v, literal? k = some v ∧ p = ⟨name, kind, some v⟩ := reads_runtimeParameterTree_iff hms
  refine Uniform.decodes (fun room ↦ (recognizes_buffered room).uniform) fun a ↦ ?_
  show Json.Reads ((buffered _ _ _).read (126 + 1)) _ a ↔ _
  rw [(recognizes_buffered (126 + 1)).reads_iff, Option.map_eq_some_iff]
  simp only [reads_members_iff hwrapped, ReadsMembers, List.forall₂_cons_left_iff,
    List.forall₂_nil_left_iff, Prod.exists]
  constructor
  · rintro ⟨_, ⟨_, ⟨_, j, _, ⟨rfl, hj⟩, rfl, rfl⟩, rfl⟩, hmatch⟩
    obtain ⟨p, hp, rfl⟩ := Option.map_eq_some_iff.1 hmatch
    obtain ⟨v, hv, rfl⟩ := hbare.1 ⟨j, hj, runtimeOfJson?_eq_some_iff.1 hp⟩
    exact ⟨v, hv, rfl⟩
  · rintro ⟨v, hv, rfl⟩
    obtain ⟨j, hj, hp⟩ := hbare.2 ⟨v, hv, rfl⟩
    refine ⟨_, ⟨_, ⟨_, j, _, ⟨rfl, hj⟩, rfl, rfl⟩, rfl⟩, Option.map_eq_some_iff.2 ⟨_, ?_, rfl⟩⟩
    exact runtimeOfJson?_eq_some_iff.2 hp

/-! ### Places of a number -/

/-- The number is decoded as a literal wherever it stands, or refused everywhere. -/
structure DecodedAs (k : NumberSpelling) (o : Option Literal) : Prop where
  alone : literal.Decodes (.number k) o
  parameter : parameter.Decodes (.number k) (o.map .literal)
  default : ∀ {name kind ms}, DeclaresParameter name kind (.number k) ms →
    declaredRuntimeParameter.Decodes (.object ms) (o.map fun v ↦ ⟨name, kind, some v⟩)
  runtime : ∀ {name kind ms w}, DeclaresParameter name kind (.number k) ms →
    w.decode? = some "runtime_parameter" →
    Codec.parameter.Decodes (.object [(w, .object ms)])
      (o.map fun v ↦ .runtime ⟨name, kind, some v⟩)

/-- **A number is decoded as the same literal wherever it stands.** -/
theorem decodedAs_literal? (k : NumberSpelling) : DecodedAs k (literal? k) where
  alone := Uniform.decodes (fun room ↦ (recognizes_literal room).uniform) fun _ ↦ reads_literal_iff
  parameter := decodes_parameter k
  default := decodes_declaredRuntimeParameter
  runtime hms hw := decodes_runtime hms hw

end Codec

namespace Json.IntegerSpelling

open Codec
open Declaration (Literal)

variable {n : IntegerSpelling}

/-- The literal that an integer should be read as: itself, if it fits a signed word. -/
def intended? (n : IntegerSpelling) : Option Literal :=
  if Int64.minValue.toInt ≤ n.value ∧ n.value ≤ Int64.maxValue.toInt then
    some (.int (Int64.ofInt n.value))
  else none

/-- An integer is not meant as a double. -/
theorem intended?_ne_double (x : Double) : n.intended? ≠ some (.double x) := by
  rw [intended?]
  split
  · exact fun h ↦ Literal.noConfusion (Option.some.inj h)
  · exact (Option.some_ne_none _).symm

/-- An integer that is too large for the integers of a tree should not be read at all. -/
theorem intended?_of_not_fitsWord (h : fitsWord n.value = false) : n.intended? = none := by
  rw [Bool.eq_false_iff, ne_eq, fitsWord_iff] at h
  refine if_neg fun hword ↦ h ?_
  rw [show Int64.minValue.toInt = -2 ^ 63 by decide,
    show Int64.maxValue.toInt = 2 ^ 63 - 1 by decide] at hword
  omega

/-- An integer that is read as one is read as meant. -/
theorem literal?_of_int (h : n.toNumber.value? = some (.int n.value)) :
    literal? n.toNumber = n.intended? := by
  rw [literal?, Raw.found?, h, intended?]
  show (literalOfFound (.int n.value)).toOption = _
  rw [literalOfFound]
  split <;> rfl

/-- An integer that is read as a double is not read as meant, although it is accepted. -/
theorem literal?_of_double {x : Double} (h : n.toNumber.value? = some (.double x)) :
    literal? n.toNumber = some (.double x) := by
  rw [literal?, Raw.found?, h]
  rfl

theorem literal?_of_none (h : n.toNumber.value? = none) : literal? n.toNumber = none := by
  rw [literal?, Raw.found?, h]
  rfl

/-- What is read as an integer or is out of range is decoded as it should be. -/
theorem literal?_eq_intended? (hzero : ¬ n.IsMinusZero)
    (h : fitsWord n.value = true ∨ n.IsOutOfRange) : literal? n.toNumber = n.intended? := by
  rcases h with hfits | hrange
  · exact literal?_of_int (value?_of_fitsWord hfits hzero)
  · rw [literal?_of_none (value?_of_isOutOfRange hrange),
      intended?_of_not_fitsWord (fitsWord_eq_false_of_isOutOfRange hrange)]

/-- All else is decoded as a double. -/
theorem exists_literal?_eq_double
    (h : ¬ (¬ n.IsMinusZero ∧ (fitsWord n.value = true ∨ n.IsOutOfRange))) :
    ∃ x, literal? n.toNumber = some (.double x) ∧ x.isFinite = true := by
  suffices hvalue : ∃ x, n.toNumber.value? = some (.double x) by
    obtain ⟨x, hx⟩ := hvalue
    exact ⟨x, literal?_of_double hx, NumberSpelling.isFinite_of_value? hx⟩
  by_cases hzero : n.IsMinusZero
  · exact ⟨_, value?_of_minusZero hzero⟩
  · have hneither := not_or.1 fun hor ↦ h ⟨hzero, hor⟩
    exact exists_double_of_not_fitsWord (Bool.eq_false_iff.2 hneither.1) hneither.2

/-- **When an integer is read as the literal that it should be**: the decoded literal is the same
wherever the integer stands, and is the right one unless the integer is negative zero or fits no
word without being out of range. It is a finite double then. -/
theorem integer_literal_iff (n : IntegerSpelling) :
    ∃ o, DecodedAs n.toNumber o ∧
      (o = n.intended? ↔ ¬ n.IsMinusZero ∧ (fitsWord n.value = true ∨ n.IsOutOfRange)) ∧
      (o ≠ n.intended? → ∃ x, o = some (.double x) ∧ x.isFinite = true) ∧
      (n.digits.length ≤ 308 → ¬ n.IsOutOfRange) ∧ (310 ≤ n.digits.length → n.IsOutOfRange) := by
  refine ⟨literal? n.toNumber, decodedAs_literal? _, ⟨?_, ?_⟩, ?_, not_isOutOfRange_of_length_le,
    isOutOfRange_of_le_length⟩
  · intro hexact
    by_contra h
    obtain ⟨x, hx, -⟩ := exists_literal?_eq_double h
    exact intended?_ne_double x (hexact.symm.trans hx)
  · rintro ⟨hzero, h⟩
    exact literal?_eq_intended? hzero h
  · intro hne
    refine exists_literal?_eq_double fun h ↦ ?_
    exact hne (literal?_eq_intended? h.1 h.2)

theorem isText_toNumber (n : IntegerSpelling) :
    (Raw.number n.toNumber).IsText (String.ofList n.toNumber.chars) :=
  ⟨_, [], ⟨[], _, blank_nil, rfl, rfl⟩, blank_nil, by simp⟩

/-- The least integer of a signed word. -/
def least : IntegerSpelling where
  negative := true
  digits := "9223372036854775808".toList
  isWhole := ⟨⟨by decide, List.all_eq_true.1 rfl⟩, by decide⟩

theorem integer_literal_iff_least :
    ¬ least.IsMinusZero ∧ fitsWord least.value = true ∧
      (literal.parse "-9223372036854775808").toOption = some (.int Int64.minValue) := by
  obtain ⟨o, hplaces, hexact, -⟩ := integer_literal_iff least
  have hzero : ¬ least.IsMinusZero := by decide
  have hfits : fitsWord least.value = true := by decide
  refine ⟨hzero, hfits, ?_⟩
  rw [show (some (.int Int64.minValue) : Option Literal) = least.intended? by decide,
    ← hexact.2 ⟨hzero, .inl hfits⟩]
  exact hplaces.alone _ least.isText_toNumber

/-- The least natural number that fits no word. -/
def oversized : IntegerSpelling where
  negative := false
  digits := "18446744073709551616".toList
  isWhole := ⟨⟨by decide, List.all_eq_true.1 rfl⟩, by decide⟩

/-- Zero with a sign. -/
def minusZero : IntegerSpelling where
  negative := true
  digits := ['0']
  isWhole := ⟨⟨by decide, List.all_eq_true.1 rfl⟩, by decide⟩

/-- An integer that should be refused is decoded as a double, and so is negative zero. -/
theorem not_decodedAs_intended? :
    (literal.parse "18446744073709551616").toOption = some (.double ⟨0x43F0000000000000⟩) ∧
      oversized.intended? = none ∧ ¬ DecodedAs oversized.toNumber oversized.intended? ∧
    (literal.parse "-0").toOption = some (.double ⟨0x8000000000000000⟩) ∧
      minusZero.intended? = some (.int 0) ∧ ¬ DecodedAs minusZero.toNumber minusZero.intended? := by
  have hoversized : (literal.parse "18446744073709551616").toOption =
      some (.double ⟨0x43F0000000000000⟩) := by decide +kernel
  have hminusZero : (literal.parse "-0").toOption = some (.double ⟨0x8000000000000000⟩) := by
    decide +kernel
  refine ⟨hoversized, by decide, fun h ↦ ?_, hminusZero, by decide, fun h ↦ ?_⟩
  · exact intended?_ne_double _ ((h.alone _ oversized.isText_toNumber).symm.trans hoversized)
  · exact intended?_ne_double _ ((h.alone _ minusZero.isText_toNumber).symm.trans hminusZero)

end Json.IntegerSpelling
end Pipework
