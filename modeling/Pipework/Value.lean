import Pipework.Codec.Choice
import Pipework.Codec.Record

/-!
# Values of parameters

A value is known when the pipeline is compiled, or it is left to a runtime parameter that is filled
in when the pipeline runs.
-/

namespace Pipework

/-- The kinds of scalar values. -/
inductive ScalarKind where
  | int
  | double
  | string
deriving DecidableEq, Repr, Inhabited

/-- The name of a kind. -/
def ScalarKind.name : ScalarKind → String
  | .int => "INT"
  | .double => "DOUBLE"
  | .string => "STRING"

/-- A known value. -/
inductive FieldValue where
  | int (value : Int64)
  | double (value : Double)
  | string (value : String)
deriving DecidableEq, BEq, Repr

namespace FieldValue

/-- The kind of a value. -/
def kind : FieldValue → ScalarKind
  | .int _ => .int
  | .double _ => .double
  | .string _ => .string

/-- Whether the value is no infinite or undefined double. -/
def isFinite : FieldValue → Bool
  | .double x => x.isFinite
  | _ => true

end FieldValue

/-- A value that is filled in when the pipeline runs. -/
structure RuntimeParameter where
  name : String
  kind : ScalarKind
  default : Option FieldValue
deriving DecidableEq, BEq, Repr

namespace RuntimeParameter

/-- A text parameter without a default. -/
def text (name : String) : RuntimeParameter :=
  ⟨name, .string, none⟩

/-- Whether the default, if there is one, is finite. -/
def isFinite (p : RuntimeParameter) : Bool :=
  p.default.all FieldValue.isFinite

end RuntimeParameter

/-- A value of a parameter or context. -/
inductive Value where
  | field (value : FieldValue)
  | runtime (parameter : RuntimeParameter)
deriving DecidableEq, BEq, Repr

namespace Value

/-- A known text. -/
def text (s : String) : Value :=
  .field (.string s)

/-- Whether no infinite or undefined double occurs. -/
def isFinite : Value → Bool
  | .field v => v.isFinite
  | .runtime p => p.isFinite

end Value

namespace Codec

/-- Kinds of scalar values. -/
def scalarKind : Codec ScalarKind :=
  names ScalarKind.name [.int, .double, .string]

/-- Known values. -/
def fieldValue : Codec FieldValue :=
  choice
    [.holding "int_value" int64 .int, .holding "double_value" double .double,
      .holding "string_value" string .string]
    fun
    | .int n => .object [("int_value", int64.write n)]
    | .double x => .object [("double_value", double.write x)]
    | .string s => .object [("string_value", string.write s)]

/-- Runtime parameters. -/
def runtimeParameter : Codec RuntimeParameter :=
  record "RuntimeParameter" false
    (.cons (.required "name" string) <| .cons (.required "type" scalarKind) <|
      .cons (.optional "default_value" fieldValue) .nil)
    (fun p ↦ (p.name, p.kind, p.default, ()))
    (fun (name, kind, default, ()) ↦ ⟨name, kind, default⟩)

/-- Values. -/
def value : Codec Value :=
  choice
    [.holding "field_value" fieldValue .field,
      .holding "runtime_parameter" runtimeParameter .runtime]
    fun
    | .field v => .object [("field_value", fieldValue.write v)]
    | .runtime p => .object [("runtime_parameter", runtimeParameter.write p)]

end Codec
end Pipework
