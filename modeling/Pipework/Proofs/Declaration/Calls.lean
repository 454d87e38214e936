import Mathlib.Data.List.Induction
import Pipework.Proofs.Compile.Queries
import Pipework.Proofs.Compile.Result
import Pipework.Proofs.Compile.Scan

/-!
# Nodes made by calls

A node is made from an id and the name of its type by calls that each add a channel to an input or
set an output. Calls with the same key of an input accumulate, while of the calls with the same key
of an output the last one counts (`unions_of_calls`).

What a list of calls leads to is said by looking keys up, since dictionaries are kept in the order
of their keys and forget in which order these were used. One more call keeps this description
(`BuiltBy.call`). Compilation turns every channel of an input into a query at the same place, so
that a union is found in the document as it was made.
-/

namespace Pipework

/-- Dictionaries whose entries correspond have corresponding values for every key. -/
theorem Dict.rel_get?_of_forall₂ {β γ : Type} {R : String → β → γ → Prop} {d : Dict β}
    {d' : Dict γ} (h : List.Forall₂ (fun e c ↦ c.1 = e.1 ∧ R e.1 e.2 c.2) d.entries d'.entries)
    (key : String) : Option.Rel (R key) (d.get? key) (d'.get? key) := by
  rw [get?, get?]
  generalize d.entries = es, d'.entries = cs at h
  induction h with
  | nil => exact .none
  | @cons e c es cs hec _ ih =>
    obtain ⟨k, b⟩ := e
    obtain ⟨k', b'⟩ := c
    obtain ⟨rfl, hR⟩ := hec
    rw [lookup_cons_eq_ite, lookup_cons_eq_ite]
    split
    next hkey =>
      subst hkey
      exact .some hR
    next => exact ih

namespace Declaration

/-- The input that is the union of channels. Without channels there is none. -/
def Input.union? : List Channel → Option Input
  | [] => none
  | c :: cs => some ⟨c :: cs, [], none⟩

/-- One more channel in a union. -/
theorem Input.union?_concat (cs : List Channel) (c : Channel) :
    Input.union? (cs ++ [c]) = some
      { (Input.union? cs).getD ⟨[], [], none⟩ with
        channels := ((Input.union? cs).getD ⟨[], [], none⟩).channels ++ [c] } := by
  rcases cs with - | ⟨c', cs⟩ <;> rfl

/-- A union needs a channel. -/
theorem Input.isSome_union?_iff {cs : List Channel} : (Input.union? cs).isSome ↔ cs ≠ [] := by
  rcases cs with - | ⟨c, cs⟩ <;> simp [Input.union?]

theorem Input.channels_of_union? {cs : List Channel} {input : Input}
    (h : Input.union? cs = some input) : input.channels = cs := by
  rcases cs with - | ⟨c, cs⟩
  · cases h
  · cases h
    rfl

namespace Node

/-! ### Calls -/

/-- A call that adds to a node. -/
inductive Call where
  | input (key : InputKey) (producer : NodeId) (output : OutputKey)
  | output (key : OutputKey) (typeName : String)
deriving DecidableEq, Repr

namespace Call

/-- The channel that a call adds to an input. -/
def channelAt (key : InputKey) : Call → Option Channel
  | .input k producer out => if k = key then some ⟨producer, out⟩ else none
  | .output _ _ => none

/-- The name of the type that a call gives to an output. -/
def typeAt (key : OutputKey) : Call → Option String
  | .input _ _ _ => none
  | .output k typeName => if k = key then some typeName else none

end Call

/-- Makes a call. -/
def call (n : Node) : Call → Node
  | .input key producer out => n.withInput key producer out
  | .output key typeName => n.withOutput key typeName

/-- Makes calls one after the other. -/
def callAll (n : Node) (calls : List Call) : Node :=
  calls.foldl call n

/-- What a new node has become by calls. An input holds the channels of its calls in the order of
the calls, an output has the type of its last call, and nothing else has changed. -/
structure BuiltBy (id typeName : String) (calls : List Call) (n : Node) : Prop where
  inputs : ∀ key, n.inputs.get? key = Input.union? (calls.filterMap (·.channelAt key))
  outputs : ∀ key, n.outputs.get? key =
    (calls.filterMap (·.typeAt key)).getLast?.map fun name ↦ ⟨name, none, .empty⟩
  others : n = { new id typeName with inputs := n.inputs, outputs := n.outputs }

/-- A new node is the result of no calls. -/
theorem builtBy_new (id typeName : String) : BuiltBy id typeName [] (new id typeName) :=
  ⟨fun _ ↦ rfl, fun _ ↦ rfl, rfl⟩

namespace BuiltBy

variable {id typeName : String} {calls : List Call} {n : Node}

/-- Another channel comes last in its input, or makes a new input. -/
theorem withInput (h : BuiltBy id typeName calls n) (key : InputKey) (producer : NodeId)
    (out : OutputKey) :
    BuiltBy id typeName (calls ++ [.input key producer out]) (n.withInput key producer out) where
  inputs k := by
    rw [Node.withInput, Dict.get?_insert, h.inputs, List.filterMap_append]
    by_cases hkey : k = key
    · subst hkey
      have hadded : [Call.input k producer out].filterMap (·.channelAt k) = [⟨producer, out⟩] := by
        simp [Call.channelAt]
      rw [if_pos rfl, hadded, Input.union?_concat]
    · have hnone : [Call.input key producer out].filterMap (·.channelAt k) = [] := by
        simp [Call.channelAt, Ne.symm hkey]
      rw [if_neg hkey, hnone, List.append_nil, h.inputs]
  outputs k := by
    have hnone : [Call.input key producer out].filterMap (·.typeAt k) = [] := rfl
    rw [List.filterMap_append, hnone, List.append_nil]
    exact h.outputs k
  others := congrArg (fun m : Node ↦ { m with inputs := (n.withInput key producer out).inputs })
    h.others

/-- Another output replaces one with the same key. -/
theorem withOutput (h : BuiltBy id typeName calls n) (key : OutputKey) (name : String) :
    BuiltBy id typeName (calls ++ [.output key name]) (n.withOutput key name) where
  inputs k := by
    have hnone : [Call.output key name].filterMap (·.channelAt k) = [] := rfl
    rw [List.filterMap_append, hnone, List.append_nil]
    exact h.inputs k
  outputs k := by
    rw [Node.withOutput, Dict.get?_insert, List.filterMap_append]
    by_cases hkey : k = key
    · subst hkey
      have hadded : [Call.output k name].filterMap (·.typeAt k) = [name] := by
        simp [Call.typeAt]
      rw [if_pos rfl, hadded, List.getLast?_concat, Option.map_some]
    · have hnone : [Call.output key name].filterMap (·.typeAt k) = [] := by
        simp [Call.typeAt, Ne.symm hkey]
      rw [if_neg hkey, hnone, List.append_nil, h.outputs]
  others := congrArg (fun m : Node ↦ { m with outputs := (n.withOutput key name).outputs }) h.others

/-- **One more call.** -/
theorem call (h : BuiltBy id typeName calls n) (c : Call) :
    BuiltBy id typeName (calls ++ [c]) (n.call c) := by
  rcases c with ⟨key, producer, out⟩ | ⟨key, name⟩
  · exact h.withInput key producer out
  · exact h.withOutput key name

/-- The keys of the inputs are those that were used. -/
theorem mem_keys_inputs_iff (h : BuiltBy id typeName calls n) {key : InputKey} :
    key ∈ n.inputs.keys ↔ ∃ producer out, .input key producer out ∈ calls := by
  rw [← Dict.contains_iff_mem_keys, Dict.contains, h.inputs, Input.isSome_union?_iff, Ne,
    List.filterMap_eq_nil_iff]
  constructor
  · intro hsome
    obtain ⟨c, hc⟩ := not_forall.1 hsome
    obtain ⟨hmem, hchannel⟩ := Classical.not_imp.1 hc
    rcases c with ⟨k, producer, out⟩ | ⟨k, name⟩
    · obtain rfl : k = key := by simpa [Call.channelAt] using hchannel
      exact ⟨producer, out, hmem⟩
    · exact absurd rfl hchannel
  · rintro ⟨producer, out, hmem⟩ hnone
    simpa [Call.channelAt] using hnone _ hmem

end BuiltBy

/-- **Any number of calls.** -/
theorem builtBy_callAll (id typeName : String) (calls : List Call) :
    BuiltBy id typeName calls ((new id typeName).callAll calls) := by
  -- The last call is made on the node that the calls before it lead to.
  induction calls using List.reverseRecOn with
  | nil => exact builtBy_new id typeName
  | append_singleton calls c ih =>
    rw [callAll, List.foldl_concat]
    exact ih.call c

end Node

/-! ### Unions in a document -/

variable {d : Declaration} {m : Deployment} {options : CompileOptions} {report : CompileReport}

/-- A declared node is found in the document, compiled. -/
theorem exists_compiled_of_compile (h : d.compile m options = .ok report) {c : Node}
    (hc : c ∈ d.nodes) :
    ∃ n, report.document.node? c.id = some n ∧ d.Compiled options c n := by
  obtain ⟨p, hp, hs, rfl⟩ := Pipeline.exists_settled_of_compile h
  obtain ⟨n, hn, hcompiled⟩ := exists_mem_of_forall₂ (Pipeline.compiled_toDocument hp hs) hc
  obtain ⟨w, hw, rfl⟩ := List.mem_map.1 hn
  refine ⟨w.toDocument, ?_, hcompiled⟩
  rw [← hcompiled.id]
  exact Pipeline.node?_toDocument hp.indexed hw

/-- The channel for which a query stands. -/
def channelOf (q : Document.Channel) : Channel :=
  ⟨q.producer, q.output⟩

/-- Every channel of an input has its query, in the same order. -/
theorem Compiled.rel_inputs {c : Node} {n : Document.Node} (h : d.Compiled options c n)
    (key : InputKey) :
    Option.Rel (fun input q ↦ q.channels.map channelOf = input.channels) (c.inputs.get? key)
      (n.inputs.get? key) := by
  refine Dict.rel_get?_of_forall₂ (R := fun _ input q ↦ q.channels.map channelOf = input.channels)
    (h.inputs.imp fun e e' he ↦ ⟨he.1, ?_⟩) key
  rw [← List.map_id e.2.channels]
  refine (map_eq_of_forall₂ he.2.channels fun x q hq ↦ ?_).symm
  obtain ⟨producer, -, -, type, -, rfl⟩ := hq
  rfl

/-- Compiling keeps the keys of inputs. -/
theorem Compiled.keys_inputs {c : Node} {n : Document.Node} (h : d.Compiled options c n) :
    n.inputs.keys = c.inputs.keys :=
  (map_eq_of_forall₂ h.inputs fun _ _ he ↦ he.1.symm).symm

namespace Node

/-- **What calls make of a node.** Its inputs have exactly the keys that were used. The channels of
an input are those of its calls in the order of the calls, none merged and none left out; an output
has the type of the last call for it; and all else is as in a new node. When the node is part of a
pipeline that compiles, its inputs in the document have one query for each such call, in the same
order. -/
theorem unions_of_calls (id typeName : String) (calls : List Call) :
    (∀ key, key ∈ ((new id typeName).callAll calls).inputs.keys ↔
        ∃ producer out, .input key producer out ∈ calls) ∧
      BuiltBy id typeName calls ((new id typeName).callAll calls) ∧
      ∀ (d : Declaration) (m : Deployment) (options : CompileOptions) (report : CompileReport),
        (new id typeName).callAll calls ∈ d.nodes → d.compile m options = .ok report →
        ∃ n, report.document.node? id = some n ∧
          (∀ key, key ∈ n.inputs.keys ↔ ∃ producer out, .input key producer out ∈ calls) ∧
          ∀ key input, n.inputs.get? key = some input →
            input.channels.map channelOf = calls.filterMap (·.channelAt key) := by
  have hbuilt := builtBy_callAll id typeName calls
  refine ⟨fun key ↦ hbuilt.mem_keys_inputs_iff, hbuilt, fun d m options report hmem h ↦ ?_⟩
  obtain ⟨n, hn, hcompiled⟩ := exists_compiled_of_compile h hmem
  have hid : ((new id typeName).callAll calls).id = id := by
    rw [hbuilt.others]
    rfl
  rw [hid] at hn
  refine ⟨n, hn, fun key ↦ ?_, fun key input hinput ↦ ?_⟩
  · rw [hcompiled.keys_inputs]
    exact hbuilt.mem_keys_inputs_iff
  · have hrel := hcompiled.rel_inputs key
    rw [hinput, hbuilt.inputs] at hrel
    -- Compiling keeps the channels of an input, and building has collected them by its key.
    rcases hunion : Input.union? (calls.filterMap (·.channelAt key)) with - | declared
    · rw [hunion] at hrel
      cases hrel
    · rw [hunion] at hrel
      cases hrel with
      | some hchannels => rw [hchannels, Input.channels_of_union? hunion]

/-- Calls that read two nodes by one input, one of them twice, and set an output twice. -/
def mergingCalls : List Call :=
  [.input "in" "left" "data", .output "sum" "Draft", .input "base" "left" "data",
    .input "in" "right" "data", .output "sum" "Data", .input "in" "left" "data"]

end Node

/-- Two nodes and one made by calls that reads them. -/
def merging : Declaration where
  id := "p"
  root := none
  mode := .sync
  nodes :=
    [(Node.new "left" "Source").withOutput "data" "Data",
      (Node.new "merge" "Merge").callAll Node.mergingCalls,
      (Node.new "right" "Source").withOutput "data" "Data"]

/-- Executors for the three nodes. -/
def mergingDeployment : Deployment :=
  .ofList (["left", "merge", "right"].map fun id ↦ (id, ⟨.native id, none⟩))

/-- The same output is read twice, with another one in between. -/
theorem unions_of_calls_merging : ∃ report n input,
    merging.compile mergingDeployment {} = .ok report ∧ report.document.node? "merge" = some n ∧
      n.inputs.get? "in" = some input ∧
      input.channels.map channelOf = [⟨"left", "data"⟩, ⟨"right", "data"⟩, ⟨"left", "data"⟩] := by
  have hnone : merging.violations mergingDeployment = [] := by decide +kernel
  obtain ⟨report, h⟩ := (reports_compile _ _ {}).exists_ok_iff.2 hnone
  obtain ⟨-, -, hdocument⟩ := Node.unions_of_calls "merge" "Merge" Node.mergingCalls
  obtain ⟨n, hn, hkeys, hchannels⟩ := hdocument _ _ _ _ (by simp [merging]) h
  obtain ⟨input, hinput⟩ : ∃ input, n.inputs.get? "in" = some input := by
    rw [← Option.isSome_iff_exists, ← Dict.contains, Dict.contains_iff_mem_keys, hkeys]
    exact ⟨"left", "data", by simp [Node.mergingCalls]⟩
  exact ⟨report, n, input, h, hn, hinput, hchannels "in" input hinput⟩

end Declaration
end Pipework
