import Pipework.Proofs.Codec.Yielding
import Pipework.Proofs.Compile.Queries
import Pipework.Proofs.Compile.Result
import Pipework.Proofs.Document.Equality

/-!
# Reading a compiled document back

A compiled document can be written, has the current version and has no operations that would be
taken for others, since its operations come from a declaration that was read by name. Whether it is
read back from its texts then depends on two things that compiling does not look at, and on nothing
else (`rereadFrom_compiled_iff`):

* How deep its tree is. A configuration given as a text is read on its own and then stands several
  levels deeper in the document.
* Whether its doubles are read as they are written. A double that was read from a text with few
  digits may be written with digits that are read as its neighbour (`exists_not_rereadFrom`).
-/

namespace Pipework

/-! ### What is read has plain operations -/

/-- A name is read as the operation that has it, and as a custom one only if there is none. -/
theorem ResolverOp.isPlain_ofName (name : String) : (ofName name).IsPlain := by
  rw [ofName]
  split
  · trivial
  split
  · trivial
  split
  · trivial
  next hunnest hskip hlatest => exact ⟨hunnest, hskip, hlatest⟩

/-- Every operation in the declaration is plain. -/
def Declaration.PlainOps (d : Declaration) : Prop :=
  ∀ c ∈ d.nodes, ∀ e ∈ c.inputs.entries, ∀ s ∈ e.2.resolver, s.op.IsPlain

namespace Codec

theorem yields_resolverOp : resolverOp.Yields ResolverOp.IsPlain :=
  yields_via ResolverOp.isPlain_ofName

theorem yields_step : step.Yields fun s ↦ s.op.IsPlain :=
  yields_record (.cons yields_resolverOp trivial .any) fun _ h ↦ h.1

theorem yields_input : input.Yields fun i ↦ ∀ s ∈ i.resolver, s.op.IsPlain :=
  yields_record (.pass (.cons (yields_list yields_step) nofun .any)) fun _ h ↦ h.1

theorem yields_node :
    node.Yields fun n ↦ ∀ e ∈ n.inputs.entries, ∀ s ∈ e.2.resolver, s.op.IsPlain :=
  yields_record (.pass (.pass (.cons (yields_dict yields_input) trivial .any))) fun _ h ↦ h.1

/-- Documents that are read have plain operations. -/
theorem yields_document : document.Yields Document.PlainOps :=
  yields_record (.pass (.pass (.cons (yields_list yields_node) trivial .any))) fun _ h ↦ h.1

theorem yields_declaredStep : declaredStep.Yields fun s ↦ s.op.IsPlain :=
  yields_record (.cons yields_resolverOp trivial .any) fun _ h ↦ h.1

theorem yields_declaredInput {q : Declaration.Step → Prop} (h : declaredStep.Yields q) :
    declaredInput.Yields fun i ↦ ∀ s ∈ i.resolver, q s :=
  yields_record (.pass (.cons (yields_list h) nofun .any)) fun _ h ↦ h.1

theorem yields_declaredNode {q : Declaration.Step → Prop} (h : declaredStep.Yields q) :
    declaredNode.Yields fun c ↦ ∀ e ∈ c.inputs.entries, ∀ s ∈ e.2.resolver, q s :=
  yields_record
    (.pass (.pass (.pass (.pass (.cons (yields_dict (yields_declaredInput h)) nofun .any)))))
    fun _ h ↦ h.1

/-- What holds of every step that is read holds of all steps in a declaration that is read. -/
theorem yields_steps {q : Declaration.Step → Prop} (h : declaredStep.Yields q) :
    declaration.Yields fun d ↦
      ∀ c ∈ d.nodes, ∀ e ∈ c.inputs.entries, ∀ s ∈ e.2.resolver, q s :=
  yields_record (.pass (.pass (.pass (.cons (yields_list (yields_declaredNode h)) trivial .any))))
    fun _ h ↦ h.1

/-- Declarations that are read have plain operations. -/
theorem yields_declaration : declaration.Yields Declaration.PlainOps :=
  yields_steps yields_declaredStep

end Codec

/-! ### Reading a document back -/

theorem Double.Rereads.isNaN {x : Double} (h : x.Rereads) : x.isNaN = false := by
  have hfinite := h.isFinite
  rw [Double.isFinite, bne_iff_ne] at hfinite
  simp [Double.isNaN, hfinite]

namespace Document

/-- An equal document is read from the text, with the same canonical text and fingerprint. -/
def RereadFrom (d : Document) (text : String) : Prop :=
  ∃ d', ofText text = .ok d' ∧ (d' == d) = true ∧ d'.canonicalText = d.canonicalText ∧
    d'.fingerprint = d.fingerprint

/-- A document that is read has the current version and plain operations. -/
theorem of_ofText {text : String} {d : Document} (h : ofText text = .ok d) :
    d.version = currentVersion ∧ d.PlainOps := by
  obtain ⟨hparse, hversion⟩ := ofText_eq_ok_iff_parse.1 h
  exact ⟨hversion, Codec.yields_document.of_parse hparse⟩

/-- **When a document is read back from a text of its tree**: if the tree is rereadable. An equal
document that is written in the same way has the same tree, and so rereads itself. -/
theorem rereadFrom_iff {d : Document} (hversion : d.version = currentVersion)
    (hfinite : d.checkFinite = .ok ()) (hops : d.PlainOps) {text : String}
    (htext : d.toJson.toRaw.IsText text) :
    d.RereadFrom text ↔ Json.Rereadable Json.maxDepth d.toJson := by
  constructor
  · rintro ⟨d', hread, heq, hcanonical, -⟩
    obtain ⟨hversion', hops'⟩ := of_ofText hread
    have hfinite' : d'.checkFinite = .ok () := by
      rw [canonicalText_of_checkFinite hfinite, canonicalText] at hcanonical
      obtain ⟨u, hu, -⟩ := bind_eq_ok_iff.1 hcanonical
      exact hu
    rw [canonicalText_of_checkFinite hfinite, canonicalText_of_checkFinite hfinite',
      Except.ok.injEq, compact_eq_iff heq] at hcanonical
    rw [← hcanonical] at htext ⊢
    exact (ofText_eq_ok_iff hversion' hops' htext).1 hread
  · intro h
    exact ⟨d, (ofText_eq_ok_iff hversion hops htext).2 h,
      Codec.equates_document.beq_self fun x hx ↦ (h.2 x hx).isNaN, rfl, rfl⟩

end Document

/-! ### Compiled documents -/

namespace Declaration

variable {d : Declaration} {m : Deployment} {options : CompileOptions} {report : CompileReport}

/-- **What has been compiled passes the check for doubles.** -/
theorem checkFinite_of_compile (h : d.compile m options = .ok report) :
    report.document.checkFinite = .ok () := by
  obtain ⟨p, -, h⟩ := bind_eq_ok_iff.1 h
  obtain ⟨document, hemit, heq⟩ := bind_eq_ok_iff.1 h
  cases heq
  obtain ⟨u, hcheck, heq⟩ := bind_eq_ok_iff.1 hemit
  cases heq
  exact mapError_eq_ok_iff.1 hcheck

/-- Compiling keeps the operations of steps. -/
theorem plainOps_of_compile (hops : d.PlainOps) (h : d.compile m options = .ok report) :
    report.document.PlainOps := by
  intro n hn e he s hs
  obtain ⟨c, hc, hcompiled⟩ := exists_mem_of_forall₂_right (outcome_of_compile h).nodes hn
  obtain ⟨e', he', -, hqueries⟩ := exists_mem_of_forall₂_right hcompiled.inputs he
  have hmap := Pipeline.map_op_of_resolveSteps hqueries.resolver
  have hop : s.op ∈ e'.2.resolver.map (·.op) := by
    rw [← hmap]
    exact List.mem_map_of_mem hs
  obtain ⟨s', hs', heq⟩ := List.mem_map.1 hop
  rw [← heq]
  exact hops c hc e' he' s' hs'

/-- What has been compiled can be written, in both forms. -/
theorem exists_texts_of_compile (h : d.compile m options = .ok report) :
    ∃ canonical pretty, report.document.canonicalText = .ok canonical ∧
      report.document.prettyText = .ok pretty := by
  have hfinite := checkFinite_of_compile h
  exact ⟨_, _, Document.canonicalText_of_checkFinite hfinite,
    Document.prettyText_of_checkFinite hfinite⟩

/-- **A compiled document is read back from its text** if its doubles are, and if it is not too
deep. That the declaration was read from a text is what makes its operations plain. -/
theorem rereadFrom_iff_of_parse {source text : String}
    (hparse : Codec.declaration.parse source = .ok d) (h : d.compile m options = .ok report)
    (htext : report.document.canonicalText = .ok text ∨ report.document.prettyText = .ok text) :
    report.document.RereadFrom text ↔ Json.Rereadable Json.maxDepth report.document.toJson := by
  have hversion := (outcome_of_compile h).version
  have hfinite := checkFinite_of_compile h
  have hops := plainOps_of_compile (Codec.yields_declaration.of_parse hparse) h
  rw [Document.canonicalText_of_checkFinite hfinite,
    Document.prettyText_of_checkFinite hfinite] at htext
  rcases htext with ⟨⟨⟩⟩ | ⟨⟨⟩⟩
  · exact Document.rereadFrom_iff hversion hfinite hops (Json.isText_compact _)
  · exact Document.rereadFrom_iff hversion hfinite hops (Json.isText_pretty _)

/-- **When a compiled document is read back** from its compact and its indented text, which it
always has: if its tree is not too deep for a reader and its doubles are read as they are
written. -/
theorem rereadFrom_compiled_iff {source : String}
    (hparse : Codec.declaration.parse source = .ok d) (h : d.compile m options = .ok report) :
    ∃ canonical pretty, report.document.canonicalText = .ok canonical ∧
      report.document.prettyText = .ok pretty ∧
      (report.document.RereadFrom canonical ↔ report.document.toJson.depth ≤ Json.maxDepth ∧
        ∀ x ∈ report.document.toJson.doubles, x.Rereads) ∧
      (report.document.RereadFrom pretty ↔ report.document.toJson.depth ≤ Json.maxDepth ∧
        ∀ x ∈ report.document.toJson.doubles, x.Rereads) := by
  obtain ⟨canonical, pretty, hcanonical, hpretty⟩ := exists_texts_of_compile h
  exact ⟨canonical, pretty, hcanonical, hpretty, rereadFrom_iff_of_parse hparse h (.inl hcanonical),
    rereadFrom_iff_of_parse hparse h (.inr hpretty)⟩

/-- The text of a declaration with one node that has one parameter, for which the value is given. -/
def textWithParameter (value : String) : String :=
  "\x7b\"pipeline_id\": \"p\", \"nodes\": [\x7b\"id\": \"A\", " ++
    "\"node_type\": \x7b\"name\": \"x\"\x7d, \"kind\": \"importer\", " ++
    "\"parameters\": \x7b\"k\": " ++ value ++ "\x7d\x7d]\x7d"

/-- The document that a text is compiled to, with default options and no deployment. -/
def documentOf? (source : String) : Option Document :=
  (Codec.declaration.parse source).toOption.bind fun d ↦
    ((d.compile .empty {}).toOption).map (·.document)

/-- Evaluates a test of the document that a text is compiled to. -/
theorem exists_compile_of_any (source : String) (p : Document → Prop) [DecidablePred p]
    (h : (documentOf? source).any (fun document ↦ decide (p document)) = true) :
    ∃ d report, Codec.declaration.parse source = .ok d ∧ d.compile .empty {} = .ok report ∧
      p report.document := by
  rw [documentOf?] at h
  rcases hparse : Codec.declaration.parse source with f | d
  · rw [hparse] at h
    cases h
  · rcases hcompile : d.compile .empty {} with e | report
    · simp [hparse, hcompile, Except.toOption] at h
    · refine ⟨d, report, rfl, hcompile, ?_⟩
      simpa [hparse, hcompile, Except.toOption] using h

/-- A tenth is read back, from both forms of the text. -/
theorem rereadFrom_compiled_tenth :
    ∃ d report canonical pretty, Codec.declaration.parse (textWithParameter "0.1") = .ok d ∧
      d.compile .empty {} = .ok report ∧
      report.document.canonicalText = .ok canonical ∧ report.document.prettyText = .ok pretty ∧
      report.document.RereadFrom canonical ∧ report.document.RereadFrom pretty := by
  obtain ⟨d, report, hparse, hcompile, hreadable⟩ :=
    exists_compile_of_any (textWithParameter "0.1")
      (fun document ↦ document.toJson.depth ≤ Json.maxDepth ∧
        ∀ x ∈ document.toJson.doubles, x.Rereads) (by decide +kernel)
  obtain ⟨canonical, pretty, hcanonical, hpretty, hiff, hiff'⟩ :=
    rereadFrom_compiled_iff hparse hcompile
  exact ⟨d, report, canonical, pretty, hparse, hcompile, hcanonical, hpretty, hiff.2 hreadable,
    hiff'.2 hreadable⟩

/-- **A compiled document that is not read back**: its double was read from a text with one digit
and is written with seventeen, which are read as its neighbour. -/
theorem exists_not_rereadFrom :
    ∃ d report, Codec.declaration.parse (textWithParameter "2e-30") = .ok d ∧
      d.compile .empty {} = .ok report ∧ ∀ text, report.document.canonicalText = .ok text ∨
        report.document.prettyText = .ok text → ¬ report.document.RereadFrom text := by
  obtain ⟨d, report, hparse, hcompile, hdoubles⟩ :=
    exists_compile_of_any (textWithParameter "2e-30")
      (fun document ↦ ¬ ∀ x ∈ document.toJson.doubles, x.Rereads) (by decide +kernel)
  refine ⟨d, report, hparse, hcompile, fun text htext hreread ↦ hdoubles ?_⟩
  exact ((rereadFrom_iff_of_parse hparse hcompile htext).1 hreread).2

end Declaration
end Pipework
