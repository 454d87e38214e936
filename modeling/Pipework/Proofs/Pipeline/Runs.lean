import Pipework.Proofs.Pipeline.Settled

/-!
# Stages run in any order

The stages of a pipeline can be run in any order and any number of times, and each run may fail. A
state that is reached by such a sequence is the result of a build if the last successes stand in the
right order (`build_eq_runAll`): contexts before channels before adjacency, and the deployment
anywhere. What was written before the last success of a stage leaves no trace.

The argument goes along the sequence. From its last success on, a stage is settled, since the
stages on which it depends are settled already; so all stages are settled in the end, and the
settled pipeline is the result of the build.
-/

namespace Pipework

deriving instance DecidableEq for Stage

/-- Whether two stages are the same, up to the deployment that they attach. -/
def Stage.sameKind : Stage → Stage → Bool
  | .contexts, .contexts => true
  | .channels, .channels => true
  | .adjacency, .adjacency => true
  | .deployment _, .deployment _ => true
  | _, _ => false

namespace Pipeline

variable {p q : Pipeline} {m : Deployment} {ss : List Stage}

/-! ### Sequences of runs -/

/-- The pipeline after stages have run on it one after another, whether they succeeded or not. -/
def runAll (p : Pipeline) (ss : List Stage) : Pipeline :=
  ss.foldl (fun p s ↦ (s.run p).pipeline) p

/-- The stage at a position of the sequence is run with success. -/
def SucceedsAt (p : Pipeline) (ss : List Stage) (i : Nat) (s : Stage) : Prop :=
  ss[i]? = some s ∧ (s.run (p.runAll (ss.take i))).result = .ok ()

/-- The stage at a position is run with success, and no stage of its kind is later. -/
structure LastSuccess (p : Pipeline) (ss : List Stage) (i : Nat) (s : Stage) : Prop where
  succeeds : p.SucceedsAt ss i s
  last : ∀ j t, i < j → s.sameKind t = true → ¬ p.SucceedsAt ss j t

instance (p : Pipeline) (ss : List Stage) (i : Nat) (s : Stage) :
    Decidable (p.SucceedsAt ss i s) :=
  inferInstanceAs (Decidable (_ ∧ _))

/-- A run is the last successful one of its kind if no later one of the kind succeeds. -/
theorem lastSuccess_iff {i : Nat} {s : Stage} : p.LastSuccess ss i s ↔ p.SucceedsAt ss i s ∧
    ∀ j < ss.length, i < j → ∀ t ∈ ss[j]?, s.sameKind t = true → ¬ p.SucceedsAt ss j t := by
  constructor
  · exact fun h ↦ ⟨h.succeeds, fun j _ hij t _ ht ↦ h.last j t hij ht⟩
  · refine fun h ↦ ⟨h.1, fun j t hij ht hj ↦ h.2 j ?_ hij t hj.1 ht hj⟩
    exact (List.getElem?_eq_some_iff.1 hj.1).1

instance (p : Pipeline) (ss : List Stage) (i : Nat) (s : Stage) :
    Decidable (p.LastSuccess ss i s) :=
  decidable_of_iff _ lastSuccess_iff.symm

/-- A sequence may be run in two parts. -/
theorem runAll_append (p : Pipeline) (ss ts : List Stage) :
    p.runAll (ss ++ ts) = (p.runAll ss).runAll ts :=
  List.foldl_append

/-- **What every run preserves, a sequence of runs preserves.** -/
theorem runAll_preserves {P : Pipeline → Prop} (hstep : ∀ p s, P p → P (Stage.run p s).pipeline)
    (hp : P p) (ss : List Stage) : P (p.runAll ss) := by
  induction ss generalizing p with
  | nil => exact hp
  | cons s ss ih => exact ih (hstep p s hp)

theorem bare_runAll (p : Pipeline) (ss : List Stage) : (p.runAll ss).bare = p.bare :=
  runAll_preserves (P := fun q ↦ q.bare = p.bare) (fun _ s h ↦ (bare_run s).trans h) rfl ss

theorem indexed_runAll (hp : p.Indexed) (ss : List Stage) : (p.runAll ss).Indexed :=
  indexed_of_bare_eq (bare_runAll p ss).symm hp

/-- What holds after some runs and is preserved holds after any later ones. -/
theorem runAll_take_preserves {P : Pipeline → Prop}
    (hstep : ∀ p s, P p → P (Stage.run p s).pipeline) {i j : Nat} (hij : i ≤ j)
    (hp : P (p.runAll (ss.take i))) : P (p.runAll (ss.take j)) := by
  obtain ⟨k, rfl⟩ := Nat.exists_eq_add_of_le hij
  rw [List.take_add, runAll_append]
  exact runAll_preserves hstep hp _

/-- After a success the stage has written what it had to. -/
theorem SucceedsAt.get_eq {i : Nat} {s : Stage} (h : p.SucceedsAt ss i s) :
    (s.run (p.runAll (ss.take i))).get = .ok (p.runAll (ss.take (i + 1))) := by
  rw [List.take_add_one, h.1, runAll_append]
  rcases hr : s.run (p.runAll (ss.take i)) with ⟨q, result⟩
  have hresult : result = .ok () := by
    rw [← h.2, hr]
  rw [hresult]
  show Except.ok q = .ok (s.run _).pipeline
  rw [hr]

/-- A run in the second part succeeds if it does in the whole sequence. -/
theorem succeedsAt_drop {i j : Nat} {s : Stage} :
    (p.runAll (ss.take i)).SucceedsAt (ss.drop i) j s ↔ p.SucceedsAt ss (i + j) s := by
  rw [SucceedsAt, SucceedsAt, List.getElem?_drop, List.take_add, runAll_append]

/-! ### Settled from the last success on -/

/-- A run either fails and changes nothing, or succeeds. -/
theorem run_preserves {P : Pipeline → Prop} (hp : p.Indexed) (h : P p) {s : Stage}
    (hstep : ∀ q, (s.run p).get = .ok q → P q) : P (s.run p).pipeline := by
  rcases run_eq_or hp s with ⟨q, hq⟩ | ⟨e, he⟩
  · rw [hq]
    exact hstep q (by rw [hq]; rfl)
  · rw [he]
    exact h

/-- Contexts are settled. -/
def Contextual (p : Pipeline) : Prop :=
  p.Indexed ∧ Stage.contexts.Settled p

/-- Contexts and channels are settled. -/
def Resolved (p : Pipeline) : Prop :=
  p.Contextual ∧ Stage.channels.Settled p

/-- Contexts, channels and adjacency are settled. -/
def Validated (p : Pipeline) : Prop :=
  p.Resolved ∧ Stage.adjacency.Settled p

/-- Contexts that are settled stay so, whatever is run. -/
theorem Contextual.run (h : p.Contextual) (s : Stage) : (s.run p).pipeline.Contextual :=
  ⟨indexed_run h.1 s, run_preserves h.1 h.2 fun _ hq ↦ settled_contexts_run h.1 h.2 hq⟩

/-- Channels that are settled after contexts stay so, whatever is run. -/
theorem Resolved.run (h : p.Resolved) (s : Stage) : (s.run p).pipeline.Resolved :=
  ⟨h.1.run s, run_preserves h.1.1 h.2 fun _ hq ↦ settled_channels_run h.1.1 h.1.2 h.2 hq⟩

/-- Neighbours and layers that are settled after channels stay so, whatever is run. -/
theorem Validated.run (h : p.Validated) (s : Stage) : (s.run p).pipeline.Validated :=
  ⟨h.1.run s,
    run_preserves h.1.1.1 h.2 fun _ hq ↦ settled_adjacency_run h.1.1.1 h.1.1.2 h.1.2 h.2 hq⟩

/-- Contexts, channels and adjacency are settled in the end if they have succeeded in this order. -/
theorem validated_runAll (hp : p.Indexed) {i j k : Nat} (hi : p.SucceedsAt ss i .contexts)
    (hj : p.SucceedsAt ss j .channels) (hk : p.SucceedsAt ss k .adjacency) (hij : i < j)
    (hjk : j < k) : (p.runAll ss).Validated := by
  -- At each of the three positions one more stage is settled, and stays so up to the next.
  have hcontextual : (p.runAll (ss.take (i + 1))).Contextual :=
    ⟨indexed_runAll hp _, settled_of_run (indexed_runAll hp _) hi.get_eq⟩
  have hresolved : (p.runAll (ss.take (j + 1))).Resolved :=
    ⟨runAll_take_preserves (P := Contextual) (fun _ s h ↦ h.run s) (by omega) hcontextual,
      settled_of_run (indexed_runAll hp _) hj.get_eq⟩
  have hvalidated : (p.runAll (ss.take (k + 1))).Validated :=
    ⟨runAll_take_preserves (P := Resolved) (fun _ s h ↦ h.run s) (by omega) hresolved,
      settled_of_run (indexed_runAll hp _) hk.get_eq⟩
  have hlength : k + 1 ≤ ss.length := (List.getElem?_eq_some_iff.1 hk.1).1
  have := runAll_take_preserves (P := Validated) (fun _ s h ↦ h.run s) hlength hvalidated
  rwa [List.take_length] at this

/-- A deployment is settled in the end if no other one is attached. -/
theorem settled_deployment_runAll (hp : p.Indexed) (h : (Stage.deployment m).Settled p)
    (hnone : ∀ j m', ¬ p.SucceedsAt ss j (.deployment m')) :
    (Stage.deployment m).Settled (p.runAll ss) := by
  induction ss generalizing p with
  | nil => exact h
  | cons s ss ih =>
    -- A first run that succeeds is no deployment; the later ones are runs of the rest.
    refine ih (indexed_run hp s) (run_preserves hp h fun q hq ↦ ?_) fun j m' hj ↦ ?_
    · refine settled_deployment_run hp h (fun m' hm' ↦ hnone 0 m' ⟨congrArg some hm', ?_⟩) hq
      rw [← hm', List.take_zero]
      exact congrArg Run.result (eq_of_get_eq_ok hq)
    · exact hnone (1 + j) m' (succeedsAt_drop.1 hj)

/-- **Only the last successes count.** However the stages of an assembled pipeline are run, if the
last success of the contexts comes before that of the channels and this one before that of the
adjacency, then the pipeline is the result of a build with the deployment attached last. -/
theorem build_eq_runAll {d : Declaration} {options : CompileOptions}
    (hp : assemble d options = .ok p) {i j k l : Nat} (hcontexts : p.LastSuccess ss i .contexts)
    (hchannels : p.LastSuccess ss j .channels) (hadjacency : p.LastSuccess ss k .adjacency)
    (hij : i < j) (hjk : j < k) (hdeployment : p.LastSuccess ss l (.deployment m)) :
    d.build m options = .ok (p.runAll ss) := by
  have hassembled := assembled_of_assemble hp
  have hindexed := hassembled.indexed
  obtain ⟨⟨⟨-, hcontexts⟩, hchannels⟩, hadjacency⟩ := validated_runAll hindexed
    hcontexts.succeeds hchannels.succeeds hadjacency.succeeds hij hjk
  -- The deployment is settled from its own position on, wherever the others stand.
  have hdeployed : (Stage.deployment m).Settled (p.runAll ss) := by
    rw [← List.take_append_drop (l + 1) ss, runAll_append]
    refine settled_deployment_runAll (indexed_runAll hindexed _)
      (settled_of_run (indexed_runAll hindexed _) hdeployment.succeeds.get_eq) fun j m' hj ↦ ?_
    exact hdeployment.last _ _ (by omega) rfl (succeedsAt_drop.1 hj)
  refine build_eq_ok_iff.2 ⟨?_, hcontexts, hchannels, hadjacency, hdeployed⟩
  rw [bare_runAll, hassembled.bare_eq, hp]

theorem isSome_assemble_relay : (assemble .relay {}).toOption.isSome = true := by decide +kernel

/-- Channels and adjacency that run too early, and a deployment that is refused, leave no trace. -/
theorem build_relay_eq_runAll : ∃ p, assemble .relay {} = .ok p ∧
    Declaration.relay.build .relay {} = .ok (p.runAll [.channels, .adjacency, .contexts,
      .deployment .relay, .channels, .adjacency, .deployment .empty]) := by
  have hp := eq_ok_get_of_isSome isSome_assemble_relay
  refine ⟨_, hp, build_eq_runAll (i := 2) (j := 4) (k := 5) (l := 3) hp ?_ ?_ ?_ ?_ ?_ ?_⟩
  all_goals decide +kernel

end Pipeline
end Pipework
