import Mathlib.Data.Nat.Init
import Mathlib.Logic.Relation

/-!
# Processes

A process goes on from state to state until it comes to an end. What is known of one step is turned
here into what is known of the whole process:

* `Invariant.of_stateAt`: what the start has and every step keeps, every state has;
* `Invariant.exists_end`: if every step uses up something, the process ends;
* `Invariant.at_most_once`: what cannot happen again, once it has happened, happens at most once;
* `exists_step_of_change`: what holds at the start and not later changes at some step.
-/

namespace Pipework

/-- A process: the state in which it starts, and the next state of each one but the last. -/
structure Process (σ : Type) where
  start : σ
  next : σ → Option σ

namespace Process

variable {σ : Type} {p : Process σ} {P : σ → Prop} {m n : Nat} {s s' : σ}

/-- The state after `n` steps, if the process goes on for so long. -/
def stateAt (p : Process σ) : Nat → Option σ
  | 0 => some p.start
  | n + 1 => (p.stateAt n).bind p.next

theorem stateAt_succ (hs : p.stateAt n = some s) : p.stateAt (n + 1) = p.next s := by
  rw [stateAt, hs, Option.bind_some]

/-- A state that is reached has been reached from the one before it. -/
theorem exists_of_stateAt_succ (h : p.stateAt (n + 1) = some s') :
    ∃ s, p.stateAt n = some s ∧ p.next s = some s' :=
  Option.bind_eq_some_iff.1 h

/-- The process leads from one state to another. -/
def Reaches (p : Process σ) : σ → σ → Prop :=
  Relation.ReflTransGen fun s s' ↦ p.next s = some s'

/-- A state that is reachable is the state at some time. -/
theorem Reaches.exists_stateAt (h : p.Reaches p.start s) : ∃ n, p.stateAt n = some s := by
  induction h with
  | refl => exact ⟨0, rfl⟩
  | tail _ hnext ih =>
    obtain ⟨n, hn⟩ := ih
    exact ⟨n + 1, (stateAt_succ hn).trans hnext⟩

/-- What holds at the start and not later changes at some step. -/
theorem exists_step_of_change (hstart : P p.start) (hs : p.stateAt n = some s) (hnot : ¬ P s) :
    ∃ k s₀ s₁, p.stateAt k = some s₀ ∧ p.stateAt (k + 1) = some s₁ ∧ P s₀ ∧ ¬ P s₁ := by
  induction n generalizing s with
  | zero => exact absurd (Option.some.inj hs ▸ hstart) hnot
  | succ n ih =>
    obtain ⟨s₀, hs₀, -⟩ := exists_of_stateAt_succ hs
    by_cases hP : P s₀
    · exact ⟨n, s₀, s, hs₀, hs, hP, hnot⟩
    · exact ih hs₀ hP

/-- A property that the start has and every step keeps. -/
structure Invariant (p : Process σ) (P : σ → Prop) : Prop where
  start : P p.start
  next : ∀ s s', P s → p.next s = some s' → P s'

namespace Invariant

/-- **An invariant holds of the state at every time.** -/
theorem of_stateAt (h : p.Invariant P) (hs : p.stateAt n = some s) : P s := by
  induction n generalizing s with
  | zero => exact Option.some.inj hs ▸ h.start
  | succ n ih =>
    obtain ⟨s₀, hs₀, hnext⟩ := exists_of_stateAt_succ hs
    exact h.next s₀ s (ih hs₀) hnext

/-- From any state on, there are at most as many steps as its measure says. -/
theorem exists_end_of_stateAt (h : p.Invariant P) (measure : σ → Nat)
    (hless : ∀ s s', P s → p.next s = some s' → measure s' < measure s)
    (hs : p.stateAt n = some s) :
    ∃ m ≤ n + measure s, ∃ last, p.stateAt m = some last ∧ p.next last = none := by
  induction hk : measure s using Nat.strong_induction_on generalizing n s with
  | _ k ih =>
    rcases hnext : p.next s with - | s'
    · exact ⟨n, by omega, s, hs, hnext⟩
    · have hlt := hless s s' (h.of_stateAt hs) hnext
      rw [← stateAt_succ hs] at hnext
      obtain ⟨m, hm, hend⟩ := ih _ (hk ▸ hlt) hnext rfl
      exact ⟨m, by omega, hend⟩

/-- **A process that uses up something at every step ends.** -/
theorem exists_end (h : p.Invariant P) (measure : σ → Nat)
    (hless : ∀ s s', P s → p.next s = some s' → measure s' < measure s) :
    ∃ m ≤ measure p.start, ∃ last, p.stateAt m = some last ∧ p.next last = none := by
  obtain ⟨m, hm, hend⟩ := h.exists_end_of_stateAt measure hless (n := 0) rfl
  exact ⟨m, by omega, hend⟩

/-- What has happened is passed from then on. -/
theorem passed_of_lt (h : p.Invariant P) {Happens Passed : σ → Prop}
    (hpass : ∀ s s', P s → Happens s → p.next s = some s' → Passed s')
    (hkeep : ∀ s s', P s → Passed s → p.next s = some s' → Passed s')
    (hs : p.stateAt m = some s) (hhappens : Happens s) (hlt : m < n)
    (hs' : p.stateAt n = some s') : Passed s' := by
  induction n, hlt using Nat.le_induction generalizing s' with
  | base =>
    rw [stateAt_succ hs] at hs'
    exact hpass s s' (h.of_stateAt hs) hhappens hs'
  | succ n _ ih =>
    obtain ⟨u, hu, hnext⟩ := exists_of_stateAt_succ hs'
    exact hkeep u s' (h.of_stateAt hu) (ih hu) hnext

/-- **What cannot happen once it is passed happens at most once.** -/
theorem at_most_once (h : p.Invariant P) (Happens Passed : σ → Prop)
    (hpass : ∀ s s', P s → Happens s → p.next s = some s' → Passed s')
    (hkeep : ∀ s s', P s → Passed s → p.next s = some s' → Passed s')
    (hnot : ∀ s, P s → Passed s → ¬ Happens s)
    (hs : p.stateAt m = some s) (hs' : p.stateAt n = some s') (hm : Happens s)
    (hn : Happens s') : m = n := by
  rcases Nat.lt_trichotomy m n with hlt | heq | hgt
  · exact absurd hn (hnot s' (h.of_stateAt hs') (h.passed_of_lt hpass hkeep hs hm hlt hs'))
  · exact heq
  · exact absurd hm (hnot s (h.of_stateAt hs) (h.passed_of_lt hpass hkeep hs' hn hgt hs))

end Invariant
end Process
end Pipework
