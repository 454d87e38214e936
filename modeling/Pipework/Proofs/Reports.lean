import Pipework.Proofs.Dict

/-!
# Checks and what they report

A check runs through data in some order and stops at the first thing that is wrong. `Reports x es`
relates a check `x` to the list `es` of all things that are wrong, in that order: the check fails
with the first of them and succeeds if there is none. The list says what is looked for and in which
order; the check may compute a value on the way and stop early.

Lists compose by concatenation as checks do by sequencing (`Reports.bind`), also over the entries
of a list or a dictionary. A later check only has to report right when the earlier one has
succeeded, which is what makes the list easier to say than the check.
-/

namespace Pipework

variable {α β γ ε ε' : Type}

/-! ### Success of sequenced checks -/

/-- A sequence succeeds if both of its parts do. -/
theorem bind_eq_ok_iff {x : Except ε α} {f : α → Except ε β} {b : β} :
    x >>= f = .ok b ↔ ∃ a, x = .ok a ∧ f a = .ok b := by
  cases x with
  | error e => simp [bind, Except.bind]
  | ok a => simp [bind, Except.bind]

theorem map_eq_ok_iff {x : Except ε α} {f : α → β} {b : β} :
    x.map f = .ok b ↔ ∃ a, x = .ok a ∧ b = f a := by
  cases x with
  | error e => simp [Except.map]
  | ok a => simp [Except.map, eq_comm]

/-- A check that has its errors changed succeeds in the same cases. -/
theorem mapError_eq_ok_iff {x : Except ε α} {f : ε → ε'} {a : α} :
    x.mapError f = .ok a ↔ x = .ok a := by
  cases x with
  | error e => simp [Except.mapError]
  | ok b => simp [Except.mapError]

theorem seq_eq_ok_iff {x : Except ε Unit} {y : Except ε β} {b : β} :
    (x >>= fun _ ↦ y) = .ok b ↔ x = .ok () ∧ y = .ok b := by
  rw [bind_eq_ok_iff]
  exact ⟨fun ⟨_, hx, hy⟩ ↦ ⟨hx, hy⟩, fun ⟨hx, hy⟩ ↦ ⟨(), hx, hy⟩⟩

/-- A check of a list succeeds if that of every entry does. -/
theorem forM_eq_ok_iff {f : α → Except ε Unit} {as : List α} :
    as.forM f = .ok () ↔ ∀ a ∈ as, f a = .ok () := by
  induction as with
  | nil => simp [List.forM, pure, Except.pure]
  | cons a as ih =>
    rw [List.forM, seq_eq_ok_iff, List.forall_mem_cons, ← ih]

/-- A list of results has the result for each entry in its place. -/
theorem mapM_eq_ok_iff {f : α → Except ε β} {as : List α} {bs : List β} :
    as.mapM f = .ok bs ↔ List.Forall₂ (fun a b ↦ f a = .ok b) as bs := by
  induction as generalizing bs with
  | nil => simp [List.mapM_nil, pure, Except.pure, eq_comm]
  | cons a as ih =>
    rw [List.mapM_cons, bind_eq_ok_iff]
    constructor
    · rintro ⟨b, hb, hrest⟩
      obtain ⟨bs', hbs, heq⟩ := bind_eq_ok_iff.1 hrest
      cases heq
      exact .cons hb (ih.1 hbs)
    · rintro (_ | ⟨hb, hbs⟩)
      exact ⟨_, hb, bind_eq_ok_iff.2 ⟨_, ih.2 hbs, rfl⟩⟩

theorem toOption_eq_some_iff {x : Except ε α} {a : α} : x.toOption = some a ↔ x = .ok a := by
  cases x with
  | error e => simp [Except.toOption]
  | ok b => simp [Except.toOption]

/-- A computation that is known to succeed gives its value. -/
theorem eq_ok_get_of_isSome {x : Except ε α} (h : x.toOption.isSome = true) :
    x = .ok (x.toOption.get h) := by
  cases x with
  | error e => cases h
  | ok a => rfl

/-! ### Reports -/

/-- The check fails with the first entry of the list, and succeeds if the list is empty. -/
def Reports (x : Except ε α) (es : List ε) : Prop :=
  match x with
  | .ok _ => es = []
  | .error e => es.head? = some e

theorem reports_ok (a : α) : Reports (.ok a : Except ε α) [] := rfl

theorem reports_error (e : ε) : Reports (.error e : Except ε α) [e] := rfl

namespace Reports

variable {x : Except ε α} {es es' : List ε}

/-- A check fails with the first thing that is reported, and with nothing else. -/
theorem eq_error_iff (h : Reports x es) {e : ε} : x = .error e ↔ es.head? = some e := by
  rcases x with e' | a
  · rw [show es.head? = some e' from h]
    simp
  · rw [show es = [] from h]
    simp

/-- A check succeeds if nothing is reported. -/
theorem exists_ok_iff (h : Reports x es) : (∃ a, x = .ok a) ↔ es = [] := by
  rcases x with e' | a
  · have hne : es ≠ [] := by
      rintro rfl
      cases h
    simp [hne]
  · simp [show es = [] from h]

/-- **One check after another.** The second reports right at least when the first has succeeded. -/
theorem bind {f : α → Except ε β} (h : Reports x es) (hf : ∀ a, x = .ok a → Reports (f a) es') :
    Reports (x >>= f) (es ++ es') := by
  rcases x with e | a
  · show (es ++ es').head? = some e
    rw [List.head?_append, show es.head? = some e from h, Option.some_or]
  · rw [show es = [] from h]
    exact hf a rfl

/-- What is done with a result does not change what is reported. -/
theorem map (h : Reports x es) (f : α → β) : Reports (x.map f) es := by
  rcases x with e | a
  · exact h
  · exact h

/-- What is done with the value afterwards does not matter. -/
theorem bind_ok (h : Reports x es) (f : α → β) :
    Reports (x >>= fun a ↦ .ok (f a)) es := by
  rcases x with e | a
  · exact h
  · exact h

/-- Only the first entry of the list matters. -/
theorem of_head?_eq (h : Reports x es) (hhead : es.head? = es'.head?) : Reports x es' := by
  rcases x with e | a
  · exact hhead.symm.trans h
  · rw [show es = [] from h] at hhead
    exact List.head?_eq_none_iff.1 hhead.symm

/-- Errors that are changed are reported changed. -/
theorem mapError (h : Reports x es) (f : ε → ε') : Reports (x.mapError f) (es.map f) := by
  rcases x with e | a
  · show (es.map f).head? = some (f e)
    rw [List.head?_map, show es.head? = some e from h, Option.map_some]
  · show es.map f = []
    rw [show es = [] from h, List.map_nil]

end Reports

/-! ### Checks of many things -/

/-- **A check of every member of a list**, compared with a list of what is checked. -/
theorem reports_forM {f : β → Except ε Unit} {g : α → List ε} {as : List α} {bs : List β}
    (h : List.Forall₂ (fun a b ↦ Reports (f b) (g a)) as bs) :
    Reports (bs.forM f) (as.flatMap g) := by
  induction h with
  | nil => exact reports_ok ()
  | cons hab _ ih =>
    rw [List.flatMap_cons]
    exact hab.bind fun _ _ ↦ ih

/-- **A function that may fail on every member of a list**, compared with a list of what it is
applied to. -/
theorem reports_mapM {f : β → Except ε γ} {g : α → List ε} {as : List α} {bs : List β}
    (h : List.Forall₂ (fun a b ↦ Reports (f b) (g a)) as bs) :
    Reports (bs.mapM f) (as.flatMap g) := by
  induction h with
  | nil => exact reports_ok []
  | cons hab _ ih =>
    rw [List.mapM_cons, List.flatMap_cons]
    exact hab.bind fun b _ ↦ ih.bind_ok (b :: ·)

/-- A traversal reports what is wrong with the entries, in key order. -/
theorem reports_traverseEntries {f : String → β → Except ε γ} {g : String × β → List ε}
    {entries : List (String × β)} (h : ∀ e ∈ entries, Reports (f e.1 e.2) (g e)) :
    Reports (Dict.traverseEntries f entries) (entries.flatMap g) := by
  induction entries with
  | nil => exact reports_ok []
  | cons e entries ih =>
    obtain ⟨k, b⟩ := e
    have hfirst := (h (k, b) List.mem_cons_self).bind fun c _ ↦
      (ih fun e he ↦ h e (List.mem_cons_of_mem _ he)).bind_ok ((k, c) :: ·)
    rw [List.flatMap_cons, Dict.traverseEntries]
    rcases hf : f k b with e | c
    · rw [hf] at hfirst
      exact hfirst
    · rw [hf] at hfirst
      rcases ht : Dict.traverseEntries f entries with e | cs
      · rw [ht] at hfirst
        exact hfirst
      · rw [ht] at hfirst
        exact hfirst

/-- **A function that may fail on every entry of a dictionary**, in key order. -/
theorem reports_traverse {f : String → β → Except ε γ} {g : String × β → List ε} {d : Dict β}
    (h : ∀ e ∈ d.entries, Reports (f e.1 e.2) (g e)) :
    Reports (d.traverse f) (d.entries.flatMap g) := by
  have hentries := reports_traverseEntries h
  rw [Dict.traverse]
  split
  next e he =>
    rw [he] at hentries
    exact hentries
  next cs hcs =>
    rw [hcs] at hentries
    exact hentries

/-- A single condition. -/
theorem reports_ite {p : Prop} [Decidable p] (e : ε) :
    Reports (if p then .ok () else .error e) (if p then [] else [e]) := by
  split
  · exact reports_ok ()
  · exact reports_error e

end Pipework
