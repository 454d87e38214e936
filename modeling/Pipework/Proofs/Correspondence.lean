import Mathlib.Data.List.Forall2

/-!
# Lists whose members correspond

A declaration, the pipeline built from it and the document emitted in the end have their nodes in
the same order. What is known of them is known node by node, as a relation between members at the
same place of two lists. Here is what that gives for the lists as wholes: for what is mapped or
collected from them, and for computations that run through them and may fail.
-/

namespace Pipework

variable {α β γ ε σ : Type}

/-! ### Members -/

/-- A member of one list has a counterpart in the other one. -/
theorem exists_mem_of_forall₂ {R : α → β → Prop} {as : List α} {bs : List β}
    (h : List.Forall₂ R as bs) {a : α} (ha : a ∈ as) : ∃ b ∈ bs, R a b := by
  induction h with
  | nil => cases ha
  | cons hab _ ih =>
    rcases List.mem_cons.1 ha with rfl | ha
    · exact ⟨_, List.mem_cons_self, hab⟩
    · obtain ⟨b, hb, hR⟩ := ih ha
      exact ⟨b, List.mem_cons_of_mem _ hb, hR⟩

theorem exists_mem_of_forall₂_right {R : α → β → Prop} {as : List α} {bs : List β}
    (h : List.Forall₂ R as bs) {b : β} (hb : b ∈ bs) : ∃ a ∈ as, R a b :=
  exists_mem_of_forall₂ (R := fun b a ↦ R a b) h.flip hb

/-- Members that correspond are members. -/
theorem forall₂_mem {R : α → β → Prop} {as : List α} {bs : List β} (h : List.Forall₂ R as bs) :
    List.Forall₂ (fun a b ↦ a ∈ as ∧ b ∈ bs ∧ R a b) as bs := by
  induction h with
  | nil => exact .nil
  | cons hab _ ih =>
    refine .cons ⟨List.mem_cons_self, List.mem_cons_self, hab⟩ (ih.imp fun a b ⟨ha, hb, hR⟩ ↦ ?_)
    exact ⟨List.mem_cons_of_mem _ ha, List.mem_cons_of_mem _ hb, hR⟩

/-- Lists that correspond to the same list correspond to each other. -/
theorem forall₂_of_left {R : α → β → Prop} {S : α → γ → Prop} {as : List α} {bs : List β}
    {cs : List γ} (h : List.Forall₂ R as bs) (h' : List.Forall₂ S as cs) :
    List.Forall₂ (fun b c ↦ ∃ a, R a b ∧ S a c) bs cs := by
  induction h generalizing cs with
  | nil =>
    cases h'
    exact .nil
  | cons hab _ ih =>
    cases h' with
    | cons hac htail => exact .cons ⟨_, hab, hac⟩ (ih htail)

/-- A list between two that correspond to it. -/
theorem exists_forall₂_of_forall₂ {R : α → β → Prop} {S : α → γ → Prop} {T : β → γ → Prop}
    {as : List α} {bs : List β} (h : List.Forall₂ R as bs)
    (hR : ∀ a b, R a b → ∃ c, S a c ∧ T b c) :
    ∃ cs, List.Forall₂ S as cs ∧ List.Forall₂ T bs cs := by
  induction h with
  | nil => exact ⟨[], .nil, .nil⟩
  | cons hab _ ih =>
    obtain ⟨c, hc, hc'⟩ := hR _ _ hab
    obtain ⟨cs, hcs, hcs'⟩ := ih
    exact ⟨c :: cs, .cons hc hcs, .cons hc' hcs'⟩

/-- What corresponds to a concatenation can be split where the concatenation was put together. -/
theorem forall₂_append_left {R : α → β → Prop} {as as' : List α} {bs : List β}
    (h : List.Forall₂ R (as ++ as') bs) :
    ∃ bs₁ bs₂, bs = bs₁ ++ bs₂ ∧ List.Forall₂ R as bs₁ ∧ List.Forall₂ R as' bs₂ := by
  refine ⟨bs.take as.length, bs.drop as.length, (List.take_append_drop _ _).symm, ?_, ?_⟩
  · simpa using List.forall₂_take as.length h
  · simpa using List.forall₂_drop as.length h

/-- A list with an entry wherever another one has an entry is at least as long. -/
theorem length_le_of_getElem? {as : List α} {bs : List β}
    (h : ∀ (k : Nat) a, as[k]? = some a → ∃ b, bs[k]? = some b) : as.length ≤ bs.length := by
  by_contra hlt
  obtain ⟨b, hb⟩ := h bs.length _ (List.getElem?_eq_getElem (Nat.not_le.1 hlt))
  simp at hb

/-- Lists correspond if their members do, place by place. -/
theorem forall₂_of_getElem? {R : α → β → Prop} {as : List α} {bs : List β}
    (h : ∀ (k : Nat) a, as[k]? = some a → ∃ b, bs[k]? = some b ∧ R a b)
    (h' : ∀ (k : Nat) b, bs[k]? = some b → ∃ a, as[k]? = some a) : List.Forall₂ R as bs := by
  have hle : as.length ≤ bs.length := length_le_of_getElem? fun k a hk ↦ by
    obtain ⟨b, hb, -⟩ := h k a hk
    exact ⟨b, hb⟩
  refine List.forall₂_iff_get.2 ⟨Nat.le_antisymm hle (length_le_of_getElem? h'), fun k hk hk' ↦ ?_⟩
  obtain ⟨b, hb, hR⟩ := h k as[k] (List.getElem?_eq_getElem hk)
  obtain rfl := Option.some.inj ((List.getElem?_eq_getElem hk').symm.trans hb)
  exact hR

/-! ### Maps -/

/-- Lists with equal images correspond entry by entry. -/
theorem forall₂_of_map_eq {f : α → γ} {g : β → γ} {as : List α} {bs : List β}
    (h : as.map f = bs.map g) : List.Forall₂ (fun a b ↦ f a = g b) as bs := by
  rw [← List.forall₂_eq_eq_eq, List.forall₂_map_left_iff, List.forall₂_map_right_iff] at h
  exact h

theorem map_eq_of_forall₂ {R : α → β → Prop} {f : α → γ} {g : β → γ} {as : List α} {bs : List β}
    (h : List.Forall₂ R as bs) (hR : ∀ a b, R a b → f a = g b) : as.map f = bs.map g := by
  induction h with
  | nil => rfl
  | cons hab _ ih => rw [List.map_cons, List.map_cons, hR _ _ hab, ih]

/-- Corresponding entries that yield the same lists make up the same list. -/
theorem flatMap_eq_of_forall₂ {R : α → β → Prop} {f : α → List γ} {g : β → List γ} {as : List α}
    {bs : List β} (h : List.Forall₂ R as bs) (hR : ∀ a b, R a b → f a = g b) :
    as.flatMap f = bs.flatMap g := by
  rw [List.flatMap_def, List.flatMap_def, map_eq_of_forall₂ h hR]

/-- Corresponding entries have the same numbers. -/
theorem forall₂_zipIdx {R : α → β → Prop} {as : List α} {bs : List β} (h : List.Forall₂ R as bs)
    (k : Nat) : List.Forall₂ (fun a b ↦ R a.1 b.1 ∧ a.2 = b.2) (as.zipIdx k) (bs.zipIdx k) := by
  induction h generalizing k with
  | nil => exact .nil
  | cons hab _ ih => exact .cons ⟨hab, rfl⟩ (ih (k + 1))

/-! ### Computations that may fail -/

/-- Lists whose entries are computed alike are computed alike as a whole, with the same first
error. -/
theorem mapM_congr {f : α → Except ε γ} {g : β → Except ε γ} {as : List α} {bs : List β}
    (h : List.Forall₂ (fun a b ↦ f a = g b) as bs) : as.mapM f = bs.mapM g := by
  induction h with
  | nil => rfl
  | cons hab _ ih => rw [List.mapM_cons, List.mapM_cons, hab, ih]

theorem forM_congr {f : α → Except ε Unit} {g : β → Except ε Unit} {as : List α} {bs : List β}
    (h : List.Forall₂ (fun a b ↦ f a = g b) as bs) : as.forM f = bs.forM g := by
  induction h with
  | nil => rfl
  | cons hab _ ih => rw [List.forM, List.forM, hab, ih]

/-- A fold only depends on what its steps do with the entries. -/
theorem foldlM_congr {f : σ → α → Except ε σ} {g : σ → β → Except ε σ} {as : List α} {bs : List β}
    (h : List.Forall₂ (fun a b ↦ ∀ s, f s a = g s b) as bs) (s : σ) :
    as.foldlM f s = bs.foldlM g s := by
  induction h generalizing s with
  | nil => rfl
  | cons hab _ ih =>
    rw [List.foldlM_cons, List.foldlM_cons, hab]
    congr 1
    funext s'
    exact ih s'

end Pipework
