import Mathlib.Data.List.Perm.Basic
import Pipework.Proofs.Correspondence
import Pipework.Proofs.Json.Reading

/-!
# Members in another order

The members of an object may stand in any order. `Raw.Rearranged` relates raw values that differ in
the order of members, at any depth, and in nothing else. A reader takes members one after the other,
so what it makes of an object does not depend on their order if its steps commute for members with
different names (`Run.exists_of_perm`); that no object repeats a name is `Raw.Distinct`.

Trees that are read from rearranged values are `Alike`: they are the same but for the order of
members (`alike_array`, `alike_object`), hence have the same normal form
(`normalize_eq_of_alike`).
-/

namespace Pipework

/-- Entries with different keys can be inserted in any order. -/
theorem Dict.insertEntry_comm {β : Type} {key key' : String} (h : key ≠ key') (value value' : β)
    (es : List (String × β)) :
    insertEntry key value (insertEntry key' value' es) =
      insertEntry key' value' (insertEntry key value es) := by
  -- The keys are exchanged if necessary, so that the first one is less.
  wlog hlt : key < key' generalizing key key' value value' with hsymm
  · exact (hsymm h.symm value' value (Std.lt_of_le_of_ne hlt h.symm)).symm
  have hnlt := String.lt_asymm hlt
  induction es with
  | nil => simp [insertEntry, hlt, hnlt, h.symm]
  | cons e es ih =>
    obtain ⟨k, v⟩ := e
    by_cases hbefore : key < k
    · by_cases hbefore' : key' < k
      · simp [insertEntry, hbefore, hbefore', hlt, hnlt, h.symm]
      · by_cases heq : key' = k
        · subst heq
          simp only [insertEntry, hbefore, hnlt, h.symm, String.lt_irrefl, if_true, if_false]
        · simp [insertEntry, hbefore, hbefore', heq, hnlt, h.symm]
    · by_cases heq : key = k
      · subst heq
        simp only [insertEntry, hnlt, h.symm, String.lt_irrefl, if_true, if_false]
      · have hafter : k < key := Std.lt_of_le_of_ne hbefore (Ne.symm heq)
        have hafter' : k < key' := String.lt_trans hafter hlt
        simp [insertEntry, hbefore, heq, String.lt_asymm hafter', (String.ne_of_lt hafter').symm,
          ih]

namespace Json

variable {α β γ K σ V : Type}

/-! ### Shuffled members -/

/-- The members in another order, each with a value related to the one that it had. -/
def Shuffled (R : V → V → Prop) (ms ms' : List (K × V)) : Prop :=
  ∃ mid, List.Forall₂ (fun m n ↦ n.1 = m.1 ∧ R m.2 n.2) ms mid ∧ mid.Perm ms'

/-- One member has one order only. -/
theorem Shuffled.singleton {R : V → V → Prop} {k : K} {v : V} {ms : List (K × V)}
    (h : Shuffled R [(k, v)] ms) : ∃ v', ms = [(k, v')] ∧ R v v' := by
  obtain ⟨mid, hmid, hperm⟩ := h
  cases hmid with
  | @cons _ n _ _ hn hnil =>
    cases hnil
    obtain rfl := List.singleton_perm.1 hperm
    obtain ⟨k', v'⟩ := n
    obtain ⟨rfl, hv⟩ := hn
    exact ⟨v', rfl, hv⟩

/-- Runs over related values end in related states. -/
theorem Run.exists_of_forall₂ {step : σ → String → V → σ → Prop} {E : σ → σ → Prop}
    {R : V → V → Prop}
    (h : ∀ {s s' name v v' t}, E s s' → R v v' → step s name v t →
      ∃ t', step s' name v' t' ∧ E t t')
    {ms ms' : List (String × V)} (hms : List.Forall₂ (fun m n ↦ n.1 = m.1 ∧ R m.2 n.2) ms ms')
    {s s' t : σ} (hs : E s s') (hrun : Run step s ms t) : ∃ t', Run step s' ms' t' ∧ E t t' := by
  induction hms generalizing s s' with
  | nil =>
    obtain rfl : t = s := hrun
    exact ⟨s', rfl, hs⟩
  | @cons m n ms ms' hm hms ih =>
    obtain ⟨name, v⟩ := m
    obtain ⟨name', v'⟩ := n
    obtain ⟨rfl, hv⟩ := hm
    obtain ⟨mid, hstep, hrest⟩ := hrun
    obtain ⟨mid', hstep', hmid⟩ := h hs hv hstep
    obtain ⟨t', hrun', ht⟩ := ih hmid hrest
    exact ⟨t', ⟨mid', hstep', hrun'⟩, ht⟩

/-- **Runs do not depend on the order of members** with different names if two steps do not, up to
an equivalence of states. -/
theorem Run.exists_of_perm {step : σ → String → V → σ → Prop} {E : σ → σ → Prop}
    (hrefl : ∀ s, E s s) (htrans : ∀ {s t u}, E s t → E t u → E s u)
    (hstep : ∀ {s s' name v t}, E s s' → step s name v t → ∃ t', step s' name v t' ∧ E t t')
    (hcomm : ∀ {s name v t name' v' u}, name ≠ name' → step s name v t → step t name' v' u →
      ∃ t' u', step s name' v' t' ∧ step t' name v u' ∧ E u u')
    {ms ms' : List (String × V)} (hperm : ms.Perm ms') (hnodup : (ms.map Prod.fst).Nodup) {s t : σ}
    (hrun : Run step s ms t) : ∃ t', Run step s ms' t' ∧ E t t' := by
  induction hperm generalizing s t with
  | nil => exact ⟨t, hrun, hrefl t⟩
  | cons m _ ih =>
    obtain ⟨name, v⟩ := m
    obtain ⟨mid, hfirst, hrest⟩ := hrun
    obtain ⟨t', hrun', ht⟩ := ih (List.nodup_cons.1 hnodup).2 hrest
    exact ⟨t', ⟨mid, hfirst, hrun'⟩, ht⟩
  | swap m n ms =>
    obtain ⟨name, v⟩ := m
    obtain ⟨name', v'⟩ := n
    obtain ⟨mid, hfirst, mid', hsecond, hrest⟩ := hrun
    have hne : name' ≠ name := by
      intro heq
      simp [heq] at hnodup
    -- After the swap the state may differ, but only up to `E`, which the rest of the run keeps.
    obtain ⟨x, y, hx, hy, hE⟩ := hcomm hne hfirst hsecond
    have hsame : List.Forall₂ (fun m n : String × V ↦ n.1 = m.1 ∧ m.2 = n.2) ms ms :=
      List.forall₂_same.2 fun _ _ ↦ ⟨rfl, rfl⟩
    obtain ⟨t', hrun', ht⟩ := Run.exists_of_forall₂ (fun hE hv hs ↦ hv ▸ hstep hE hs) hsame hE hrest
    exact ⟨t', ⟨x, hx, y, hy, hrun'⟩, ht⟩
  | trans hperm _ ih ih' =>
    obtain ⟨t', hrun', ht⟩ := ih hnodup hrun
    obtain ⟨t'', hrun'', ht'⟩ := ih' ((hperm.map Prod.fst).nodup_iff.1 hnodup) hrun'
    exact ⟨t'', hrun'', htrans ht ht'⟩

/-- A run over shuffled members ends in the same state if steps only depend on values up to the
relation, and commute for different names. -/
theorem Run.of_shuffled {step : σ → String → V → σ → Prop} {R : V → V → Prop}
    (hvalue : ∀ {s name v v' t}, R v v' → step s name v t → step s name v' t)
    (hcomm : ∀ {s name v t name' v' u}, name ≠ name' → step s name v t → step t name' v' u →
      ∃ t', step s name' v' t' ∧ step t' name v u)
    {ms ms' : List (String × V)} (h : Shuffled R ms ms') (hnodup : (ms.map Prod.fst).Nodup)
    {s t : σ} (hrun : Run step s ms t) : Run step s ms' t := by
  obtain ⟨mid, hmid, hperm⟩ := h
  have hnames : mid.map Prod.fst = ms.map Prod.fst :=
    (map_eq_of_forall₂ hmid fun _ _ hm ↦ hm.1.symm).symm
  have hvalues : ∃ t', Run step s mid t' ∧ t = t' := by
    refine Run.exists_of_forall₂ ?_ hmid rfl hrun
    rintro s _ name v v' t rfl hv hstep
    exact ⟨t, hvalue hv hstep, rfl⟩
  obtain ⟨_, hrun', rfl⟩ := hvalues
  have horder : ∃ t', Run step s ms' t' ∧ t = t' := by
    refine Run.exists_of_perm (fun _ ↦ rfl) Eq.trans (fun hs hstep ↦ ⟨_, hs ▸ hstep, rfl⟩) ?_ hperm
      (hnames ▸ hnodup) hrun'
    intro s name v t name' v' u hne hfirst hsecond
    obtain ⟨t', hfirst', hsecond'⟩ := hcomm hne hfirst hsecond
    exact ⟨t', u, hfirst', hsecond', rfl⟩
  obtain ⟨_, hrun'', rfl⟩ := horder
  exact hrun''

/-! ### Rearranged raw values -/

mutual

/-- The values differ in the order of members, at any depth. -/
def Raw.Rearranged : Raw → Raw → Prop
  | .array rs, r' => ∃ rs', Raw.RearrangedItems rs rs' ∧ r' = .array rs'
  | .object ms, r' => ∃ mid ms', Raw.RearrangedMembers ms mid ∧ mid.Perm ms' ∧ r' = .object ms'
  | r, r' => r' = r

/-- `Rearranged` for every item. -/
def Raw.RearrangedItems : List Raw → List Raw → Prop
  | [], rs' => rs' = []
  | r :: rs, rs' => ∃ r' rest, r.Rearranged r' ∧ Raw.RearrangedItems rs rest ∧ rs' = r' :: rest

/-- `Rearranged` for the value of every member. -/
def Raw.RearrangedMembers :
    List (StringSpelling × Raw) → List (StringSpelling × Raw) → Prop
  | [], ms' => ms' = []
  | (k, r) :: ms, ms' => ∃ r' rest, r.Rearranged r' ∧ Raw.RearrangedMembers ms rest ∧
      ms' = (k, r') :: rest

end

mutual

/-- No object has two members with one name. -/
def Raw.Distinct : Raw → Prop
  | .array rs => Raw.DistinctItems rs
  | .object ms => Raw.DistinctMembers ms ∧
      ms.Pairwise fun m n ↦ ∀ name, m.1.decode? = some name → n.1.decode? ≠ some name
  | _ => True

/-- `Distinct` for every item. -/
def Raw.DistinctItems : List Raw → Prop
  | [] => True
  | r :: rs => r.Distinct ∧ Raw.DistinctItems rs

/-- `Distinct` for the value of every member. -/
def Raw.DistinctMembers : List (StringSpelling × Raw) → Prop
  | [] => True
  | (_, r) :: ms => r.Distinct ∧ Raw.DistinctMembers ms

end

/-- The values differ in the order of members, and no object repeats a name. -/
def Raw.Reorders (r r' : Raw) : Prop :=
  r.Rearranged r' ∧ r.Distinct

namespace Raw

/-- Rearranged items are reordered one by one. -/
theorem forall₂_reorders {rs rs' : List Raw} (h : RearrangedItems rs rs') (hd : DistinctItems rs) :
    List.Forall₂ Reorders rs rs' := by
  induction rs generalizing rs' with
  | nil =>
    obtain rfl := h
    exact .nil
  | cons r rs ih =>
    obtain ⟨r', rest, hr, hrest, rfl⟩ := h
    exact .cons ⟨hr, hd.1⟩ (ih hrest hd.2)

/-- Members that stay in their places are reordered one by one. -/
theorem forall₂_members_reorders {ms ms' : List (StringSpelling × Raw)}
    (h : RearrangedMembers ms ms') (hd : DistinctMembers ms) :
    List.Forall₂ (fun m n ↦ n.1 = m.1 ∧ Reorders m.2 n.2) ms ms' := by
  induction ms generalizing ms' with
  | nil =>
    obtain rfl := h
    exact .nil
  | cons m ms ih =>
    obtain ⟨k, r⟩ := m
    obtain ⟨r', rest, hr, hrest, rfl⟩ := h
    exact .cons ⟨rfl, hr, hd.1⟩ (ih hrest hd.2)

/-- A scalar value cannot be reordered. -/
theorem Reorders.eq_of_not_isBracket {r r' : Raw} (h : r.Reorders r') (hr : r.isBracket = false) :
    r' = r := by
  cases r <;> first | exact h.1 | cases hr

/-- Items of an array stay in their places, and are reordered themselves. -/
theorem Reorders.array {rs : List Raw} {r' : Raw} (h : (Raw.array rs).Reorders r') :
    ∃ rs', r' = .array rs' ∧ List.Forall₂ Reorders rs rs' := by
  obtain ⟨⟨rs', hitems, rfl⟩, hd⟩ := h
  exact ⟨rs', rfl, forall₂_reorders hitems hd⟩

/-- The names of the members of an object that repeats none. -/
theorem nodup_of_named {ms : List (StringSpelling × Raw)} {ns : List (String × Raw)}
    (h : ms.Pairwise fun m n ↦ ∀ name, m.1.decode? = some name → n.1.decode? ≠ some name)
    (hns : Named ms ns) : (ns.map Prod.fst).Nodup := by
  induction hns with
  | nil => exact .nil
  | cons hm hns ih =>
    obtain ⟨hfirst, hrest⟩ := List.pairwise_cons.1 h
    rw [List.map_cons, List.nodup_cons]
    refine ⟨fun hmem ↦ ?_, ih hrest⟩
    obtain ⟨n, hn, heq⟩ := List.mem_map.1 hmem
    obtain ⟨m', hm', hname⟩ := exists_mem_of_forall₂_right hns hn
    exact hfirst m' hm' _ hm.1 (heq ▸ hname.1)

/-- The members of a rearranged object, with their names. -/
theorem Reorders.object {ms : List (StringSpelling × Raw)} {r' : Raw}
    (h : (Raw.object ms).Reorders r') {ns : List (String × Raw)} (hns : Named ms ns) :
    (ns.map Prod.fst).Nodup ∧
      ∃ ms' ns', r' = .object ms' ∧ Named ms' ns' ∧ Shuffled Reorders ns ns' := by
  obtain ⟨⟨mid, ms', hmembers, hperm, rfl⟩, hd, hnames⟩ := h
  refine ⟨nodup_of_named hnames hns, ms', ?_⟩
  -- The names go along with the values, and then with the members into their new order.
  obtain ⟨nmid, hmid, hnmid⟩ : ∃ nmid,
      List.Forall₂ (fun n n' : String × Raw ↦ n'.1 = n.1 ∧ Reorders n.2 n'.2) ns nmid ∧
        Named mid nmid := by
    refine exists_forall₂_of_forall₂
      (forall₂_of_left hns (forall₂_members_reorders hmembers hd)) fun n m' hm ↦ ?_
    obtain ⟨m, ⟨hname, hvalue⟩, hkey, hr⟩ := hm
    exact ⟨(n.1, m'.2), ⟨rfl, hvalue ▸ hr⟩, hkey ▸ hname, rfl⟩
  obtain ⟨ns', hns', hperm'⟩ := List.perm_comp_forall₂ hperm.symm hnmid
  exact ⟨ns', rfl, hns', nmid, hmid, hperm'.symm⟩

/-- A value is not reordered to `null`. -/
theorem Reorders.eq_null_iff {r r' : Raw} (h : r.Reorders r') : r' = .null ↔ r = .null := by
  cases r with
  | array rs =>
    obtain ⟨rs', rfl, -⟩ := h.array
    simp
  | object ms =>
    obtain ⟨_, _, _, _, rfl⟩ := h.1
    simp
  | _ => rw [h.eq_of_not_isBracket rfl]

/-- An object with one member has nothing to rearrange but the value of the member. -/
theorem Reorders.singleton {k : StringSpelling} {r r' : Raw}
    (h : (Raw.object [(k, r)]).Reorders r') {name : String} (hk : k.decode? = some name) :
    ∃ k' s, r' = .object [(k', s)] ∧ k'.decode? = some name ∧ r.Reorders s := by
  have hname : Named [(k, r)] [(name, r)] := .cons ⟨hk, rfl⟩ .nil
  obtain ⟨-, ms', ns', rfl, hns', hshuffled⟩ := h.object hname
  obtain ⟨s, rfl, hs⟩ := hshuffled.singleton
  cases hns' with
  | @cons m _ _ _ hm hnil =>
    cases hnil
    obtain ⟨k', s'⟩ := m
    obtain ⟨hk', rfl⟩ := hm
    exact ⟨k', _, rfl, hk', hs⟩

end Raw

/-! ### Trees of rearranged values -/

/-- The trees are read from values that differ in the order of members. -/
def Alike (j j' : Json) : Prop :=
  ∃ room r r', Raw.Reorders r r' ∧ Reads (readValue room) r j ∧ Reads (readValue room) r' j'

/-- The names of members are determined by their spellings. -/
theorem named_unique {ms : List (StringSpelling × Raw)} {ns ns' : List (String × Raw)}
    (h : Named ms ns) (h' : Named ms ns') : ns = ns' := by
  refine List.right_unique_forall₂' (fun m n n' hn hn' ↦ ?_) h h'
  exact Prod.ext (Option.some.inj (hn.1.symm.trans hn'.1)) (hn.2.trans hn'.2.symm)

/-- **A tree is read from a rearranged value** if one is read from the value. -/
theorem exists_reads_of_reorders {room : Nat} {r r' : Raw} (h : r.Reorders r') {j : Json}
    (hj : Reads (readValue room) r j) : ∃ j', Reads (readValue room) r' j' := by
  -- Values inside brackets are read in less room, so that the induction is on the room.
  induction room using Nat.strongRecOn generalizing r r' j with
  | ind room ih =>
    rw [(recognizes_readValue room).reads_iff] at hj
    simp only [(recognizes_readValue room).reads_iff]
    cases r with
    | array rs =>
      obtain ⟨room', js, rfl, hjs, rfl⟩ := hj
      obtain ⟨rs', rfl, hrs⟩ := h.array
      obtain ⟨js', -, hjs'⟩ : ∃ js', List.Forall₂ (fun _ _ ↦ True) js js' ∧
          List.Forall₂ (Reads (readValue room')) rs' js' := by
        refine exists_forall₂_of_forall₂ (forall₂_of_left hjs hrs) fun j r' hr' ↦ ?_
        obtain ⟨r, hj, hr⟩ := hr'
        obtain ⟨j', hj'⟩ := ih room' (Nat.lt_succ_self _) hr hj
        exact ⟨j', trivial, hj'⟩
      exact ⟨.array js', room', js', rfl, hjs', rfl⟩
    | object ms =>
      obtain ⟨room', ns, js, rfl, hns, hjs, rfl⟩ := hj
      obtain ⟨-, ms', ns', rfl, hns', mid, hmid, hperm⟩ := h.object hns
      obtain ⟨js', -, hjs'⟩ : ∃ js', List.Forall₂ (fun _ _ ↦ True) js js' ∧
          ReadsMembers (readValue room') mid js' := by
        refine exists_forall₂_of_forall₂ (forall₂_of_left hjs hmid) fun j n hn ↦ ?_
        obtain ⟨m, ⟨hname, hj⟩, hkey, hr⟩ := hn
        obtain ⟨j', hj'⟩ := ih room' (Nat.lt_succ_self _) hr hj
        exact ⟨(n.1, j'), trivial, rfl, hj'⟩
      obtain ⟨js'', hjs'', -⟩ := List.perm_comp_forall₂ hperm.symm hjs'
      exact ⟨.object js'', room', ns', js'', rfl, hns', hjs'', rfl⟩
    | _ =>
      obtain rfl := h.eq_of_not_isBracket rfl
      exact ⟨j, hj⟩

/-- **Reordered values are read together**, as trees that differ in the order of members only. -/
theorem alike_of_reads {room : Nat} {r r' : Raw} (h : r.Reorders r') {j : Json}
    (hj : Reads (readValue room) r j) : ∃ j', Reads (readValue room) r' j' ∧ Alike j j' := by
  obtain ⟨j', hj'⟩ := exists_reads_of_reorders h hj
  exact ⟨j', hj', room, r, r', h, hj, hj'⟩

/-- **Trees that are alike** are the same, or their items or members are alike. -/
theorem Alike.cases {j j' : Json} (h : Alike j j') :
    j' = j ∨ (∃ js js', j = .array js ∧ j' = .array js' ∧ List.Forall₂ Alike js js') ∨
      ∃ ms ms', j = .object ms ∧ j' = .object ms' ∧ (ms.map Prod.fst).Nodup ∧
        Shuffled Alike ms ms' := by
  obtain ⟨room, r, r', h, hj, hj'⟩ := h
  have hread := (recognizes_readValue room).reads_iff.1 hj
  have hread' := (recognizes_readValue room).reads_iff.1 hj'
  cases r with
  | array rs =>
    obtain ⟨rs', rfl, hrs⟩ := h.array
    obtain ⟨room', js, rfl, hjs, rfl⟩ := hread
    obtain ⟨_, js', heq, hjs', rfl⟩ := hread'
    obtain rfl := Nat.succ.inj heq
    refine .inr (.inl ⟨js, js', rfl, rfl, ?_⟩)
    refine (forall₂_of_left (forall₂_of_left hrs hjs) hjs').imp fun j j' hitem ↦ ?_
    obtain ⟨r', ⟨r, hr, hj⟩, hj'⟩ := hitem
    exact ⟨room', r, r', hr, hj, hj'⟩
  | object ms =>
    obtain ⟨room', ns, js, rfl, hns, hjs, rfl⟩ := hread
    obtain ⟨hnodup, ms', ns', rfl, hns', mid, hmid, hperm⟩ := h.object hns
    obtain ⟨_, ns'', js', heq, hns'', hjs', rfl⟩ := hread'
    obtain rfl := Nat.succ.inj heq
    obtain rfl := named_unique hns' hns''
    refine .inr (.inr ⟨js, js', rfl, rfl, ?_, ?_⟩)
    · rwa [← map_eq_of_forall₂ hjs fun _ _ hj ↦ hj.1.symm]
    · obtain ⟨jmid, hjmid, hjperm⟩ := List.perm_comp_forall₂ hperm hjs'
      refine ⟨jmid, (forall₂_of_left (forall₂_of_left hmid hjs) hjmid).imp fun j j' hmember ↦ ?_,
        hjperm⟩
      obtain ⟨n', ⟨n, ⟨hkey, hr⟩, hname, hj⟩, hname', hj'⟩ := hmember
      exact ⟨hname'.trans (hkey.trans hname.symm), room', n.2, n'.2, hr, hj, hj'⟩
  | _ =>
    obtain rfl := h.eq_of_not_isBracket rfl
    exact .inl ((uniform_readValue room).eq_of_reads hj' hj)

/-- What is found in a tree does not depend on the order of members. -/
theorem found_eq_of_alike {j j' : Json} (h : Alike j j') : j'.found = j.found := by
  rcases h.cases with rfl | ⟨_, _, rfl, rfl, -⟩ | ⟨_, _, rfl, rfl, -⟩ <;> rfl

/-- The order of members with different names does not matter for the normal form. -/
theorem normalizeMembers_eq_of_perm {ms ms' : List (String × Json)} (h : ms.Perm ms')
    (hnodup : (ms.map Prod.fst).Nodup) (done : List (String × Json)) :
    normalizeMembers done ms = normalizeMembers done ms' := by
  induction h generalizing done with
  | nil => rfl
  | cons m _ ih =>
    obtain ⟨name, j⟩ := m
    rw [normalizeMembers, normalizeMembers, ih (List.nodup_cons.1 hnodup).2]
  | swap m n ms =>
    obtain ⟨name, j⟩ := m
    obtain ⟨name', j'⟩ := n
    have hne : name ≠ name' := by
      intro heq
      simp [heq] at hnodup
    rw [normalizeMembers, normalizeMembers, normalizeMembers, normalizeMembers,
      Dict.insertEntry_comm hne]
  | trans hperm _ ih ih' =>
    rw [ih hnodup, ih' ((hperm.map Prod.fst).nodup_iff.1 hnodup)]

mutual

/-- **Trees that are alike have the same normal form.** -/
theorem normalize_eq_of_alike : (j : Json) → {j' : Json} → Alike j j' →
    normalize j = normalize j'
  | .array js, _, h => by
    rcases h.cases with rfl | ⟨_, js', ⟨⟩, rfl, hjs⟩ | ⟨_, _, ⟨⟩, _⟩
    · rfl
    · rw [normalize, normalize, normalizeItems_eq_of_alike js hjs]
  | .object ms, _, h => by
    rcases h.cases with rfl | ⟨_, _, ⟨⟩, _⟩ | ⟨_, ms', ⟨⟩, rfl, hnodup, mid, hmid, hperm⟩
    · rfl
    · have hnames : mid.map Prod.fst = ms.map Prod.fst :=
        (map_eq_of_forall₂ hmid fun _ _ hm ↦ hm.1.symm).symm
      rw [normalize, normalize, normalizeMembers_eq_of_alike ms hmid [],
        normalizeMembers_eq_of_perm hperm (hnames ▸ hnodup)]
  | .null, _, h | .bool _, _, h | .int _, _, h | .double _, _, h | .string _, _, h => by
    rcases h.cases with rfl | ⟨_, _, ⟨⟩, _⟩ | ⟨_, _, ⟨⟩, _⟩
    rfl

theorem normalizeItems_eq_of_alike : (js : List Json) → {js' : List Json} →
    List.Forall₂ Alike js js' → normalizeItems js = normalizeItems js'
  | [], _, .nil => rfl
  | j :: js, _, .cons hj hjs => by
    rw [normalizeItems, normalizeItems, normalize_eq_of_alike j hj,
      normalizeItems_eq_of_alike js hjs]

theorem normalizeMembers_eq_of_alike : (ms : List (String × Json)) →
    {ms' : List (String × Json)} →
    List.Forall₂ (fun m n ↦ n.1 = m.1 ∧ Alike m.2 n.2) ms ms' →
    (done : List (String × Json)) → normalizeMembers done ms = normalizeMembers done ms'
  | [], _, .nil, _ => rfl
  | (name, j) :: ms, _, .cons hm hms, done => by
    obtain ⟨rfl, hj⟩ := hm
    rw [normalizeMembers, normalizeMembers, normalize_eq_of_alike j hj,
      normalizeMembers_eq_of_alike ms hms]

end

end Json
end Pipework
