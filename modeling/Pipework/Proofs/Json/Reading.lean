import Pipework.Proofs.Json.Words

/-!
# Readers and the values they recognize

A reader that is asked for a value takes it from the front of a text. For a good reader it does not
matter which of the texts of a raw value stands there, and what comes after it: the reader
`Recognizes` a relation between raw values and results. Whether a text is accepted, and as what, can
then be said about raw values, without any text.

Every such relation is the one of reading a single text, `Reads` (`Recognizes.reads_iff`), so that a
reader may be called `Uniform` without naming it. The readers of lists and objects are built from
readers of their contents. What they recognize is what those read item by item (`readList_iff`), or
the run of a step over the named members (`readObject_iff`). `recognizes_readValue` applies both to
the reader of whole trees.
-/

namespace Pipework.Json

variable {α β σ V : Type}

/-! ### Recognition -/

/-- A text of the raw value is read as `a`. -/
def Reads (read : List Char → Except Fault (Read α)) (r : Raw) (a : α) : Prop :=
  ∃ s, r.Spelled s ∧ read s = .ok (a, [])

/-- Whatever text of a raw value stands in front of a boundary, the reader takes it whole, and the
result is given by the relation `p`. -/
def Recognizes (read : List Char → Except Fault (Read α)) (p : Raw → α → Prop) : Prop :=
  ∀ ⦃r : Raw⦄ ⦃s rest : List Char⦄ ⦃a : α⦄ ⦃t : List Char⦄, r.Spelled s → Boundary rest →
    (read (s ++ rest) = .ok (a, t) ↔ p r a ∧ t = rest)

/-- Neither the blanks in a text nor what comes after it matter to the reader. -/
def Uniform (read : List Char → Except Fault (Read α)) : Prop :=
  Recognizes read (Reads read)

namespace Recognizes

variable {read : List Char → Except Fault (Read α)} {p : Raw → α → Prop}

/-- **What a reader recognizes is what it reads**, from any text for the raw value. -/
theorem reads_iff (h : Recognizes read p) {r : Raw} {a : α} : Reads read r a ↔ p r a := by
  constructor
  · rintro ⟨s, hs, hread⟩
    rw [← List.append_nil s] at hread
    exact ((h hs boundary_nil).1 hread).1
  · intro hp
    obtain ⟨s, hs⟩ := r.exists_spelled
    refine ⟨s, hs, ?_⟩
    have hread := (h hs boundary_nil).2 ⟨hp, rfl⟩
    rwa [List.append_nil] at hread

/-- A reader that recognizes raw values does not depend on their layout. -/
theorem uniform (h : Recognizes read p) : Uniform read := by
  intro r s rest a t hs hrest
  rw [h hs hrest, h.reads_iff]

/-- What is done with the result afterwards does not matter. -/
theorem map (h : Recognizes read p) (f : α → β) :
    Recognizes (fun s ↦ (read s).map fun x ↦ (f x.1, x.2)) fun r b ↦ ∃ a, p r a ∧ b = f a := by
  intro r s rest b t hs hrest
  rw [map_eq_ok_iff]
  constructor
  · rintro ⟨⟨a, u⟩, hread, heq⟩
    obtain ⟨hp, hu⟩ := (h hs hrest).1 hread
    obtain ⟨rfl, rfl⟩ := Prod.mk.inj heq
    exact ⟨⟨a, hp, rfl⟩, hu⟩
  · rintro ⟨⟨a, hp, rfl⟩, ht⟩
    exact ⟨(a, t), (h hs hrest).2 ⟨hp, ht⟩, rfl⟩

end Recognizes

/-- The result of a uniform reader is unique. -/
theorem Uniform.eq_of_reads {read : List Char → Except Fault (Read α)} (h : Uniform read) {r : Raw}
    {a b : α} (ha : Reads read r a) (hb : Reads read r b) : a = b := by
  obtain ⟨s, hs⟩ := r.exists_spelled
  have hreadA := (h hs boundary_nil).2 ⟨ha, rfl⟩
  have hreadB := (h hs boundary_nil).2 ⟨hb, rfl⟩
  rw [hreadA] at hreadB
  exact (Prod.mk.inj (Except.ok.inj hreadB)).1

/-- A whole text is read as its value is. -/
theorem Uniform.whole_eq_ok_iff {read : List Char → Except Fault (Read α)} (h : Uniform read)
    {r : Raw} {text : String} (ht : r.IsText text) {a : α} :
    whole read text.toList = .ok a ↔ Reads read r a := by
  obtain ⟨s, w, hs, hw, htext⟩ := ht
  rw [htext, whole, bind_eq_ok_iff]
  constructor
  · rintro ⟨⟨b, t⟩, hread, hend⟩
    obtain ⟨hb, rfl⟩ := (h hs hw.boundary).1 hread
    simp only [hw.skipSpace] at hend
    cases hend
    exact hb
  · intro ha
    refine ⟨(a, w), (h hs hw.boundary).2 ⟨ha, rfl⟩, ?_⟩
    simp only [hw.skipSpace]
    rfl

/-! ### Lists -/

/-- No value starts like the end of a list or of an object. -/
theorem Raw.StartsWith.ne {r : Raw} {c : Char} (h : r.StartsWith c) :
    c ≠ ']' ∧ c ≠ '\x7d' ∧ c ≠ ',' := by
  cases r with
  | null => cases h; decide
  | bool b => cases b <;> cases h <;> decide
  | number n =>
    rw [StartsWith] at h
    split at h
    · cases h; decide
    · exact ⟨(ne_of_isDigit h).2.2.2.2.2.2.2.1, (ne_of_isDigit h).2.2.2.2.2.2.2.2.1,
        (ne_of_isDigit h).2.2.2.2.2.2.2.2.2⟩
  | string k => cases h; decide
  | array rs => cases h; decide
  | object ms => cases h; decide

/-- A list ends at its closing bracket. -/
theorem nextItem?_close {first : Bool} {w rest : List Char} (hw : Blank w) :
    nextItem? first (w ++ ']' :: rest) = .ok none := by
  rw [nextItem?, hw.skipSpace_append, skipSpace_cons (by decide)]
  rfl

/-- The next item is found after a comma, unless it is the first one. -/
theorem nextItem?_items (first : Bool) {r : Raw} {w w' t : List Char} (hw : Blank w)
    (hw' : Blank w') (ht : r.Bare t) (u : List Char) :
    nextItem? first (w ++ (separator first ++ (w' ++ (t ++ u)))) = .ok (some (t ++ u)) := by
  have hskip := ht.skipSpace hw' u
  obtain ⟨c, t, rfl, hc⟩ := ht.exists_cons
  rw [List.cons_append] at hskip ⊢
  cases first with
  | true =>
    rw [nextItem?, hw.skipSpace_append, separator, List.nil_append, hskip]
    simp [hc.ne]
  | false =>
    rw [nextItem?, hw.skipSpace_append, separator, List.singleton_append,
      skipSpace_cons (by decide)]
    simp [hskip, hc.ne]

theorem closeList_close {w rest : List Char} (hw : Blank w) :
    closeList (w ++ ']' :: rest) = .ok rest := by
  rw [closeList, hw.skipSpace_append, skipSpace_cons (by decide)]
  rfl

/-- **Items are read one by one**, and then the bracket is closed. The induction is on the items;
the reader stops at the blanks in front of the closing bracket. -/
theorem items_iff {item : List Char → Except Fault (Read α)} (h : Uniform item) {rs : List Raw}
    {first : Bool} {s rest t : List Char} {fuel : Nat} (hs : Raw.Items first rs s)
    (hfuel : rs.length < fuel) {as : List α} :
    (∃ u, items item fuel first (s ++ ']' :: rest) = .ok (as, u) ∧ closeList u = .ok t) ↔
      List.Forall₂ (Reads item) rs as ∧ t = rest := by
  -- There are fewer items than characters, so that the fuel never runs out before the bracket.
  induction rs generalizing first s fuel as with
  | nil =>
    obtain ⟨fuel, rfl⟩ := Nat.exists_eq_add_of_lt hfuel
    rw [items, nextItem?_close hs]
    constructor
    · rintro ⟨u, heq, hclose⟩
      cases heq
      rw [closeList_close hs] at hclose
      cases hclose
      exact ⟨.nil, rfl⟩
    · rintro ⟨⟨⟩, rfl⟩
      exact ⟨_, rfl, closeList_close hs⟩
  | cons r rs ih =>
    obtain ⟨w, w', v, u, hw, hw', hv, hu, rfl⟩ := hs
    obtain ⟨fuel, rfl⟩ : ∃ n, fuel = n + 1 := ⟨fuel - 1, by omega⟩
    have hnext := nextItem?_items first hw hw' hv (u ++ ']' :: rest)
    have hitem {a : α} {x : List Char} : item (v ++ (u ++ ']' :: rest)) = .ok (a, x) ↔
        Reads item r a ∧ x = u ++ ']' :: rest := h hv.spelled hu.boundary
    have hfuel' : rs.length < fuel := by simpa using hfuel
    simp only [List.append_assoc] at hnext ⊢
    rw [items, hnext]
    simp only
    constructor
    · rintro ⟨x, heq, hclose⟩
      split at heq
      · cases heq
      next a y ha =>
        obtain ⟨hread, rfl⟩ := hitem.1 ha
        split at heq
        · cases heq
        next bs z hbs =>
          cases heq
          obtain ⟨hall, rfl⟩ := (ih hu hfuel').1 ⟨_, hbs, hclose⟩
          exact ⟨.cons hread hall, rfl⟩
    · rintro ⟨hall, rfl⟩
      cases hall with
      | @cons _ a _ bs hread hall =>
        obtain ⟨x, hbs, hclose⟩ := (ih hu hfuel').2 ⟨hall, rfl⟩
        exact ⟨x, by rw [hitem.2 ⟨hread, rfl⟩]; simp [hbs], hclose⟩

/-- **A list is read from its items**, and no further than its closing bracket. -/
theorem readList_iff {item : List Char → Except Fault (Read α)} (h : Uniform item) {rs : List Raw}
    {s rest t : List Char} (hs : Raw.Items true rs s) {as : List α} :
    readList item (s ++ ']' :: rest) = .ok (as, t) ↔
      List.Forall₂ (Reads item) rs as ∧ t = rest := by
  have hfuel : rs.length < (s ++ ']' :: rest).length + 1 := by
    have hlength := hs.length_le
    simp only [List.length_append]
    omega
  rw [← items_iff h hs hfuel, readList, bind_eq_ok_iff]
  constructor
  · rintro ⟨⟨bs, u⟩, hitems, hrest⟩
    obtain ⟨x, hclose, heq⟩ := bind_eq_ok_iff.1 hrest
    cases heq
    exact ⟨u, hitems, hclose⟩
  · rintro ⟨u, hitems, hclose⟩
    exact ⟨(as, u), hitems, bind_eq_ok_iff.2 ⟨t, hclose, rfl⟩⟩

/-! ### Objects -/

/-- The members with their names in place of the spellings of these. -/
def Named (ms : List (StringSpelling × Raw)) (ns : List (String × Raw)) : Prop :=
  List.Forall₂ (fun m n ↦ m.1.decode? = some n.1 ∧ n.2 = m.2) ms ns

/-- Taking one member after another leads from the first state to the last one. -/
def Run (step : σ → String → V → σ → Prop) : σ → List (String × V) → σ → Prop
  | state, [], state' => state' = state
  | state, (name, v) :: ms, state' => ∃ mid, step state name v mid ∧ Run step mid ms state'

/-- `Recognizes` for the reader of a member, which is given the text from before the colon. -/
def RecognizesMember (member : σ → String → List Char → Except Fault (Read σ))
    (step : σ → String → Raw → σ → Prop) : Prop :=
  ∀ ⦃state : σ⦄ ⦃name : String⦄ ⦃r : Raw⦄ ⦃c s rest : List Char⦄ ⦃state' : σ⦄ ⦃t : List Char⦄,
    Blank c → r.Spelled s → Boundary rest →
      (member state name (c ++ ':' :: (s ++ rest)) = .ok (state', t) ↔
        step state name r state' ∧ t = rest)

theorem nextKey?_close {first : Bool} {w rest : List Char} (hw : Blank w) :
    nextKey? first (w ++ '\x7d' :: rest) = .ok none := by
  rw [nextKey?, hw.skipSpace_append, skipSpace_cons (by decide)]
  rfl

/-- The next member is found after a comma, unless it is the first one. -/
theorem nextKey?_members (first : Bool) {w w' : List Char} (hw : Blank w) (hw' : Blank w')
    (u : List Char) :
    nextKey? first (w ++ (separator first ++ (w' ++ '"' :: u))) = .ok (some u) := by
  cases first with
  | true =>
    rw [nextKey?, hw.skipSpace_append, separator, List.nil_append, hw'.skipSpace_append,
      skipSpace_cons (by decide)]
    simp
  | false =>
    have hskip : skipSpace (w' ++ '"' :: u) = '"' :: u := by
      rw [hw'.skipSpace_append, skipSpace_cons (by decide)]
    rw [nextKey?, hw.skipSpace_append, separator, List.singleton_append,
      skipSpace_cons (by decide)]
    simp [hskip]

theorem colon_append {c s : List Char} (hc : Blank c) : colon (c ++ ':' :: s) = .ok s := by
  rw [colon, hc.skipSpace_append, skipSpace_cons (by decide)]
  rfl

/-- **Members are taken one by one**, up to the closing brace. -/
theorem members_iff {member : σ → String → List Char → Except Fault (Read σ)}
    {step : σ → String → Raw → σ → Prop} (h : RecognizesMember member step)
    {ms : List (StringSpelling × Raw)} {first : Bool} {s rest t : List Char} {fuel : Nat}
    (hs : Raw.Members first ms s) (hfuel : ms.length < fuel) {state state' : σ} :
    members member fuel first state (s ++ '\x7d' :: rest) = .ok (state', t) ↔
      (∃ ns, Named ms ns ∧ Run step state ns state') ∧ t = rest := by
  -- The state is generalized, since each member starts from what the one before it has left.
  induction ms generalizing first s fuel state with
  | nil =>
    obtain ⟨fuel, rfl⟩ : ∃ n, fuel = n + 1 := ⟨fuel - 1, by omega⟩
    have hdrop : skipSpace (s ++ '\x7d' :: rest) = '\x7d' :: rest := by
      rw [Blank.skipSpace_append hs, skipSpace_cons (by decide)]
    rw [members, nextKey?_close hs]
    simp only [hdrop]
    constructor
    · intro heq
      cases heq
      exact ⟨⟨[], .nil, rfl⟩, rfl⟩
    · rintro ⟨⟨ns, ⟨⟩, hrun⟩, rfl⟩
      obtain rfl : state' = state := hrun
      rfl
  | cons m ms ih =>
    obtain ⟨k, r⟩ := m
    obtain ⟨w, w', c, c', v, u, hw, hw', hc, hc', hv, hu, rfl⟩ := hs
    obtain ⟨fuel, rfl⟩ : ∃ n, fuel = n + 1 := ⟨fuel - 1, by omega⟩
    have hfuel' : ms.length < fuel := by simpa using hfuel
    have hnext := nextKey?_members first hw hw'
      (k.chars ++ '"' :: (c ++ ':' :: (c' ++ (v ++ (u ++ '\x7d' :: rest)))))
    have hmember {name : String} {mid : σ} {x : List Char} :
        member state name (c ++ ':' :: (c' ++ (v ++ (u ++ '\x7d' :: rest)))) = .ok (mid, x) ↔
          step state name r mid ∧ x = u ++ '\x7d' :: rest := by
      rw [← List.append_assoc c']
      exact h hc ⟨c', v, hc', hv, rfl⟩ hu.boundary
    simp only [StringSpelling.quoted, List.append_assoc, List.cons_append, List.nil_append]
    rw [members, hnext]
    simp only
    constructor
    · intro heq
      split at heq
      · cases heq
      next key x hkey =>
        obtain ⟨hname, rfl⟩ := k.stringBody_quoted.1 hkey
        split at heq
        · cases heq
        next mid y hmid =>
          obtain ⟨hstep, rfl⟩ := hmember.1 hmid
          obtain ⟨⟨ns, hns, hrun⟩, rfl⟩ := (ih hu hfuel').1 heq
          exact ⟨⟨(_, r) :: ns, .cons ⟨hname, rfl⟩ hns, mid, hstep, hrun⟩, rfl⟩
    · rintro ⟨⟨ns, hns, hrun⟩, rfl⟩
      cases hns with
      | @cons _ n _ ns hn hns =>
        obtain ⟨name, r'⟩ := n
        obtain ⟨hname, rfl⟩ := hn
        obtain ⟨mid, hstep, hrun⟩ := hrun
        have hkey {x : List Char} : stringBody (k.chars ++ '"' :: x) = .ok (name.toList, x) :=
          k.stringBody_quoted.2 ⟨by simpa using hname, rfl⟩
        rw [hkey]
        simp only [String.ofList_toList]
        rw [hmember.2 ⟨hstep, rfl⟩]
        exact (ih hu hfuel').2 ⟨⟨ns, hns, hrun⟩, rfl⟩

/-- **An object is read member by member**, by a state that goes from one to the next. -/
theorem readObject_iff {member : σ → String → List Char → Except Fault (Read σ)}
    {step : σ → String → Raw → σ → Prop} (h : RecognizesMember member step)
    {ms : List (StringSpelling × Raw)} {s rest t : List Char} (hs : Raw.Members true ms s)
    {start state : σ} :
    readObject member start (s ++ '\x7d' :: rest) = .ok (state, t) ↔
      (∃ ns, Named ms ns ∧ Run step start ns state) ∧ t = rest := by
  refine members_iff h hs ?_
  have hlength := hs.length_le
  simp only [List.length_append]
  omega

/-! ### Whole trees -/

/-- The scalar value that was found. -/
def Found.toJson : Found → Json
  | .bool b => .bool b
  | .int n => .int n
  | .double x => .double x
  | .string s => .string s
  | _ => .null

/-- Any member may be read into a tree. It is put after the others. -/
theorem anyMember_iff {value : List Char → Except Fault (Read Json)} (h : Uniform value) :
    RecognizesMember (anyMember value) fun done name r done' ↦
      ∃ j, Reads value r j ∧ done' = done ++ [(name, j)] := by
  intro done name r c s rest done' t hc hs hrest
  rw [anyMember, colon_append hc]
  show (value (s ++ rest) >>= _) = _ ↔ _
  rw [bind_eq_ok_iff]
  constructor
  · rintro ⟨⟨j, u⟩, hread, heq⟩
    obtain ⟨hj, rfl⟩ := (h hs hrest).1 hread
    cases heq
    exact ⟨⟨j, hj, rfl⟩, rfl⟩
  · rintro ⟨⟨j, hj, rfl⟩, rfl⟩
    exact ⟨(j, t), (h hs hrest).2 ⟨hj, rfl⟩, rfl⟩

/-- The members of a tree have the names of raw members and what is read for their values. -/
def ReadsMembers (read : List Char → Except Fault (Read Json)) (ns : List (String × Raw))
    (js : List (String × Json)) : Prop :=
  List.Forall₂ (fun n j ↦ j.1 = n.1 ∧ Reads read n.2 j.2) ns js

/-- What members are read is appended to what has been read before. -/
theorem run_append_iff {value : List Char → Except Fault (Read Json)} {ns : List (String × Raw)}
    {done done' : List (String × Json)} :
    Run (fun done name r done' ↦ ∃ j, Reads value r j ∧ done' = done ++ [(name, j)]) done ns
        done' ↔ ∃ js, ReadsMembers value ns js ∧ done' = done ++ js := by
  induction ns generalizing done with
  | nil =>
    constructor
    · intro h
      exact ⟨[], .nil, by simpa [Run] using h⟩
    · rintro ⟨js, ⟨⟩, rfl⟩
      simp [Run]
  | cons n ns ih =>
    obtain ⟨name, r⟩ := n
    constructor
    · rintro ⟨mid, ⟨j, hj, rfl⟩, hrun⟩
      obtain ⟨js, hjs, rfl⟩ := ih.1 hrun
      exact ⟨(name, j) :: js, .cons ⟨rfl, hj⟩ hjs, by simp⟩
    · rintro ⟨js, hjs, rfl⟩
      cases hjs with
      | @cons _ m _ js hm hjs =>
        obtain ⟨name', j⟩ := m
        obtain ⟨rfl, hj⟩ := hm
        exact ⟨_, ⟨j, hj, rfl⟩, ih.2 ⟨js, hjs, by simp⟩⟩

/-- **The members of any object**, read as trees. -/
theorem readObject_anyMember_iff {value : List Char → Except Fault (Read Json)} (h : Uniform value)
    {ms : List (StringSpelling × Raw)} {s rest t : List Char} (hs : Raw.Members true ms s)
    {js : List (String × Json)} :
    readObject (anyMember value) [] (s ++ '\x7d' :: rest) = .ok (js, t) ↔
      (∃ ns, Named ms ns ∧ ReadsMembers value ns js) ∧ t = rest := by
  rw [readObject_iff (anyMember_iff h) hs]
  simp only [run_append_iff, List.nil_append, exists_eq_right']

/-- The tree that a raw value is read as, with at most `room` brackets open at once. -/
def ReadsTree (room : Nat) : Raw → Json → Prop
  | .array rs, j => ∃ room' js, room = room' + 1 ∧ List.Forall₂ (Reads (readValue room')) rs js ∧
      j = .array js
  | .object ms, j => ∃ room' ns js, room = room' + 1 ∧ Named ms ns ∧
      ReadsMembers (readValue room') ns js ∧ j = .object js
  | r, j => ∃ got, r.found? = some got ∧ j = got.toJson

theorem readValue_digit (room : Nat) {c : Char} (hc : isDigit c = true) (s : List Char) :
    readValue room (c :: s) = (number false (c :: s)).map fun x ↦ (ofNumber x.1, x.2) := by
  have hne := ne_of_isDigit hc
  rw [readValue, skipSpace_cons (isSpace_eq_false_of_isDigit hc)]
  simp [hne, hc]

/-- On scalar values the reader of trees agrees with the reader of words. -/
theorem readValue_bare {room : Nat} {r : Raw} {s rest : List Char} (hs : r.Bare s)
    (hr : r.isBracket = false) :
    readValue room (s ++ rest) =
      (Codec.readFound (s ++ rest)).map fun x ↦ (x.1.toJson, x.2) := by
  have hskip := hs.skipSpace_self rest
  cases r with
  | null =>
    rw [readValue, hskip]
    obtain rfl := hs
    rw [show "null".toList = 'n' :: "ull".toList from rfl, List.cons_append, Codec.readFound,
      word_append]
    rfl
  | bool b =>
    rw [readValue, hskip]
    cases b
    · obtain rfl := hs
      rw [show "false".toList = 'f' :: "alse".toList from rfl, List.cons_append, Codec.readFound,
        word_append]
      rfl
    · obtain rfl := hs
      rw [show "true".toList = 't' :: "rue".toList from rfl, List.cons_append, Codec.readFound,
        word_append]
      rfl
  | number n =>
    obtain rfl := hs
    rcases hn : n.negative with _ | _
    · obtain ⟨c, u, hu, hc⟩ := n.exists_unsigned_cons
      rw [NumberSpelling.chars, hn, if_neg Bool.false_ne_true, hu, List.cons_append,
        readFound_digit hc, readValue_digit room hc]
      rcases number false (c :: (u ++ rest)) with f | ⟨v, t⟩
      · rfl
      · cases v <;> rfl
    · rw [readValue, hskip]
      rw [NumberSpelling.chars, hn, if_pos rfl, List.cons_append, Codec.readFound]
      simp only
      rcases number true (n.unsigned ++ rest) with f | ⟨v, t⟩
      · rfl
      · cases v <;> rfl
  | string k =>
    rw [readValue, hskip]
    obtain rfl := hs
    rw [StringSpelling.quoted, List.cons_append, List.cons_append, Codec.readFound]
    simp only
    rcases stringBody (k.chars ++ ['"'] ++ rest) with f | ⟨cs, t⟩
    · rfl
    · rfl
  | array rs => cases hr
  | object ms => cases hr

theorem readValue_blank {room : Nat} {w : List Char} (hw : Blank w) (s : List Char) :
    readValue room (w ++ s) = readValue room s := by
  rw [readValue, hw.skipSpace_append, ← readValue]

/-- A scalar value is read as what is found in it. -/
theorem readsTree_of_not_isBracket {room : Nat} {r : Raw} (hr : r.isBracket = false) {j : Json} :
    ReadsTree room r j ↔ ∃ got, r.found? = some got ∧ j = got.toJson := by
  cases r <;> first | rfl | cases hr

/-- Scalar values are read up to what follows them. -/
theorem recognizes_of_not_isBracket {room : Nat} {r : Raw} (hr : r.isBracket = false)
    {s rest t : List Char} (hs : r.Bare s) (hrest : Boundary rest) {j : Json} :
    readValue room (s ++ rest) = .ok (j, t) ↔ ReadsTree room r j ∧ t = rest := by
  rw [readValue_bare hs hr, readsTree_of_not_isBracket hr, map_eq_ok_iff]
  constructor
  · rintro ⟨⟨got, u⟩, hread, heq⟩
    obtain ⟨hfound, hu⟩ := (readFound_bare hs hrest).1 hread
    obtain ⟨rfl, rfl⟩ := Prod.mk.inj heq
    exact ⟨⟨got, hfound, rfl⟩, by simpa [hr] using hu⟩
  · rintro ⟨⟨got, hfound, rfl⟩, rfl⟩
    exact ⟨(got, t), (readFound_bare hs hrest).2 ⟨hfound, by simp [hr]⟩, rfl⟩

/-- **Whole trees are recognized**, by induction on the room for brackets. -/
theorem recognizes_readValue (room : Nat) : Recognizes (readValue room) (ReadsTree room) := by
  -- Each bracket takes one level, so that the induction is on the room and not on the value.
  induction room with
  | zero =>
    rintro r _ rest j t ⟨w, s, hw, hs, rfl⟩ hrest
    rw [List.append_assoc, readValue_blank hw]
    cases r with
    | array rs =>
      have hskip := hs.skipSpace_self rest
      obtain ⟨u, hu, rfl⟩ := hs
      rw [readValue, hskip]
      simp [ReadsTree]
    | object ms =>
      have hskip := hs.skipSpace_self rest
      obtain ⟨u, hu, rfl⟩ := hs
      rw [readValue, hskip]
      simp [ReadsTree]
    | _ => exact recognizes_of_not_isBracket rfl hs hrest
  | succ room ih =>
    rintro r _ rest j t ⟨w, s, hw, hs, rfl⟩ hrest
    rw [List.append_assoc, readValue_blank hw]
    cases r with
    | array rs =>
      have hskip := hs.skipSpace_self rest
      obtain ⟨u, hu, rfl⟩ := hs
      rw [readValue, hskip]
      simp only [List.cons_append, List.append_assoc, List.nil_append, map_eq_ok_iff]
      constructor
      · rintro ⟨⟨js, x⟩, hread, heq⟩
        obtain ⟨hjs, hx⟩ := (readList_iff ih.uniform hu).1 hread
        obtain ⟨rfl, rfl⟩ := Prod.mk.inj heq
        exact ⟨⟨room, js, rfl, hjs, rfl⟩, hx⟩
      · rintro ⟨⟨room', js, hroom, hjs, rfl⟩, ht⟩
        obtain rfl : room = room' := by simpa using hroom
        exact ⟨(js, t), (readList_iff ih.uniform hu).2 ⟨hjs, ht⟩, rfl⟩
    | object ms =>
      have hskip := hs.skipSpace_self rest
      obtain ⟨u, hu, rfl⟩ := hs
      rw [readValue, hskip]
      simp only [List.cons_append, List.append_assoc, List.nil_append, map_eq_ok_iff]
      constructor
      · rintro ⟨⟨js, x⟩, hread, heq⟩
        obtain ⟨⟨ns, hns, hjs⟩, hx⟩ := (readObject_anyMember_iff ih.uniform hu).1 hread
        obtain ⟨rfl, rfl⟩ := Prod.mk.inj heq
        exact ⟨⟨room, ns, js, rfl, hns, hjs, rfl⟩, hx⟩
      · rintro ⟨⟨room', ns, js, hroom, hns, hjs, rfl⟩, ht⟩
        obtain rfl : room = room' := by simpa using hroom
        exact ⟨(js, t), (readObject_anyMember_iff ih.uniform hu).2 ⟨⟨ns, hns, hjs⟩, ht⟩, rfl⟩
    | _ => exact recognizes_of_not_isBracket rfl hs hrest

theorem uniform_readValue (room : Nat) : Uniform (readValue room) :=
  (recognizes_readValue room).uniform

end Pipework.Json
