import Pipework.Codec.Tagged
import Pipework.Proofs.Json.Skipping

/-!
# What codecs read

For every way to build codecs it is said here which raw values the built codec reads, and as what,
given what its parts read. A codec is `Uniform` if its reader is; then `Codec.Reads` describes it
completely (`Uniform.parse_eq_ok_iff`), and each of the lemmas `recognizes_…` both shows a codec to
be uniform and says what it reads.

Records are read as a run of `Fields.Takes` over the members of an object, one step for each member,
or by `Fields.TakesItems` from the items of an array. Both are stated for any kind of values whose
acceptance by codecs is given, since records are also read from trees.
-/

namespace Pipework.Codec

open Json

variable {α β σ V : Type} {αs : List Type}

/-- The raw value is read as `a`, opening at most `room` brackets. -/
def Reads (c : Codec α) (room : Nat) (r : Raw) (a : α) : Prop :=
  Json.Reads (c.read room) r a

/-- Neither blanks nor what comes after a value matter to the codec. -/
def Uniform (c : Codec α) : Prop :=
  ∀ room, Json.Uniform (c.read room)

/-- A text is parsed as the value that is read from its spelling, whatever blanks stand in it. -/
theorem Uniform.parse_eq_ok_iff {c : Codec α} (h : c.Uniform) {r : Raw} {text : String}
    (ht : r.IsText text) {a : α} : c.parse text = .ok a ↔ c.Reads maxDepth r a :=
  (h maxDepth).whole_eq_ok_iff ht

/-! ### Beginning a value -/

/-- Blanks before a value are skipped. -/
theorem start_bare {r : Raw} {w s : List Char} (hw : Blank w) (hs : r.Bare s) (rest : List Char) :
    start (w ++ (s ++ rest)) = .ok (s ++ rest) := by
  rw [start, hs.skipSpace hw]
  obtain ⟨c, t, rfl, -⟩ := hs.exists_cons
  rfl

/-- Readers begin by dropping blanks, so it is enough to know what they do with the first word. -/
theorem recognizes_start {read : List Char → Except Fault (Read α)} {p : Raw → α → Prop}
    (h : ∀ ⦃r : Raw⦄ ⦃s rest : List Char⦄ ⦃a : α⦄ ⦃t : List Char⦄, r.Bare s → Boundary rest →
      (read (s ++ rest) = .ok (a, t) ↔ p r a ∧ t = rest)) :
    Recognizes (fun s ↦ start s >>= read) p := by
  rintro r _ rest a t ⟨w, s, hw, hs, rfl⟩ hrest
  show (start (w ++ s ++ rest) >>= read) = _ ↔ _
  rw [List.append_assoc, start_bare hw hs]
  exact h hs hrest

theorem orFault_eq_ok_iff {x : Except Mismatch α} {a : α} : orFault x = .ok a ↔ x = .ok a :=
  mapError_eq_ok_iff

/-- A bracket can be opened as long as there is room. -/
theorem open?_eq_ok_iff {room room' : Nat} {s : List Char} :
    open? room s = .ok room' ↔ room = room' + 1 := by
  cases room with
  | zero => simp [open?]
  | succ n => simp [open?]

/-- A bracket opens with a character of its own, and every other value with another one. -/
theorem bare_cases {r : Raw} {s : List Char} (hs : r.Bare s) :
    (∃ rs u, r = .array rs ∧ Raw.Items true rs u ∧ s = '[' :: (u ++ [']'])) ∨
      (∃ ms u, r = .object ms ∧ Raw.Members true ms u ∧ s = '\x7b' :: (u ++ ['\x7d'])) ∨
      (r.isBracket = false ∧ ∃ c t, s = c :: t ∧ c ≠ '[' ∧ c ≠ '\x7b') := by
  cases r with
  | array rs =>
    obtain ⟨u, hu, rfl⟩ := hs
    exact .inl ⟨rs, u, rfl, hu, rfl⟩
  | object ms =>
    obtain ⟨u, hu, rfl⟩ := hs
    exact .inr (.inl ⟨ms, u, rfl, hu, rfl⟩)
  | number n =>
    obtain ⟨c, t, rfl, hc⟩ := hs.exists_cons
    refine .inr (.inr ⟨rfl, c, t, rfl, ?_⟩)
    rw [Raw.StartsWith] at hc
    split at hc
    · cases hc; decide
    · exact ⟨(ne_of_isDigit hc).2.2.2.2.2.1, (ne_of_isDigit hc).2.2.2.2.2.2.1⟩
  | bool b =>
    obtain ⟨c, t, rfl, hc⟩ := hs.exists_cons
    refine .inr (.inr ⟨rfl, c, t, rfl, ?_⟩)
    cases b <;> cases hc <;> decide
  | _ =>
    obtain ⟨c, t, rfl, hc⟩ := hs.exists_cons
    refine .inr (.inr ⟨rfl, c, t, rfl, ?_⟩)
    cases hc
    decide

theorem ne_array_of_isBracket {r : Raw} (h : r.isBracket = false) (rs : List Raw) :
    r ≠ .array rs := by
  rintro rfl
  cases h

theorem ne_object_of_isBracket {r : Raw} (h : r.isBracket = false)
    (ms : List (StringSpelling × Raw)) : r ≠ .object ms := by
  rintro rfl
  cases h

/-! ### Scalar values -/

/-- The scalar values that a test accepts. -/
def ReadsScalar (accept : Found → Except Mismatch α) (r : Raw) (a : α) : Prop :=
  r.isBracket = false ∧ ∃ got, r.found? = some got ∧ accept got = .ok a

/-- The test accepts no bracket. -/
def RefusesBrackets (accept : Found → Except Mismatch α) : Prop :=
  ∀ a, accept .array ≠ .ok a ∧ accept .object ≠ .ok a

/-- A reader of scalar values that has an error for both kinds of brackets refuses them. -/
theorem RefusesBrackets.of_error {accept : Found → Except Mismatch α} {e e' : Mismatch}
    (harray : accept .array = .error e) (hobject : accept .object = .error e') :
    RefusesBrackets accept := by
  intro a
  rw [harray, hobject]
  simp

/-- A scalar value is read up to its end. What follows it must not look like more of it. -/
theorem readScalar_bare {accept : Found → Except Mismatch α} (h : RefusesBrackets accept) {r : Raw}
    {s rest : List Char} (hs : r.Bare s) (hrest : Boundary rest) {a : α} {t : List Char} :
    (readFound (s ++ rest) >>= fun x ↦ orFault (accept x.1) >>= fun a ↦ pure (a, x.2)) =
      .ok (a, t) ↔ ReadsScalar accept r a ∧ t = rest := by
  simp only [bind_eq_ok_iff, orFault_eq_ok_iff, pure, Except.pure, Except.ok.injEq, Prod.mk.injEq]
  constructor
  · rintro ⟨⟨got, u⟩, hfound, b, hb, rfl, rfl⟩
    obtain ⟨hgot, hu⟩ := (readFound_bare hs hrest).1 hfound
    have hr : r.isBracket = false := by
      cases r with
      | array rs =>
        cases hgot
        exact absurd hb (h b).1
      | object ms =>
        cases hgot
        exact absurd hb (h b).2
      | _ => rfl
    exact ⟨⟨hr, got, hgot, hb⟩, by simpa [hr] using hu⟩
  · rintro ⟨⟨hr, got, hgot, ha⟩, rfl⟩
    exact ⟨(got, t), (readFound_bare hs hrest).2 ⟨hgot, by simp [hr]⟩, a, ha, rfl, rfl⟩

/-- A scalar value is read from what the codec accepts. -/
theorem recognizes_readScalar {accept : Found → Except Mismatch α} (h : RefusesBrackets accept) :
    Recognizes (readScalar accept) (ReadsScalar accept) :=
  recognizes_start fun _ _ _ _ _ hs hrest ↦ readScalar_bare h hs hrest

theorem recognizes_scalar {write : α → Json} {accept : Found → Except Mismatch α}
    (h : RefusesBrackets accept) (room : Nat) :
    Recognizes ((scalar write accept).read room) (ReadsScalar accept) :=
  recognizes_readScalar h

/-! ### Codecs from codecs -/

/-- A value that is converted is read as the one that it is converted from. -/
theorem recognizes_via {c : Codec α} {forward : β → α} {back : α → β} (h : c.Uniform)
    (room : Nat) :
    Recognizes ((c.via forward back).read room) fun r b ↦ ∃ a, c.Reads room r a ∧ b = back a :=
  Recognizes.map (h room) back

/-- `null`, or any other value that the codec reads. -/
def ReadsOption (c : Codec α) (room : Nat) (r : Raw) (o : Option α) : Prop :=
  (r = .null ∧ o = none) ∨ (r ≠ .null ∧ ∃ a, c.Reads room r a ∧ o = some a)

/-- No value is read from `null`, and any other value as by the codec itself. -/
theorem recognizes_option {c : Codec α} (h : c.Uniform) (room : Nat) :
    Recognizes ((option c).read room) (ReadsOption c room) := by
  rintro r _ rest o t ⟨w, s, hw, hs, rfl⟩ hrest
  have hsome := Recognizes.map (h room) some ⟨w, s, hw, hs, rfl⟩ hrest (a := o) (t := t)
  have hskip := hs.skipSpace hw rest
  rw [option, List.append_assoc]
  simp only [hskip]
  by_cases hnull : r = .null
  · subst hnull
    obtain rfl := hs
    rw [show "null".toList = 'n' :: "ull".toList from rfl, List.cons_append]
    simp only
    rw [word_append]
    simp [Except.map, ReadsOption, eq_comm]
  · obtain ⟨c, u, rfl, hc⟩ := hs.exists_cons
    -- Only `null` starts with this letter, so that the first character decides.
    have hn : c ≠ 'n' := by
      rintro rfl
      cases r with
      | null => exact hnull rfl
      | bool b => cases b <;> cases hc
      | number n =>
        rw [Raw.StartsWith] at hc
        split at hc <;> revert hc <;> decide
      | string k => cases hc
      | array rs => cases hc
      | object ms => cases hc
    rw [List.cons_append]
    simp only [List.append_assoc, List.cons_append] at hsome
    simp only [hnull, ReadsOption, false_and, false_or, ne_eq, not_false_eq_true, true_and]
    split
    next heq => exact absurd (List.cons.inj heq).1 hn
    next => exact hsome

/-- A value that is put aside is read as a tree, and the tree is matched. -/
theorem recognizes_buffered {write : α → Json} {match? : Json → Option α} {type : String}
    (room : Nat) :
    Recognizes ((buffered write match? type).read room) fun r a ↦
      ∃ j, Json.Reads (readValue room) r j ∧ match? j = some a := by
  intro r s rest a t hs hrest
  show (readValue room (s ++ rest) >>= _) = _ ↔ _
  rw [bind_eq_ok_iff]
  constructor
  · rintro ⟨⟨j, u⟩, hread, hmatch⟩
    obtain ⟨hj, hu⟩ := (uniform_readValue room hs hrest).1 hread
    simp only at hmatch
    split at hmatch
    next b hb =>
      cases hmatch
      exact ⟨⟨j, hj, hb⟩, hu⟩
    next => cases hmatch
  · rintro ⟨⟨j, hj, hmatch⟩, ht⟩
    exact ⟨(j, t), (uniform_readValue room hs hrest).2 ⟨hj, ht⟩,
      by simp [hmatch, pure, Except.pure]⟩

theorem recognizes_payload (room : Nat) :
    Recognizes (payload.read room) fun r p ↦
      ∃ j, Json.Reads (readValue room) r j ∧ p = j.toPayload :=
  Recognizes.map (uniform_readValue room) toPayload

/-! ### Lists and dictionaries -/

/-- The items of an array, one by one. -/
def ReadsList (c : Codec α) (room : Nat) (r : Raw) (as : List α) : Prop :=
  ∃ inner rs, room = inner + 1 ∧ r = .array rs ∧ List.Forall₂ (c.Reads inner) rs as

/-- **A list is read from an array**, each item by the codec of the items. -/
theorem recognizes_list {c : Codec α} (h : c.Uniform) (room : Nat) :
    Recognizes ((list c).read room) (ReadsList c room) := by
  refine recognizes_start fun r s rest as t hs hrest ↦ ?_
  rcases bare_cases hs with ⟨rs, u, rfl, hu, rfl⟩ | ⟨ms, u, rfl, hu, rfl⟩ | ⟨hr, d, u, rfl, hd, -⟩
  · simp only [List.cons_append, List.append_assoc, List.nil_append, bind_eq_ok_iff,
      open?_eq_ok_iff]
    constructor
    · rintro ⟨inner, hroom, hread⟩
      obtain ⟨has, ht⟩ := (readList_iff (h inner) hu).1 hread
      exact ⟨⟨inner, rs, hroom, rfl, has⟩, ht⟩
    · rintro ⟨⟨inner, rs', hroom, heq, has⟩, ht⟩
      cases heq
      exact ⟨inner, hroom, (readList_iff (h inner) hu).2 ⟨has, ht⟩⟩
  · simp [ReadsList]
  · simp [ReadsList, hd, ne_array_of_isBracket hr]

/-- Adds the entry of a member. -/
def AddsEntry (repetition : Repetition) (c : Codec α) (room : Nat) (d : Dict α) (name : String)
    (r : Raw) (d' : Dict α) : Prop :=
  ∃ a, c.Reads room r a ∧ addEntry repetition d name a = .ok d'

/-- The members of an object, each an entry. -/
def ReadsDict (repetition : Repetition) (c : Codec α) (room : Nat) (r : Raw) (d : Dict α) : Prop :=
  ∃ inner ms ns, room = inner + 1 ∧ r = .object ms ∧ Named ms ns ∧
    Run (AddsEntry repetition c inner) .empty ns d

/-- Each member of an object adds an entry, unless its key is a repeated one and these are
refused. -/
theorem recognizesMember_dict {repetition : Repetition} {c : Codec α} (h : c.Uniform)
    (room : Nat) :
    RecognizesMember (fun (d : Dict α) key s ↦ do
        let s ← colon s
        let (a, s) ← c.read room s
        let d ← orFault (addEntry repetition d key a)
        return (d, s)) (AddsEntry repetition c room) := by
  intro d name r w s rest d' t hw hs hrest
  simp only [colon_append hw]
  show (c.read room (s ++ rest) >>= _) = _ ↔ _
  simp only [bind_eq_ok_iff, orFault_eq_ok_iff, pure, Except.pure, Except.ok.injEq, Prod.mk.injEq]
  constructor
  · rintro ⟨⟨a, u⟩, hread, d'', hd, rfl, rfl⟩
    obtain ⟨ha, hu⟩ := (h room hs hrest).1 hread
    exact ⟨⟨a, ha, hd⟩, hu⟩
  · rintro ⟨⟨a, ha, hd⟩, rfl⟩
    exact ⟨(a, t), (h room hs hrest).2 ⟨ha, rfl⟩, d', hd, rfl, rfl⟩

/-- **A dictionary is read from an object.** What a repeated key does is the affair of
`addEntry`. -/
theorem recognizes_dict {repetition : Repetition} {c : Codec α} (h : c.Uniform) (room : Nat) :
    Recognizes ((dict repetition c).read room) (ReadsDict repetition c room) := by
  refine recognizes_start fun r s rest d t hs hrest ↦ ?_
  rcases bare_cases hs with ⟨rs, u, rfl, hu, rfl⟩ | ⟨ms, u, rfl, hu, rfl⟩ | ⟨hr, x, u, rfl, -, hx⟩
  · simp [ReadsDict]
  · simp only [List.cons_append, List.append_assoc, List.nil_append, bind_eq_ok_iff,
      open?_eq_ok_iff]
    constructor
    · rintro ⟨inner, hroom, hread⟩
      obtain ⟨⟨ns, hns, hrun⟩, ht⟩ := (readObject_iff (recognizesMember_dict h inner) hu).1 hread
      exact ⟨⟨inner, ms, ns, hroom, rfl, hns, hrun⟩, ht⟩
    · rintro ⟨⟨inner, ms', ns, hroom, heq, hns, hrun⟩, ht⟩
      cases heq
      exact ⟨inner, hroom,
        (readObject_iff (recognizesMember_dict h inner) hu).2 ⟨⟨ns, hns, hrun⟩, ht⟩⟩
  · simp [ReadsDict, hx, ne_object_of_isBracket hr]

/-- The members of an object, read as trees and put in normal form. -/
def ReadsConfig (room : Nat) (r : Raw) (c : Config) : Prop :=
  ∃ inner ms ns js, room = inner + 1 ∧ r = .object ms ∧ Named ms ns ∧
    ReadsMembers (readValue inner) ns js ∧ c = Config.ofMembers js

/-- A configuration is read from an object, with the last value of a repeated key. -/
theorem recognizes_config (room : Nat) : Recognizes (config.read room) (ReadsConfig room) := by
  refine recognizes_start fun r s rest c t hs hrest ↦ ?_
  rcases bare_cases hs with ⟨rs, u, rfl, hu, rfl⟩ | ⟨ms, u, rfl, hu, rfl⟩ | ⟨hr, x, u, rfl, -, hx⟩
  · simp [ReadsConfig]
  · simp only [List.cons_append, List.append_assoc, List.nil_append, bind_eq_ok_iff,
      open?_eq_ok_iff, pure, Except.pure, Except.ok.injEq, Prod.mk.injEq]
    constructor
    · rintro ⟨inner, hroom, ⟨js, x⟩, hread, rfl, rfl⟩
      obtain ⟨⟨ns, hns, hjs⟩, ht⟩ := (readObject_anyMember_iff (uniform_readValue inner) hu).1 hread
      exact ⟨⟨inner, ms, ns, js, hroom, rfl, hns, hjs, rfl⟩, ht⟩
    · rintro ⟨⟨inner, ms', ns, js, hroom, heq, hns, hjs, rfl⟩, ht⟩
      cases heq
      exact ⟨inner, hroom, (js, t),
        (readObject_anyMember_iff (uniform_readValue inner) hu).2 ⟨⟨ns, hns, hjs⟩, ht⟩, rfl, rfl⟩
  · simp [ReadsConfig, hx, ne_object_of_isBracket hr]

/-! ### Choices -/

/-- The name of a variant, or an object with the name and what it holds. -/
def ReadsChoice (variants : List (Variant σ)) (room : Nat) (r : Raw) (a : σ) : Prop :=
  (∃ k name v, r = .string k ∧ k.decode? = some name ∧ Variant.find variants name = .ok v ∧
      v.bare = .ok a) ∨
    ∃ inner k r' name v, room = inner + 1 ∧ r = .object [(k, r')] ∧ k.decode? = some name ∧
      Variant.find variants name = .ok v ∧ Json.Reads (v.read inner) r' a

/-- The name of a choice stands in quotation marks, and any spelling of it will do. -/
theorem readChoice_quoted (k : StringSpelling) {w rest t : List Char} (hw : Blank w)
    {name : String} :
    readChoice (w ++ (k.quoted ++ rest)) = .ok (name, t) ↔ k.decode? = some name ∧ t = rest := by
  have hskip : skipSpace (w ++ (k.quoted ++ rest)) = '"' :: (k.chars ++ '"' :: rest) := by
    rw [hw.skipSpace_append, StringSpelling.quoted, List.cons_append, List.cons_append,
      skipSpace_cons (by decide), List.append_assoc]
    rfl
  rw [readChoice, hskip]
  simp only [map_eq_ok_iff, Prod.exists, Prod.mk.injEq, k.stringBody_quoted]
  constructor
  · rintro ⟨cs, u, ⟨hname, hu⟩, rfl, rfl⟩
    exact ⟨hname, hu⟩
  · rintro ⟨hname, ht⟩
    exact ⟨name.toList, t, ⟨by simpa using hname, ht⟩, by simp, rfl⟩

theorem closeChoice_close {w rest : List Char} (hw : Blank w) :
    closeChoice (w ++ '\x7d' :: rest) = .ok rest := by
  rw [closeChoice, hw.skipSpace_append, skipSpace_cons (by decide)]
  rfl

/-- After the only member the brace has to be closed. -/
theorem closeChoice_members {ms : List (StringSpelling × Raw)} {u rest t : List Char}
    (hu : Raw.Members false ms u) :
    closeChoice (u ++ '\x7d' :: rest) = .ok t ↔ ms = [] ∧ t = rest := by
  cases ms with
  | nil =>
    rw [closeChoice_close hu]
    simp [eq_comm]
  | cons m ms =>
    obtain ⟨w, w', c, c', x, v, hw, -, -, -, -, -, rfl⟩ := hu
    rw [closeChoice, List.append_assoc, hw.skipSpace_append, separator, List.singleton_append,
      List.cons_append, skipSpace_cons (by decide)]
    simp

/-- The variant that is found is one of those to choose from. -/
theorem Variant.mem_of_find {variants : List (Variant σ)} {name : String} {v : Variant σ}
    (h : Variant.find variants name = .ok v) : v ∈ variants := by
  rw [Variant.find] at h
  split at h
  next w hw =>
    cases h
    exact List.mem_of_find?_eq_some hw
  next => cases h

/-- Only strings begin with a quotation mark, and only objects with a brace. -/
theorem exists_cons_of_not_named {r : Raw} {s : List Char} (hs : r.Bare s)
    (hstring : ∀ k, r ≠ .string k) (hobject : ∀ ms, r ≠ .object ms) :
    ∃ c u, s = c :: u ∧ c ≠ '"' ∧ c ≠ '\x7b' := by
  obtain ⟨c, u, rfl, hc⟩ := hs.exists_cons
  refine ⟨c, u, rfl, ?_⟩
  cases r with
  | null => cases hc; decide
  | bool b => cases b <;> cases hc <;> decide
  | number n =>
    rw [Raw.StartsWith] at hc
    split at hc
    · cases hc; decide
    · exact ⟨(ne_of_isDigit hc).2.2.2.1, (ne_of_isDigit hc).2.2.2.2.2.2.1⟩
  | string k => exact absurd rfl (hstring k)
  | array rs => cases hc; decide
  | object ms => exact absurd rfl (hobject ms)

/-- **A choice is read from a name or from an object with one member.** The content of a name is
nothing, for which the reader of the variant sees `null`. -/
theorem recognizes_choice {variants : List (Variant σ)} {write : σ → Json}
    (h : ∀ v ∈ variants, ∀ room, Json.Uniform (v.read room)) (room : Nat) :
    Recognizes ((choice variants write).read room) (ReadsChoice variants room) := by
  refine recognizes_start fun r s rest a t hs hrest ↦ ?_
  cases r with
  | string k =>
    obtain rfl := hs
    simp only [StringSpelling.quoted, List.cons_append, List.append_assoc, List.nil_append,
      bind_eq_ok_iff, Prod.exists, k.stringBody_quoted, orFault_eq_ok_iff, pure, Except.pure,
      Except.ok.injEq, Prod.mk.injEq]
    constructor
    · rintro ⟨cs, u, ⟨hname, rfl⟩, v, hv, b, hb, rfl, rfl⟩
      exact ⟨.inl ⟨k, _, v, rfl, hname, hv, hb⟩, rfl⟩
    · rintro ⟨⟨k', name, v, heq, hname, hv, hb⟩ | ⟨_, _, _, _, _, _, heq, _⟩, rfl⟩
      · cases heq
        exact ⟨name.toList, t, ⟨by simpa using hname, rfl⟩, v, by simpa using hv, a, hb, rfl, rfl⟩
      · cases heq
  | object ms =>
    obtain ⟨u, hu, rfl⟩ := hs
    simp only [List.cons_append, List.append_assoc, List.nil_append, bind_eq_ok_iff,
      open?_eq_ok_iff, Prod.exists, orFault_eq_ok_iff, pure, Except.pure, Except.ok.injEq,
      Prod.mk.injEq]
    -- An object has the name and the content as its first member, and must end after it.
    cases ms with
    | nil =>
      have hempty : readChoice (u ++ '\x7d' :: rest) =
          .error (.peek .expectedValue ('\x7d' :: rest)) := by
        rw [readChoice, Blank.skipSpace_append hu, skipSpace_cons (by decide)]
        rfl
      simp [hempty, ReadsChoice]
    | cons m ms =>
      obtain ⟨k, r⟩ := m
      obtain ⟨w, w', c, c', x, u, hw, hw', hc, hc', hx, hu, rfl⟩ := hu
      have hname {name : String} {y : List Char} :
          readChoice (w ++ (separator true ++ (w' ++ (k.quoted ++ (c ++ ':' :: (c' ++
            (x ++ (u ++ '\x7d' :: rest)))))))) = .ok (name, y) ↔
            k.decode? = some name ∧ y = c ++ ':' :: (c' ++ (x ++ (u ++ '\x7d' :: rest))) := by
        rw [separator, List.nil_append, ← List.append_assoc w]
        exact readChoice_quoted k (hw.append hw')
      have hvalue {inner : Nat} {v : Variant σ} (hv : v ∈ variants) {b : σ} {y : List Char} :
          v.read inner (c' ++ (x ++ (u ++ '\x7d' :: rest))) = .ok (b, y) ↔
            Json.Reads (v.read inner) r b ∧ y = u ++ '\x7d' :: rest := by
        rw [← List.append_assoc]
        exact h v hv inner ⟨c', x, hc', hx, rfl⟩ hu.boundary
      simp only [List.append_assoc, List.cons_append, hname]
      constructor
      · rintro ⟨inner, hroom, name, y, ⟨hk, rfl⟩, v, hv, z, hcolon, b, z', hread, z'', hclose, rfl,
          rfl⟩
        rw [colon_append hc] at hcolon
        cases hcolon
        obtain ⟨hb, rfl⟩ := (hvalue (Variant.mem_of_find hv)).1 hread
        obtain ⟨rfl, ht⟩ := (closeChoice_members hu).1 hclose
        exact ⟨.inr ⟨inner, k, r, name, v, hroom, rfl, hk, hv, hb⟩, ht⟩
      · rintro ⟨⟨_, _, _, heq, _⟩ | ⟨inner, k', r', name, v, hroom, heq, hk, hv, hb⟩, rfl⟩
        · cases heq
        · cases heq
          exact ⟨inner, hroom, name, _, ⟨hk, rfl⟩, v, hv, _, colon_append hc, a, _,
            (hvalue (Variant.mem_of_find hv)).2 ⟨hb, rfl⟩, t, (closeChoice_members hu).2 ⟨rfl, rfl⟩,
            rfl, rfl⟩
  | null | bool b | number n | array rs =>
    obtain ⟨c, u, rfl, hquote, hbrace⟩ := exists_cons_of_not_named hs (by simp) (by simp)
    simp [ReadsChoice, hquote, hbrace]

theorem recognizes_readNothing :
    Recognizes readNothing fun r _ ↦ r = .null := by
  intro r s rest a t hs hrest
  refine (recognizes_readScalar ?_ hs hrest).trans (and_congr_left' ?_)
  · exact .of_error rfl rfl
  constructor
  · rintro ⟨-, got, hgot, haccept⟩
    cases r with
    | null => rfl
    | bool b => cases hgot; cases haccept
    | number n =>
      obtain ⟨v, -, rfl⟩ := Option.map_eq_some_iff.1 hgot
      cases v <;> cases haccept
    | string k =>
      obtain ⟨v, -, rfl⟩ := Option.map_eq_some_iff.1 hgot
      cases haccept
    | array rs => cases hgot; cases haccept
    | object ms => cases hgot; cases haccept
  · rintro rfl
    exact ⟨rfl, .null, rfl, rfl⟩

/-- A variant without content is read from its name, and from an object in which its content is
`null`. -/
theorem recognizes_named {name : String} {value : σ} (room : Nat) :
    Recognizes ((Variant.named name value).read room) fun r a ↦ r = .null ∧ a = value := by
  intro r s rest a t hs hrest
  rw [show (Variant.named name value).read room (s ++ rest) =
    (readNothing (s ++ rest)).map fun x ↦ (value, x.2) from rfl,
    Recognizes.map recognizes_readNothing (fun _ ↦ value) hs hrest]
  simp

/-- A variant that holds a value is read as the value is. -/
theorem recognizes_holding {name : String} {c : Codec α} {of : α → σ} (h : c.Uniform)
    (room : Nat) :
    Recognizes ((Variant.holding name c of).read room) fun r b ↦
      ∃ a, c.Reads room r a ∧ b = of a :=
  Recognizes.map (h room) of

/-! ### Records -/

/-- The fields with a property that their codecs have. -/
def Fields.All (p : ∀ {α : Type}, Codec α → Prop) : {αs : List Type} → Fields αs → Prop
  | _, .nil => True
  | _, .cons f fs => p f.codec ∧ fs.All p

/-- A member fills the slot of its field, which must be empty. A member that is no field changes
nothing, unless the record is strict. -/
def Fields.Takes (accepts : ∀ {α : Type}, Codec α → V → α → Prop) (strict : Bool) :
    {αs : List Type} → Fields αs → Slots αs → String → V → Slots αs → Prop
  | _, .nil, _, _, _, _ => strict = false
  | _, .cons f fs, (slot, slots), name, v, (slot', slots') =>
    (f.name = name ∧ slot = none ∧ slots' = slots ∧ ∃ a, accepts f.codec v a ∧ slot' = some a) ∨
      (f.name ≠ name ∧ slot' = slot ∧ fs.Takes accepts strict slots name v slots')

/-- Items fill the fields in order. A list that ends early leaves fields to their defaults. -/
def Fields.TakesItems (accepts : ∀ {α : Type}, Codec α → V → α → Prop) :
    {αs : List Type} → Fields αs → List V → Row αs → Prop
  | _, .nil, vs, _ => vs = []
  | _, .cons f fs, [], (a, row) => f.missing = .anywhere a ∧ fs.TakesItems accepts [] row
  | _, .cons f fs, v :: vs, (a, row) => accepts f.codec v a ∧ fs.TakesItems accepts vs row

/-- An object whose members fill the fields, or an array whose items do. -/
def ReadsRecord (strict : Bool) (fields : Fields αs) (ofRow : Row αs → σ) (room : Nat) (r : Raw)
    (a : σ) : Prop :=
  (∃ inner ms ns slots row, room = inner + 1 ∧ r = .object ms ∧ Named ms ns ∧
      Run (fields.Takes (fun c r a ↦ c.Reads inner r a) strict) fields.empty ns slots ∧
      fields.finish slots = .ok row ∧ a = ofRow row) ∨
    ∃ inner rs row, room = inner + 1 ∧ r = .array rs ∧
      fields.TakesItems (fun c r a ↦ c.Reads inner r a) rs row ∧ a = ofRow row

namespace Fields

/-- A member that is no field is dropped, or refused by a strict record. -/
theorem takes_iff_of_notMem {accepts : ∀ {α : Type}, Codec α → V → α → Prop} {strict : Bool}
    {fields : Fields αs} {slots slots' : Slots αs} {name : String} {v : V}
    (h : name ∉ fields.names) :
    fields.Takes accepts strict slots name v slots' ↔ strict = false ∧ slots' = slots := by
  induction fields with
  | nil => exact ⟨fun h ↦ ⟨h, rfl⟩, And.left⟩
  | cons f fs ih =>
    obtain ⟨slot, slots⟩ := slots
    obtain ⟨slot', slots'⟩ := slots'
    obtain ⟨hf, hfs⟩ : f.name ≠ name ∧ name ∉ fs.names := by
      simpa [names, eq_comm] using h
    simp only [Takes, hf, ih hfs, false_and, false_or, ne_eq, not_false_eq_true, true_and,
      Prod.mk.injEq]
    exact and_left_comm

/-- No field reads a member with another name. -/
theorem readMember_of_notMem {fields : Fields αs} {room : Nat} {slots : Slots αs}
    {name : String} {s : List Char} (h : name ∉ fields.names) :
    fields.readMember room slots name s = .ok none := by
  induction fields with
  | nil => rfl
  | cons f fs ih =>
    obtain ⟨slot, slots⟩ := slots
    obtain ⟨hf, hfs⟩ : f.name ≠ name ∧ name ∉ fs.names := by
      simpa [names, eq_comm] using h
    rw [readMember.eq_def]
    simp only [if_neg hf, ih hfs]
    rfl

/-- **The member of a field** is read by the field's codec, and only once. -/
theorem readMember_eq_ok_iff {fields : Fields αs} (h : fields.All Uniform) (strict : Bool)
    {room : Nat} {slots : Slots αs} {name : String} (hname : name ∈ fields.names) {r : Raw}
    {w s rest : List Char} (hw : Blank w) (hs : r.Spelled s) (hrest : Boundary rest)
    {o : Option (Read (Slots αs))} :
    fields.readMember room slots name (w ++ ':' :: (s ++ rest)) = .ok o ↔
      ∃ slots', fields.Takes (fun c r a ↦ c.Reads room r a) strict slots name r slots' ∧
        o = some (slots', rest) := by
  induction fields with
  | nil => cases hname
  | cons f fs ih =>
    obtain ⟨slot, slots⟩ := slots
    obtain ⟨hcodec, hall⟩ := h
    rw [readMember.eq_def]
    simp only
    by_cases hf : f.name = name
    -- The member is that of the first field, whose slot must be empty still.
    · rw [if_pos hf]
      cases slot with
      | some a => simp [Takes, hf]
      | none =>
        simp only [colon_append hw, Takes, hf, true_and, ne_eq, not_true_eq_false, false_and,
          or_false]
        show (f.codec.read room (s ++ rest) >>= _) = _ ↔ _
        rw [bind_eq_ok_iff]
        constructor
        · rintro ⟨⟨a, u⟩, hread, heq⟩
          obtain ⟨ha, rfl⟩ := (hcodec room hs hrest).1 hread
          cases heq
          exact ⟨(some a, slots), ⟨rfl, a, ha, rfl⟩, rfl⟩
        · rintro ⟨⟨slot', slots'⟩, ⟨rfl, a, ha, rfl⟩, rfl⟩
          exact ⟨(a, rest), (hcodec room hs hrest).2 ⟨ha, rfl⟩, rfl⟩
    · have hfs : name ∈ fs.names := by
        simpa [names, Ne.symm hf] using hname
      rw [if_neg hf, bind_eq_ok_iff]
      constructor
      · rintro ⟨o', hread, heq⟩
        obtain ⟨slots', htakes, rfl⟩ := (ih hall hfs).1 hread
        cases heq
        exact ⟨(slot, slots'), .inr ⟨hf, rfl, htakes⟩, rfl⟩
      · rintro ⟨⟨slot', slots'⟩, ⟨hf', -⟩ | ⟨-, rfl, htakes⟩, rfl⟩
        · exact absurd hf' hf
        · exact ⟨some (slots', rest), (ih hall hfs).2 ⟨slots', htakes, rfl⟩, rfl⟩

/-- **A member is read by the field with its name**, into its slot. Repeated fields are refused, and
so are unknown ones by a strict record. -/
theorem recognizesMember {fields : Fields αs} (h : fields.All Uniform) (strict : Bool)
    (room : Nat) :
    RecognizesMember (fields.member strict room)
      (fields.Takes (fun c r a ↦ c.Reads room r a) strict) := by
  intro slots name r w s rest slots' t hw hs hrest
  rw [member, bind_eq_ok_iff]
  by_cases hname : name ∈ fields.names
  · simp only [readMember_eq_ok_iff h strict hname hw hs hrest]
    constructor
    · rintro ⟨_, ⟨slots'', htakes, rfl⟩, heq⟩
      cases heq
      exact ⟨htakes, rfl⟩
    · rintro ⟨htakes, rfl⟩
      exact ⟨some (slots', t), ⟨slots', htakes, rfl⟩, rfl⟩
  · rw [readMember_of_notMem hname, takes_iff_of_notMem hname]
    simp only [Except.ok.injEq, exists_eq_left']
    cases strict with
    | true => simp
    | false =>
      simp only [Bool.false_eq_true, if_false, colon_append hw, true_and]
      show (skip (s ++ rest) >>= _) = _ ↔ _
      rw [skip_spelled hs hrest]
      simp [bind, Except.bind, pure, Except.pure, eq_comm]

/-- After the last field no item may follow. -/
theorem closeList_items {first : Bool} {rs : List Raw} {s rest t : List Char}
    (hs : Raw.Items first rs s) :
    closeList (s ++ ']' :: rest) = .ok t ↔ rs = [] ∧ t = rest := by
  cases rs with
  | nil =>
    rw [closeList_close hs]
    simp [eq_comm]
  | cons r rs =>
    obtain ⟨w, w', x, u, hw, hw', hx, -, rfl⟩ := hs
    have hskip := hx.skipSpace hw' (u ++ ']' :: rest)
    obtain ⟨c, x, rfl, hc⟩ := hx.exists_cons
    rw [closeList]
    simp only [List.append_assoc, List.cons_append] at hskip ⊢
    rw [hw.skipSpace_append]
    cases first with
    | true =>
      rw [separator, List.nil_append, hskip]
      simp [hc.ne]
    | false =>
      rw [separator, List.singleton_append, skipSpace_cons (by decide)]
      simp [hskip, hc.ne]

/-- **Items are read by the codecs of the fields** in their order, then the bracket is closed. -/
theorem readItems_iff {fields : Fields αs} (h : fields.All Uniform) {room : Nat} (index : Nat)
    {wanted : String} {rs : List Raw} {s rest t : List Char}
    (hs : Raw.Items (index == 0) rs s) {row : Row αs} :
    (∃ u, fields.readItems room wanted index (s ++ ']' :: rest) = .ok (row, u) ∧
        closeList u = .ok t) ↔
      fields.TakesItems (fun c r a ↦ c.Reads room r a) rs row ∧ t = rest := by
  induction fields generalizing index rs s with
  | nil =>
    simp only [readItems, TakesItems, Except.ok.injEq, Prod.mk.injEq, true_and, exists_eq_left']
    exact closeList_items hs
  | cons f fs ih =>
    obtain ⟨a, row⟩ := row
    obtain ⟨hcodec, hall⟩ := h
    cases rs with
    | nil =>
      -- The list ends early: what is left of it is read again for the next field.
      have hnext : nextItem? (index == 0) (s ++ ']' :: rest) = .ok none := nextItem?_close hs
      have hend : Raw.Items (index + 1 == 0) [] s := hs
      rw [readItems, hnext, TakesItems, and_assoc, ← ih hall (index + 1) hend]
      cases f.missing with
      | refused => simp [bind, Except.bind]
      | inObject b => simp [bind, Except.bind]
      | anywhere b =>
        show (∃ u, (fs.readItems room wanted (index + 1) (s ++ ']' :: rest) >>= fun x ↦
          pure ((b, x.1), x.2)) = .ok ((a, row), u) ∧ closeList u = .ok t) ↔ _
        simp only [bind_eq_ok_iff, Prod.exists, pure, Except.pure, Except.ok.injEq, Prod.mk.injEq,
          Missing.anywhere.injEq]
        constructor
        · rintro ⟨u, ⟨row', u', hread, ⟨rfl, rfl⟩, rfl⟩, hclose⟩
          exact ⟨rfl, u', hread, hclose⟩
        · rintro ⟨rfl, u, hread, hclose⟩
          exact ⟨u, ⟨row, u, hread, ⟨rfl, rfl⟩, rfl⟩, hclose⟩
    | cons r rs =>
      obtain ⟨w, w', x, v, hw, hw', hx, hv, rfl⟩ := hs
      have hnext := nextItem?_items (index == 0) hw hw' hx (v ++ ']' :: rest)
      have hitem {b : _} {y : List Char} :
          f.codec.read room (x ++ (v ++ ']' :: rest)) = .ok (b, y) ↔
            f.codec.Reads room r b ∧ y = v ++ ']' :: rest := hcodec room hx.spelled hv.boundary
      have hrest : Raw.Items (index + 1 == 0) rs v := hv
      simp only [List.append_assoc] at hnext ⊢
      rw [readItems, hnext, TakesItems, and_assoc, ← ih hall (index + 1) hrest]
      show (∃ u, (f.codec.read room (x ++ (v ++ ']' :: rest)) >>= fun y ↦
        fs.readItems room wanted (index + 1) y.2 >>= fun z ↦ pure ((y.1, z.1), z.2)) =
          .ok ((a, row), u) ∧ _) ↔ _
      simp only [bind_eq_ok_iff, Prod.exists, pure, Except.pure, Except.ok.injEq, Prod.mk.injEq,
        hitem]
      constructor
      · rintro ⟨u, ⟨b, y, ⟨hb, rfl⟩, row', u', hread, ⟨rfl, rfl⟩, rfl⟩, hclose⟩
        exact ⟨hb, u', hread, hclose⟩
      · rintro ⟨ha, u, hread, hclose⟩
        exact ⟨u, ⟨a, _, ⟨ha, rfl⟩, row, u, hread, ⟨rfl, rfl⟩, rfl⟩, hclose⟩

end Fields

/-- **A record is read from an object or from an array**: fields come under their names or in their
order. -/
theorem recognizes_record {name : String} {strict : Bool} {fields : Fields αs} {toRow : σ → Row αs}
    {ofRow : Row αs → σ} (h : fields.All Uniform) (room : Nat) :
    Recognizes ((record name strict fields toRow ofRow).read room)
      (ReadsRecord strict fields ofRow room) := by
  refine recognizes_start fun r s rest a t hs hrest ↦ ?_
  rcases bare_cases hs with ⟨rs, u, rfl, hu, rfl⟩ | ⟨ms, u, rfl, hu, rfl⟩ | ⟨hr, x, u, rfl, hx, hx'⟩
  · simp only [List.cons_append, List.append_assoc, List.nil_append, bind_eq_ok_iff,
      open?_eq_ok_iff, Prod.exists, pure, Except.pure, Except.ok.injEq, Prod.mk.injEq]
    constructor
    · rintro ⟨inner, hroom, row, v, hread, x, hclose, rfl, rfl⟩
      obtain ⟨hrow, ht⟩ := (Fields.readItems_iff h 0 hu).1 ⟨v, hread, hclose⟩
      exact ⟨.inr ⟨inner, rs, row, hroom, rfl, hrow, rfl⟩, ht⟩
    · rintro ⟨⟨_, _, _, _, _, _, heq, _⟩ | ⟨inner, rs', row, hroom, heq, hrow, rfl⟩, ht⟩
      · cases heq
      · cases heq
        obtain ⟨v, hread, hclose⟩ := (Fields.readItems_iff h 0 hu).2 ⟨hrow, ht⟩
        exact ⟨inner, hroom, row, v, hread, t, hclose, rfl, rfl⟩
  · simp only [List.cons_append, List.append_assoc, List.nil_append, bind_eq_ok_iff,
      open?_eq_ok_iff, Prod.exists, orFault_eq_ok_iff, pure, Except.pure, Except.ok.injEq,
      Prod.mk.injEq]
    constructor
    · rintro ⟨inner, hroom, slots, v, hread, row, hrow, rfl, rfl⟩
      obtain ⟨⟨ns, hns, hrun⟩, ht⟩ :=
        (readObject_iff (Fields.recognizesMember h strict inner) hu).1 hread
      exact ⟨.inl ⟨inner, ms, ns, slots, row, hroom, rfl, hns, hrun, hrow, rfl⟩, ht⟩
    · rintro ⟨⟨inner, ms', ns, slots, row, hroom, heq, hns, hrun, hrow, rfl⟩ |
        ⟨_, _, _, _, heq, _⟩, ht⟩
      · cases heq
        exact ⟨inner, hroom, slots, t, (readObject_iff (Fields.recognizesMember h strict inner)
          hu).2 ⟨⟨ns, hns, hrun⟩, ht⟩, row, hrow, rfl, rfl⟩
      · cases heq
  · simp [ReadsRecord, hx, hx', ne_array_of_isBracket hr, ne_object_of_isBracket hr]

/-! ### Records in trees -/

namespace Fields

theorem memberOfJson_of_notMem {fields : Fields αs} {slots : Slots αs} {name : String} {j : Json}
    (h : name ∉ fields.names) : fields.memberOfJson .text slots name j = .ok none := by
  induction fields with
  | nil => rfl
  | cons f fs ih =>
    obtain ⟨slot, slots⟩ := slots
    obtain ⟨hf, hfs⟩ : f.name ≠ name ∧ name ∉ fs.names := by
      simpa [names, eq_comm] using h
    rw [memberOfJson.eq_def]
    simp only [if_neg hf, ih hfs]
    rfl

/-- A member of a tree is matched by the field with its name. -/
theorem memberOfJson_eq_ok_iff {fields : Fields αs} (strict : Bool) {slots : Slots αs}
    {name : String} (hname : name ∈ fields.names) {j : Json} {o : Option (Slots αs)} :
    fields.memberOfJson .text slots name j = .ok o ↔
      ∃ slots', fields.Takes (fun c j a ↦ c.ofJson .text j = .ok a) strict slots name j slots' ∧
        o = some slots' := by
  induction fields with
  | nil => cases hname
  | cons f fs ih =>
    obtain ⟨slot, slots⟩ := slots
    rw [memberOfJson.eq_def]
    simp only
    by_cases hf : f.name = name
    · rw [if_pos hf]
      cases slot with
      | some a => simp [Takes, hf]
      | none =>
        rw [bind_eq_ok_iff]
        constructor
        · rintro ⟨a, ha, heq⟩
          cases heq
          exact ⟨(some a, slots), .inl ⟨hf, rfl, rfl, a, ha, rfl⟩, rfl⟩
        · rintro ⟨⟨slot', slots'⟩, ⟨-, -, rfl, a, ha, rfl⟩ | ⟨hf', -⟩, rfl⟩
          · exact ⟨a, ha, rfl⟩
          · exact absurd hf hf'
    · have hfs : name ∈ fs.names := by
        simpa [names, Ne.symm hf] using hname
      rw [if_neg hf, bind_eq_ok_iff]
      constructor
      · rintro ⟨o', hread, heq⟩
        obtain ⟨slots', htakes, rfl⟩ := (ih hfs).1 hread
        cases heq
        exact ⟨(slot, slots'), .inr ⟨hf, rfl, htakes⟩, rfl⟩
      · rintro ⟨⟨slot', slots'⟩, ⟨hf', -⟩ | ⟨-, rfl, htakes⟩, rfl⟩
        · exact absurd hf' hf
        · exact ⟨some slots', (ih hfs).2 ⟨slots', htakes, rfl⟩, rfl⟩

/-- The members of a tree are taken as those of a text are. -/
theorem membersOfJson_eq_ok_iff {fields : Fields αs} {strict : Bool} {slots slots' : Slots αs}
    {ms : List (String × Json)} :
    fields.membersOfJson strict .text slots ms = .ok slots' ↔
      Run (fields.Takes (fun c j a ↦ c.ofJson .text j = .ok a) strict) slots ms slots' := by
  induction ms generalizing slots with
  | nil => simp [membersOfJson, Run, eq_comm]
  | cons m ms ih =>
    obtain ⟨name, j⟩ := m
    rw [membersOfJson, bind_eq_ok_iff, Run]
    by_cases hname : name ∈ fields.names
    · simp only [memberOfJson_eq_ok_iff strict hname]
      constructor
      · rintro ⟨_, ⟨mid, htakes, rfl⟩, hrest⟩
        exact ⟨mid, htakes, ih.1 hrest⟩
      · rintro ⟨mid, htakes, hrest⟩
        exact ⟨some mid, ⟨mid, htakes, rfl⟩, ih.2 hrest⟩
    · simp only [memberOfJson_of_notMem hname, takes_iff_of_notMem hname, Except.ok.injEq,
        exists_eq_left', ← ih]
      cases strict with
      | true => simp
      | false => simp

/-- Fields take the items of an array in their order, and there has to be one for each field that
cannot be left out. -/
theorem itemsOfJson_eq_ok_iff {fields : Fields αs} {wanted : String} {index : Nat}
    {js : List Json} {row : Row αs} :
    fields.itemsOfJson .text wanted index js = .ok (row, []) ↔
      fields.TakesItems (fun c j a ↦ c.ofJson .text j = .ok a) js row := by
  induction fields generalizing index js with
  | nil => simp [itemsOfJson, TakesItems]
  | cons f fs ih =>
    obtain ⟨a, row⟩ := row
    cases js with
    | nil =>
      rw [itemsOfJson, TakesItems, ← ih]
      simp only
      cases f.missing with
      | refused => simp
      | inObject b => simp
      | anywhere b =>
        simp only [bind_eq_ok_iff, Prod.exists, pure, Except.pure, Except.ok.injEq, Prod.mk.injEq,
          Missing.anywhere.injEq]
        constructor
        · rintro ⟨row', js', hread, ⟨rfl, rfl⟩, rfl⟩
          exact ⟨rfl, hread⟩
        · rintro ⟨rfl, hread⟩
          exact ⟨row, [], hread, ⟨rfl, rfl⟩, rfl⟩
    | cons j js =>
      rw [itemsOfJson, TakesItems, ← ih]
      simp only [bind_eq_ok_iff, Prod.exists, pure, Except.pure, Except.ok.injEq, Prod.mk.injEq]
      constructor
      · rintro ⟨b, hb, row', js', hread, ⟨rfl, rfl⟩, rfl⟩
        exact ⟨hb, hread⟩
      · rintro ⟨ha, hread⟩
        exact ⟨a, ha, row, [], hread, ⟨rfl, rfl⟩, rfl⟩

/-- A tree is read as a text is. -/
theorem ofObject_eq_ok_iff {fields : Fields αs} {strict : Bool} {ms : List (String × Json)}
    {row : Row αs} :
    fields.ofObject strict .text ms = .ok row ↔
      ∃ slots, Run (fields.Takes (fun c j a ↦ c.ofJson .text j = .ok a) strict) fields.empty ms
        slots ∧ fields.finish slots = .ok row := by
  simp only [ofObject, bind_eq_ok_iff, membersOfJson_eq_ok_iff]

/-- A record is matched in an array without an item to spare. -/
theorem ofArray_eq_ok_iff {fields : Fields αs} {type : String} {js : List Json} {row : Row αs} :
    fields.ofArray .text type js = .ok row ↔
      fields.TakesItems (fun c j a ↦ c.ofJson .text j = .ok a) js row := by
  rw [ofArray, bind_eq_ok_iff]
  constructor
  · rintro ⟨⟨row', extra⟩, hitems, hextra⟩
    cases extra with
    | nil =>
      cases hextra
      exact itemsOfJson_eq_ok_iff.1 hitems
    | cons j js => cases hextra
  · intro htakes
    exact ⟨(row, []), itemsOfJson_eq_ok_iff.2 htakes, rfl⟩

end Fields

/-! ### Tagged records -/

/-- The string that names a form. -/
def ReadsTag (forms : List (Form σ)) (r : Raw) (form : Form σ) : Prop :=
  ∃ k tag, r = .string k ∧ k.decode? = some tag ∧ Form.find forms tag = .ok form

/-- The tag is looked up, and any other member put aside. -/
def TakesTagged (key : String) (forms : List (Form σ)) (room : Nat)
    (state : Option (Form σ) × List (String × Json)) (name : String) (r : Raw)
    (state' : Option (Form σ) × List (String × Json)) : Prop :=
  (name = key ∧ state.1 = none ∧ state'.2 = state.2 ∧
      ∃ form, ReadsTag forms r form ∧ state'.1 = some form) ∨
    (name ≠ key ∧ state'.1 = state.1 ∧
      ∃ j, Json.Reads (readValue room) r j ∧ state'.2 = state.2 ++ [(name, j)])

/-- An object with a tag among its members, or an array that begins with one. -/
def ReadsTagged (key : String) (forms : List (Form σ)) (room : Nat) (r : Raw) (a : σ) : Prop :=
  (∃ inner ms ns form js, room = inner + 1 ∧ r = .object ms ∧ Named ms ns ∧
      Run (TakesTagged key forms inner) (none, []) ns (some form, js) ∧ form.ofObject js = .ok a) ∨
    ∃ inner r' rs form js, room = inner + 1 ∧ r = .array (r' :: rs) ∧ ReadsTag forms r' form ∧
      List.Forall₂ (Json.Reads (readValue inner)) rs js ∧ form.ofArray js = .ok a

/-- A tag is read as the form that it names. -/
theorem recognizes_readTag (forms : List (Form σ)) :
    Recognizes (readTag forms) (ReadsTag forms) := by
  intro r s rest form t hs hrest
  refine (recognizes_readScalar ?_ hs hrest).trans (and_congr_left' ?_)
  · exact .of_error rfl rfl
  constructor
  · rintro ⟨-, got, hgot, haccept⟩
    cases r with
    | null => cases hgot; cases haccept
    | bool b => cases hgot; cases haccept
    | number n =>
      obtain ⟨v, -, rfl⟩ := Option.map_eq_some_iff.1 hgot
      cases v <;> cases haccept
    | string k =>
      obtain ⟨tag, htag, rfl⟩ := Option.map_eq_some_iff.1 hgot
      exact ⟨k, tag, rfl, htag, haccept⟩
    | array rs => cases hgot; cases haccept
    | object ms => cases hgot; cases haccept
  · rintro ⟨k, tag, rfl, htag, hform⟩
    exact ⟨rfl, .string tag, by rw [Raw.found?, htag]; rfl, hform⟩

/-- Members are put aside until the tag has been read, wherever it stands. -/
theorem recognizesMember_tagged (key : String) (forms : List (Form σ)) (room : Nat) :
    RecognizesMember (taggedMember key forms room) (TakesTagged key forms room) := by
  rintro ⟨form, js⟩ name r w s rest ⟨form', js'⟩ t hw hs hrest
  rw [taggedMember.eq_def, TakesTagged]
  simp only
  by_cases hname : name = key
  · rw [if_pos hname]
    cases form with
    | some f => simp [hname]
    | none =>
      simp only [colon_append hw, hname, true_and, ne_eq, not_true_eq_false, false_and, or_false]
      show (readTag forms (s ++ rest) >>= _) = _ ↔ _
      simp only [bind_eq_ok_iff, Prod.exists, recognizes_readTag forms hs hrest, pure, Except.pure,
        Except.ok.injEq, Prod.mk.injEq]
      constructor
      · rintro ⟨f, u, ⟨hf, rfl⟩, ⟨rfl, rfl⟩, rfl⟩
        exact ⟨⟨rfl, f, hf, rfl⟩, rfl⟩
      · rintro ⟨⟨rfl, f, hf, rfl⟩, rfl⟩
        exact ⟨f, t, ⟨hf, rfl⟩, ⟨rfl, rfl⟩, rfl⟩
  · rw [if_neg hname]
    simp only [bind_eq_ok_iff, Prod.exists, anyMember_iff (uniform_readValue room) hw hs hrest,
      pure, Except.pure, Except.ok.injEq, Prod.mk.injEq, hname, false_and, false_or, ne_eq,
      not_false_eq_true, true_and]
    constructor
    · rintro ⟨ms, u, ⟨⟨j, hj, rfl⟩, rfl⟩, ⟨rfl, rfl⟩, rfl⟩
      exact ⟨⟨rfl, j, hj, rfl⟩, rfl⟩
    · rintro ⟨⟨rfl, j, hj, rfl⟩, rfl⟩
      exact ⟨_, t, ⟨⟨j, hj, rfl⟩, rfl⟩, ⟨rfl, rfl⟩, rfl⟩

/-- **A tagged record is read from an object or an array.** The tag says which form the other
members are matched with. -/
theorem recognizes_tagged {type key : String} {forms : List (Form σ)} {write : σ → Json}
    (room : Nat) :
    Recognizes ((tagged type key forms write).read room) (ReadsTagged key forms room) := by
  refine recognizes_start fun r s rest a t hs hrest ↦ ?_
  rcases bare_cases hs with ⟨rs, u, rfl, hu, rfl⟩ | ⟨ms, u, rfl, hu, rfl⟩ | ⟨hr, x, u, rfl, hx, hx'⟩
  · simp only [List.cons_append, List.append_assoc, List.nil_append, bind_eq_ok_iff,
      open?_eq_ok_iff]
    -- The first item of an array is the tag. What follows is put aside and matched by its form.
    cases rs with
    | nil => simp [nextItem?_close hu, ReadsTagged]
    | cons r rs =>
      obtain ⟨w, w', x, v, hw, hw', hx, hv, rfl⟩ := hu
      have hnext := nextItem?_items true hw hw' hx (v ++ ']' :: rest)
      have hfuel : rs.length < (v ++ ']' :: rest).length + 1 := by
        have hlength := hv.length_le
        simp only [List.length_append]
        omega
      have htag {form : Form σ} {y : List Char} :
          readTag forms (x ++ (v ++ ']' :: rest)) = .ok (form, y) ↔
            ReadsTag forms r form ∧ y = v ++ ']' :: rest :=
        recognizes_readTag forms hx.spelled hv.boundary
      simp only [List.append_assoc, hnext, Except.ok.injEq, exists_eq_left', bind_eq_ok_iff,
        Prod.exists, htag, orFault_eq_ok_iff, pure, Except.pure, Prod.mk.injEq]
      constructor
      · rintro ⟨inner, hroom, form, y, ⟨hform, rfl⟩, js, z, hitems, z', hclose, b, hb, rfl, rfl⟩
        obtain ⟨hjs, ht⟩ :=
          (items_iff (uniform_readValue inner) hv hfuel).1 ⟨z, hitems, hclose⟩
        exact ⟨.inr ⟨inner, r, rs, form, js, hroom, rfl, hform, hjs, hb⟩, ht⟩
      · rintro ⟨⟨_, _, _, _, _, _, heq, _⟩ | ⟨inner, r', rs', form, js, hroom, heq, hform, hjs, ha⟩,
          ht⟩
        · cases heq
        · cases heq
          obtain ⟨z, hitems, hclose⟩ :=
            (items_iff (uniform_readValue inner) hv hfuel).2 ⟨hjs, ht⟩
          exact ⟨inner, hroom, form, _, ⟨hform, rfl⟩, js, z, hitems, t, hclose, a, ha, rfl, rfl⟩
  · simp only [List.cons_append, List.append_assoc, List.nil_append, bind_eq_ok_iff,
      open?_eq_ok_iff, Prod.exists]
    -- The members of an object are put aside by `taggedMember`, whose runs say where the tag was.
    constructor
    · rintro ⟨inner, hroom, form, js, v, hread, hform⟩
      obtain ⟨⟨ns, hns, hrun⟩, ht⟩ :=
        (readObject_iff (recognizesMember_tagged key forms inner) hu).1 hread
      cases form with
      | none => cases hform
      | some form =>
        obtain ⟨b, hb, heq⟩ := bind_eq_ok_iff.1 hform
        cases heq
        exact ⟨.inl ⟨inner, ms, ns, form, js, hroom, rfl, hns, hrun, orFault_eq_ok_iff.1 hb⟩, ht⟩
    · rintro ⟨⟨inner, ms', ns, form, js, hroom, heq, hns, hrun, ha⟩ |
        ⟨_, _, _, _, _, _, heq, _⟩, ht⟩
      · cases heq
        exact ⟨inner, hroom, some form, js, t,
          (readObject_iff (recognizesMember_tagged key forms inner) hu).2 ⟨⟨ns, hns, hrun⟩, ht⟩,
          bind_eq_ok_iff.2 ⟨a, orFault_eq_ok_iff.2 ha, rfl⟩⟩
      · cases heq
  · simp [ReadsTagged, hx, hx', ne_array_of_isBracket hr, ne_object_of_isBracket hr]

end Pipework.Codec
