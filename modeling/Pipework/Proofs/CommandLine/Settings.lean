import Mathlib.Data.List.Nodup
import Pipework.CommandLine.Settings
import Pipework.Proofs.Dict
import Pipework.Proofs.Environment.Variables
import Pipework.Proofs.Reports

/-!
# What variables say about settings

Variables are gone through once, and each that has the name of a setting is kept for it. Of the
variables with one name, in capital or small letters, there must not be two. So a setting has its
default if there is no such variable, and what the variable says if there is one (`Setting.Gets`).
For the settings of the command line this is spelled out in `Settings.GivenBy`, and
`ofEnvironment_eq_ok_iff` says that these are the settings that are loaded.
-/

namespace Pipework

namespace Setting

variable {α : Type} {vars : List (String × String)} {v : String × String}

/-- The variables with a name, in capital or small letters. -/
def variablesNamed (name : String) (vars : List (String × String)) : List (String × String) :=
  vars.filter fun v ↦ v.1.toLower == name

/-! ### Slots -/

namespace Slot

variable {s : Slot} {given result : Option (String × String)}

/-- What becomes of a slot, which may have been given a variable, with further variables. It takes
one at most, and only one that it accepts. -/
def Takes (s : Slot) (given : Option (String × String)) (vars : List (String × String))
    (result : Option (String × String)) : Prop :=
  match variablesNamed s.name vars with
  | [] => result = given
  | [v] => given = none ∧ s.check v.1 v.2 = .ok () ∧ result = some v
  | _ => False

/-- A variable with another name does not concern the slot. -/
theorem takes_cons_of_ne (h : v.1.toLower ≠ s.name) :
    s.Takes given (v :: vars) result ↔ s.Takes given vars result := by
  have hnamed : variablesNamed s.name (v :: vars) = variablesNamed s.name vars :=
    List.filter_cons_of_neg (by simpa using h)
  rw [Takes.eq_def, Takes.eq_def, hnamed]

/-- A variable with the name of the slot is checked, and has to be the only one. -/
theorem takes_cons_of_eq (h : v.1.toLower = s.name) :
    s.Takes given (v :: vars) result ↔
      given = none ∧ s.check v.1 v.2 = .ok () ∧ s.Takes (some v) vars result := by
  have hnamed : variablesNamed s.name (v :: vars) = v :: variablesNamed s.name vars :=
    List.filter_cons_of_pos (by simpa using h)
  rw [Takes.eq_def, Takes.eq_def, hnamed]
  cases variablesNamed s.name vars with
  | nil => rfl
  | cons w ws => cases ws <;> simp

end Slot

/-! ### Going through the variables -/

variable {slots : List Slot} {given given' : Dict (String × String)}

/-- A variable with the name of a slot changes what that slot has been given, and no other. -/
theorem takes_insert_iff (hnames : (slots.map Slot.name).Nodup) {s s' : Slot} (hs : s ∈ slots)
    (hs' : s' ∈ slots) (hname : s.name = v.1.toLower) (hgiven : given.get? s.name = none)
    (hcheck : s.check v.1 v.2 = .ok ()) {result : Option (String × String)} :
    s'.Takes ((given.insert s.name v).get? s'.name) vars result ↔
      s'.Takes (given.get? s'.name) (v :: vars) result := by
  rw [Dict.get?_insert]
  by_cases heq : s'.name = s.name
  · obtain rfl := List.inj_on_of_nodup_map hnames hs' hs heq
    rw [if_pos rfl, Slot.takes_cons_of_eq hname.symm]
    exact ⟨fun h ↦ ⟨hgiven, hcheck, h⟩, fun h ↦ h.2.2⟩
  · rw [if_neg heq, Slot.takes_cons_of_ne fun h ↦ heq (h.symm.trans hname.symm)]

/-- **Going through the variables** gives every slot what it takes. -/
theorem takes_of_collect (hnames : (slots.map Slot.name).Nodup)
    (h : collect slots given vars = .ok given') :
    ∀ s ∈ slots, s.Takes (given.get? s.name) vars (given'.get? s.name) := by
  -- What is given so far is generalized, since every variable that is taken adds to it.
  induction vars generalizing given with
  | nil =>
    cases h
    exact fun s _ ↦ rfl
  | cons v vars ih =>
    rw [collect] at h
    cases hfind : slots.find? fun s ↦ s.name == v.1.toLower with
    | none =>
      simp only [hfind] at h
      intro s hs
      have hname := List.find?_eq_none.1 hfind s hs
      exact (Slot.takes_cons_of_ne fun heq ↦ hname (beq_iff_eq.2 heq.symm)).2 (ih h s hs)
    | some s =>
      have hname : s.name = v.1.toLower := by simpa using List.find?_some hfind
      simp only [hfind] at h
      split at h
      · cases h
      next hcontains =>
        split at h
        · cases h
        next hcheck =>
          have hgiven : given.get? s.name = none := by
            simpa [Dict.contains] using hcontains
          exact fun s' hs' ↦ (takes_insert_iff hnames (List.mem_of_find?_eq_some hfind) hs' hname
            hgiven hcheck).1 (ih h s' hs')

/-- It succeeds if every slot can take what there is for it. -/
theorem exists_collect (hnames : (slots.map Slot.name).Nodup)
    (h : ∀ s ∈ slots, ∃ result, s.Takes (given.get? s.name) vars result) :
    ∃ given', collect slots given vars = .ok given' := by
  induction vars generalizing given with
  | nil => exact ⟨given, rfl⟩
  | cons v vars ih =>
    rw [collect]
    cases hfind : slots.find? fun s ↦ s.name == v.1.toLower with
    | none =>
      refine ih fun s hs ↦ ?_
      have hname := List.find?_eq_none.1 hfind s hs
      obtain ⟨result, hresult⟩ := h s hs
      exact ⟨result, (Slot.takes_cons_of_ne fun heq ↦ hname (beq_iff_eq.2 heq.symm)).1 hresult⟩
    | some s =>
      have hs := List.mem_of_find?_eq_some hfind
      have hname : s.name = v.1.toLower := by simpa using List.find?_some hfind
      obtain ⟨_, hresult⟩ := h s hs
      obtain ⟨hgiven, hcheck, -⟩ := (Slot.takes_cons_of_eq hname.symm).1 hresult
      simp only [Dict.contains, hgiven, hcheck, Option.isSome_none, Bool.false_eq_true, if_false]
      refine ih fun s' hs' ↦ (h s' hs').imp fun result hresult ↦ ?_
      exact (takes_insert_iff hnames hs hs' hname hgiven hcheck).2 hresult

/-! ### Settings -/

variable {s : Setting α} {a : α}

/-- The value of a setting: its default without a variable, and what the variable says if there is
exactly one. -/
def Gets (s : Setting α) (vars : List (String × String)) (a : α) : Prop :=
  match variablesNamed s.name vars with
  | [] => s.default = some a
  | [v] => s.read v.1 v.2 = .ok a
  | _ => False

/-- A setting that has been collected is read from the variable that was found, or is the
default. -/
theorem value_eq_ok_iff (h : s.slot.Takes none vars (given.get? s.name)) :
    s.value given = .ok a ↔ s.Gets vars a := by
  have hslot : s.slot.name = s.name := rfl
  rw [Slot.Takes.eq_def, hslot] at h
  rw [value, Gets.eq_def]
  generalize variablesNamed s.name vars = named at h ⊢
  rcases named with - | ⟨v, - | ⟨w, vs⟩⟩
  · simp only at h
    simp only [h]
    cases s.default <;> simp
  · simp only [h.2.2, mapError_eq_ok_iff]
  · cases h

theorem exists_takes_of_gets (h : s.Gets vars a) : ∃ result, s.slot.Takes none vars result := by
  have hslot : s.slot.name = s.name := rfl
  rw [Gets.eq_def] at h
  simp only [Slot.Takes.eq_def, hslot]
  generalize variablesNamed s.name vars = named at h ⊢
  rcases named with - | ⟨v, - | ⟨w, vs⟩⟩
  · exact ⟨none, rfl⟩
  · exact ⟨some v, trivial, map_eq_ok_iff.2 ⟨a, h, rfl⟩, rfl⟩
  · cases h

end Setting

namespace CommandLine.Settings

variable {env : Environment} {s : Settings}

/-- A value that has a default and is spelled in one way: the default is taken if there is no
variable with a name, and the value that it spells if there is exactly one. -/
def Chosen {α : Type} (vars : List (String × String)) (name : String) (default : α)
    (spelling : α → String) (a : α) : Prop :=
  match Setting.variablesNamed name vars with
  | [] => a = default
  | [v] => v.2 = spelling a
  | _ => False

/-- **The settings that variables give.** Documents are indented and fingerprints are logged unless
the variable for it says `false`, the log is shown as its preset says, and it is styled unless there
is a value for `NO_COLOR`. -/
structure GivenBy (s : Settings) (vars : List (String × String)) : Prop where
  logLevel : Chosen vars "weirc_loglevel" .default Log.Preset.name s.logLevel
  pretty : Chosen vars "weirc_pretty" true (fun b ↦ if b then "true" else "false") s.pretty
  fingerprint :
    Chosen vars "weirc_fingerprint" true (fun b ↦ if b then "true" else "false") s.fingerprint
  styled : s.styled = true ↔ ∀ value ∈ vars.lookup "NO_COLOR", value = ""

/-- A setting with a spelling for each value gets the value that is spelled, or the default. -/
theorem gets_iff_chosen {α : Type} (setting : Setting α) (vars : List (String × String))
    {default : α} (spelling : α → String) (a : α) (hdefault : setting.default = some default)
    (hread : ∀ name text, setting.read name text = .ok a ↔ text = spelling a) :
    setting.Gets vars a ↔ Chosen vars setting.name default spelling a := by
  rw [Setting.Gets.eq_def, Chosen.eq_def, hdefault]
  rcases Setting.variablesNamed setting.name vars with - | ⟨v, - | ⟨w, vs⟩⟩
  · simp [eq_comm]
  · exact hread v.1 v.2
  · rfl

/-- A setting that is on or off is spelled out in small letters. -/
theorem read_bool_eq_ok_iff {name variableName text : String} {default : Option Bool} {b : Bool} :
    (Setting.bool name default).read variableName text = .ok b ↔
      text = if b then "true" else "false" := by
  rw [Setting.bool]
  by_cases htrue : text = "true"
  · cases b <;> simp [htrue]
  · by_cases hfalse : text = "false" <;> cases b <;> simp [htrue, hfalse]

theorem read_preset_eq_ok_iff {name variableName text : String} {default : Option Log.Preset}
    {p : Log.Preset} :
    (Setting.preset name default).read variableName text = .ok p ↔ text = p.name := by
  have hfind (q : Log.Preset) : Codec.Variant.find
      ([.default, .verbose, .develop, .trace].map fun a ↦ .named a.name a) q.name =
        .ok (.named q.name q) := by
    cases q <;> rfl
  rw [Setting.preset, mapError_eq_ok_iff, Codec.preset, Codec.names, Codec.choice]
  constructor
  · intro h
    obtain ⟨v, hv, hbare⟩ := bind_eq_ok_iff.1 h
    rw [Codec.Variant.find] at hv
    split at hv
    next w hw =>
      cases hv
      obtain ⟨q, -, rfl⟩ := List.mem_map.1 (List.mem_of_find?_eq_some hw)
      cases hbare
      have hname := List.find?_some hw
      exact (beq_iff_eq.1 hname).symm
    next => cases hv
  · rintro rfl
    exact bind_eq_ok_iff.2 ⟨_, hfind p, rfl⟩

/-- The variable that tells whether the log is styled. -/
def noColor : Environment.VariableName :=
  ⟨'N', "O_COLOR".toList, rfl, List.all_eq_true.1 rfl⟩

/-- **Colours are wanted** unless the variable is set to something. -/
theorem wantsStyle_iff :
    wantsStyle env = true ↔ ∀ value ∈ env.bindings.lookup "NO_COLOR", value = "" := by
  have hafter : env.after? "NO_COLOR".toList = (env.bindings.lookup "NO_COLOR").map String.toList :=
    Environment.after?_eq_lookup env noColor
  rw [wantsStyle, hafter]
  cases env.bindings.lookup "NO_COLOR" <;> simp

/-- **The settings that are loaded are those that the variables give.** -/
theorem ofEnvironment_eq_ok_iff : ofEnvironment env = .ok s ↔ s.GivenBy env.bindings := by
  have hlevel (p : Log.Preset) := gets_iff_chosen logLevelSetting env.bindings Log.Preset.name p rfl
    fun _ _ ↦ read_preset_eq_ok_iff
  have hpretty (b : Bool) := gets_iff_chosen prettySetting env.bindings
    (fun b ↦ if b then "true" else "false") b rfl fun _ _ ↦ read_bool_eq_ok_iff
  have hfingerprint (b : Bool) := gets_iff_chosen fingerprintSetting env.bindings
    (fun b ↦ if b then "true" else "false") b rfl fun _ _ ↦ read_bool_eq_ok_iff
  have hnames : ([logLevelSetting.slot, prettySetting.slot, fingerprintSetting.slot].map
      Setting.Slot.name).Nodup := by decide
  simp only [ofEnvironment, bind_eq_ok_iff]
  constructor
  · rintro ⟨given, hgiven, level, hl, pretty, hp, fingerprint, hf, heq⟩
    cases heq
    have htakes := Setting.takes_of_collect hnames hgiven
    exact ⟨(hlevel _).1 ((Setting.value_eq_ok_iff (htakes _ (by simp))).1 hl),
      (hpretty _).1 ((Setting.value_eq_ok_iff (htakes _ (by simp))).1 hp),
      (hfingerprint _).1 ((Setting.value_eq_ok_iff (htakes _ (by simp))).1 hf), wantsStyle_iff⟩
  · rintro ⟨hl, hp, hf, hs⟩
    -- That all three can be had means that collecting finds nothing wrong with any variable.
    obtain ⟨given, hgiven⟩ : ∃ given, Setting.collect
        [logLevelSetting.slot, prettySetting.slot, fingerprintSetting.slot] .empty env.bindings =
          .ok given := by
      refine Setting.exists_collect hnames fun slot hslot ↦ ?_
      simp only [List.mem_cons, List.not_mem_nil, or_false] at hslot
      rcases hslot with rfl | rfl | rfl
      · exact Setting.exists_takes_of_gets ((hlevel _).2 hl)
      · exact Setting.exists_takes_of_gets ((hpretty _).2 hp)
      · exact Setting.exists_takes_of_gets ((hfingerprint _).2 hf)
    have htakes := Setting.takes_of_collect hnames hgiven
    refine ⟨given, hgiven, s.logLevel,
      (Setting.value_eq_ok_iff (htakes _ (by simp))).2 ((hlevel _).2 hl), s.pretty,
      (Setting.value_eq_ok_iff (htakes _ (by simp))).2 ((hpretty _).2 hp), s.fingerprint,
      (Setting.value_eq_ok_iff (htakes _ (by simp))).2 ((hfingerprint _).2 hf), ?_⟩
    rw [Bool.eq_iff_iff.2 (wantsStyle_iff.trans hs.symm)]
    rfl

end CommandLine.Settings
end Pipework
