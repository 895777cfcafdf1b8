import Mathlib.Data.List.Induction
import Mathlib.Data.List.Nodup
import UnitPipeline.Json.Forms
import UnitPipeline.Proofs.Json.Members

namespace UnitPipeline.Json

inductive Given
  | trackDependencies (on : Bool)
  | freshNameGuard (on : Bool)
  | stackDumpDepth (depth : UInt64)
  deriving DecidableEq

def settingFields : Fields :=
  .cons "track_dependencies" .flag
    (.cons "fresh_name_guard" .flag (.cons "stack_dump_depth" (.word .word64) .nil))

namespace Given

def name : Given → String
  | trackDependencies _ => "track_dependencies"
  | freshNameGuard _ => "fresh_name_guard"
  | stackDumpDepth _ => "stack_dump_depth"

def of? (name : String) (value : Written) : Option Given :=
  if name = "track_dependencies" then value.flag?.map trackDependencies
  else if name = "fresh_name_guard" then value.flag?.map freshNameGuard
  else if name = "stack_dump_depth" then value.word?.map stackDumpDepth
  else none

def ofMember? (e : Option String × Written) : Option Given := e.1.bind fun name => of? name e.2

theorem name_of_member {e : Option String × Written} {given : Given}
    (gives : ofMember? e = some given) : e.1 = some given.name := by
  obtain ⟨name, key, gives⟩ := Option.bind_eq_some_iff.mp gives
  rw [key]
  rw [of?] at gives
  split at gives
  · rename_i same
    obtain ⟨on, _, rfl⟩ := Option.map_eq_some_iff.mp gives
    exact congrArg some same
  · split at gives
    · rename_i same
      obtain ⟨on, _, rfl⟩ := Option.map_eq_some_iff.mp gives
      exact congrArg some same
    · split at gives
      · rename_i same
        obtain ⟨depth, _, rfl⟩ := Option.map_eq_some_iff.mp gives
        exact congrArg some same
      · cases gives

theorem name_known (given : Given) : given.name ∈ settingFields.names := by
  cases given <;> simp [name, settingFields, Fields.names]

def replace (settings : Settings) : Given → Settings
  | trackDependencies on => { settings with trackDependencies := on }
  | freshNameGuard on => { settings with freshNameGuard := on }
  | stackDumpDepth depth => { settings with stackDumpDepth := depth }

def held (slots : settingFields.Slots) : Given → Bool
  | trackDependencies _ => slots.1.isSome
  | freshNameGuard _ => slots.2.1.isSome
  | stackDumpDepth _ => slots.2.2.1.isSome

def place (slots : settingFields.Slots) : Given → settingFields.Slots
  | trackDependencies on => (some on, slots.2)
  | freshNameGuard on => (slots.1, some on, slots.2.2)
  | stackDumpDepth depth => (slots.1, slots.2.1, some depth, slots.2.2.2)

def take (slots : settingFields.Slots) (given : Given) : Option settingFields.Slots :=
  if given.held slots then none else some (given.place slots)

end Given

theorem readMember_settings (key : String) (value : Written) (slots : settingFields.Slots)
    (behind lead : Gap) (rest : List Char) (ends : EndsNumber rest) :
    (settingFields.readMember (some settingFields.names) key slots
        (behind.text ++ ':' :: (lead.text ++ (value.text ++ rest)))).toOption =
      ((Given.of? key value).bind (Given.take slots)).map fun more => (more, rest) := by
  obtain ⟨track, guard, depth, ⟨⟩⟩ := slots
  have flag : (Shape.flag.read (lead.text ++ (value.text ++ rest))).toOption =
      value.flag?.map fun on => (on, rest) :=
    (congrArg Except.toOption (readFlag_gap lead _)).trans (readFlag_written value rest)
  have word : ((Shape.word .word64).read (lead.text ++ (value.text ++ rest))).toOption =
      value.word?.map fun word => (word, rest) :=
    (congrArg Except.toOption (readWidth_gap .word64 lead _)).trans (readWidth_written value ends)
  rw [Given.of?]
  split
  · rename_i same
    subst same
    refine (readMember_here flag _).trans ?_
    cases track <;> cases value.flag? <;> rfl
  · rename_i other
    refine (readMember_there other _).trans ?_
    split
    · rename_i same
      subst same
      rw [readMember_here flag]
      cases guard <;> cases value.flag? <;> rfl
    · rename_i other
      rw [readMember_there other]
      split
      · rename_i same
        subst same
        rw [readMember_here word]
        cases depth <;> cases value.word? <;> rfl
      · rename_i other
        rw [readMember_there other]
        rfl

def slotsOf (givens : List Given) : settingFields.Slots :=
  givens.foldl Given.place settingFields.unread

theorem slotsOf_concat (givens : List Given) (given : Given) :
    slotsOf (givens ++ [given]) = given.place (slotsOf givens) := by
  rw [slotsOf, List.foldl_append]
  rfl

theorem held_place (given other : Given) (slots : settingFields.Slots) :
    given.held (other.place slots) = (given.held slots || other.name == given.name) := by
  cases given <;> cases other <;> simp [Given.held, Given.place, Given.name] <;> rfl

theorem held_slotsOf (given : Given) (givens : List Given) :
    given.held (slotsOf givens) = true ↔ given.name ∈ givens.map Given.name := by
  induction givens using List.reverseRecOn with
  | nil =>
    refine iff_of_false ?_ List.not_mem_nil
    cases given <;> exact Bool.false_ne_true
  | append_singleton givens other ih =>
    rw [slotsOf_concat, held_place, Bool.or_eq_true, ih, beq_iff_eq, List.map_append,
      List.mem_append, List.map_singleton, List.mem_singleton, eq_comm (a := other.name)]

theorem names_concat (givens : List Given) (given : Given) :
    ((givens ++ [given]).map Given.name).Nodup ↔
      given.name ∉ givens.map Given.name ∧ (givens.map Given.name).Nodup := by
  rw [List.map_append, List.map_singleton, ← List.concat_eq_append, List.nodup_concat]

theorem take_slotsOf (given : Given) (givens : List Given) (last : settingFields.Slots) :
    given.take (slotsOf givens) = some last ↔
      given.name ∉ givens.map Given.name ∧ slotsOf (givens ++ [given]) = last := by
  rw [Given.take, ← held_slotsOf, slotsOf_concat]
  split
  · rename_i held
    exact ⟨nofun, fun both => absurd held both.1⟩
  · rename_i free
    exact ⟨fun same => ⟨free, Option.some.inj same⟩, fun both => congrArg some both.2⟩

-- Members are taken up to the end just if each gives a setting, and none twice.
theorem taken_iff (members : List (Option String × Written)) (last : settingFields.Slots) :
    members.foldlM (fun slots e => (Given.ofMember? e).bind (Given.take slots))
        settingFields.unread = some last ↔
      ∃ givens, members.map Given.ofMember? = givens.map some ∧
        (givens.map Given.name).Nodup ∧ slotsOf givens = last := by
  induction members using List.reverseRecOn generalizing last with
  | nil =>
    constructor
    · rintro ⟨⟩
      exact ⟨[], rfl, .nil, rfl⟩
    · rintro ⟨givens, none, _, rfl⟩
      obtain rfl := List.map_eq_nil_iff.mp none.symm
      rfl
  | append_singleton members e ih =>
    simp only [List.foldlM_append, List.foldlM_cons, List.foldlM_nil, bind_pure, List.map_append,
      List.map_singleton]
    constructor
    · intro found
      obtain ⟨slots, taken, one⟩ := Option.bind_eq_some_iff.mp found
      obtain ⟨givens, all, distinct, rfl⟩ := (ih slots).mp taken
      obtain ⟨given, given?, taken⟩ := Option.bind_eq_some_iff.mp one
      obtain ⟨new, slots⟩ := (take_slotsOf given givens last).mp taken
      refine ⟨givens ++ [given], ?_, (names_concat givens given).mpr ⟨new, distinct⟩, slots⟩
      rw [all, given?, List.map_append]
      rfl
    · rintro ⟨givens, all, distinct, slots⟩
      obtain ⟨front, back, rfl, first, second⟩ := List.map_eq_append_iff.mp all.symm
      obtain ⟨given, rfl, given?⟩ := List.map_eq_singleton_iff.mp second
      obtain ⟨new, distinct⟩ := (names_concat front given).mp distinct
      have taken := (ih (slotsOf front)).mpr ⟨front, first.symm, distinct, rfl⟩
      have one := (take_slotsOf given front last).mpr ⟨new, slots⟩
      rw [taken, ← given?]
      exact one

def settingsOf (slots : settingFields.Slots) : Settings := Form.ofValue (α := Settings) slots

theorem settingsOf_slotsOf (givens : List Given) :
    settingsOf (slotsOf givens) = givens.foldl Given.replace {} := by
  refine (List.foldl_hom settingsOf fun slots given => ?_).symm
  cases given <;> rfl

theorem ofJson_written (o : ObjectText) : (Settings.ofJson o.text).toOption =
    (o.entries.foldlM (fun slots e => (Given.ofMember? e).bind (Given.take slots))
      settingFields.unread).map settingsOf := by
  have text : o.text.toList = o.before.text ++
      '\x7b' :: (o.lead.text ++ (o.members.text true ++ '\x7d' :: o.after.text)) := by
    rw [ObjectText.text, String.toList_ofList, Written.text, braced]
    simp only [List.cons_append, List.append_assoc, List.nil_append]
  have enough : o.members.entries.length <
      (o.lead.text ++ (o.members.text true ++ '\x7d' :: o.after.text)).length + 1 := by
    have shorter := o.members.entries_length true
    rw [List.length_append, List.length_append]
    omega
  have members := readMembers_written readMember_settings true o.lead settingFields.unread
    o.after.text o.members enough
  have whole : ((Form.shape Settings).readWhole o.text.toList).toOption = _ :=
    readWhole_written (text ▸ readOverlay_written members "struct Settings" o.before)
  have taken : takeUp (fun name value slots => (Given.of? name value).bind (Given.take slots)) =
      fun slots e => (Given.ofMember? e).bind (Given.take slots) :=
    funext fun slots => funext fun e => (Option.bind_assoc ..).symm
  rw [Settings.ofJson, decode, toOption_map, whole, taken]
  rfl

theorem ofJson_iff (o : ObjectText) (settings : Settings) :
    Settings.ofJson o.text = .ok settings ↔
      ∃ givens : List Given, o.entries.map Given.ofMember? = givens.map some ∧
        (givens.map Given.name).Nodup ∧ givens.foldl Given.replace {} = settings := by
  rw [← toOption_some, ofJson_written, Option.map_eq_some_iff]
  constructor
  · rintro ⟨slots, taken, rfl⟩
    obtain ⟨givens, all, distinct, rfl⟩ := (taken_iff _ _).mp taken
    exact ⟨givens, all, distinct, (settingsOf_slotsOf givens).symm⟩
  · rintro ⟨givens, all, distinct, rfl⟩
    exact ⟨_, (taken_iff _ _).mpr ⟨givens, all, distinct, rfl⟩, settingsOf_slotsOf givens⟩

section
variable {members : List (Option String × Written)} {givens : List Given}

theorem each_gives (all : members.map Given.ofMember? = givens.map some)
    {e : Option String × Written} (inside : e ∈ members) :
    ∃ given, Given.ofMember? e = some given := by
  obtain ⟨given, _, gives⟩ := List.mem_map.mp (all ▸ List.mem_map_of_mem inside)
  exact ⟨given, gives.symm⟩

theorem keys_of_givens (all : members.map Given.ofMember? = givens.map some) :
    members.map (·.1) = (givens.map Given.name).map some := by
  have each : ∀ e ∈ members, e.1 = (Given.ofMember? e).map Given.name := by
    intro e inside
    obtain ⟨given, gives⟩ := each_gives all inside
    rw [gives]
    exact Given.name_of_member gives
  have names := congrArg (List.map (Option.map Given.name)) all
  rw [List.map_map, List.map_map] at names
  rw [List.map_congr_left each, List.map_map]
  exact names

end

end UnitPipeline.Json

namespace UnitPipeline
open Json

-- For every text that is an object, however its members are ordered and written. What is
-- refused is an error of the text, whatever else is in it.
theorem settings_overlay (o : ObjectText) :
    (∀ settings, Settings.ofJson o.text = .ok settings ↔
      ∃ givens : List Given, o.entries.map Given.ofMember? = givens.map some ∧
        (givens.map Given.name).Nodup ∧ givens.foldl Given.replace {} = settings) ∧
      (∀ settings, Settings.ofJson o.text = .ok settings →
        (Session.ofSettings settings).settings = settings) ∧
      ((∃ e ∈ o.entries, ∀ name ∈ e.1, name ∉ settingFields.names) ∨
          (∃ name ∈ settingFields.names, 2 ≤ (o.entries.map (·.1)).count (some name)) ∨
          (∃ e ∈ o.entries, ∃ name ∈ settingFields.names,
            e.1 = some name ∧ Given.of? name e.2 = none) →
        ∃ cause, Settings.ofJson o.text = .error cause) := by
  refine ⟨ofJson_iff o, fun settings _ => Session.settings_ofSettings settings, fun broken => ?_⟩
  cases found : Settings.ofJson o.text with
  | error cause => exact ⟨cause, rfl⟩
  | ok settings =>
    obtain ⟨givens, all, distinct, _⟩ := (ofJson_iff o settings).mp found
    rcases broken with ⟨e, inside, unknown⟩ | ⟨name, _, twice⟩ | ⟨e, inside, name, _, key, none⟩
    · obtain ⟨given, gives⟩ := each_gives all inside
      exact absurd given.name_known (unknown _ (Given.name_of_member gives))
    · rw [keys_of_givens all] at twice
      have apart : ((givens.map Given.name).map some).Nodup :=
        distinct.map fun _ _ => Option.some.inj
      have once := List.nodup_iff_count_le_one.mp apart (some name)
      omega
    · obtain ⟨given, gives⟩ := each_gives all inside
      rw [Given.ofMember?, key, Option.bind_some, none] at gives
      cases gives

def plainKey (name : String) : List Piece :=
  name.toList.filterMap fun c =>
    if shown : standsAlone c = true then some (.plain c shown) else none

def spacedSettings : ObjectText where
  before := [.line]
  lead := []
  members :=
    .next [.space]
      (plainKey "stack" ++ .number ⟨⟨0, false⟩, ⟨0, false⟩, ⟨5, false⟩, ⟨15, true⟩⟩ ::
        plainKey "dump_depth") [] [.tab] (.number ⟨false, 3, none, none⟩) []
      (.next [.space] (plainKey "track_dependencies") [.space] [] (.flag true) [] .none)
  after := [.space]

def repeatedSetting : ObjectText where
  before := []
  lead := []
  members :=
    .next [] (plainKey "track_dependencies") [] [] (.flag true) []
      (.next [] (.number ⟨⟨0, false⟩, ⟨0, false⟩, ⟨7, false⟩, ⟨4, false⟩⟩ ::
        plainKey "rack_dependencies") [] [] (.list [] .none) [] .none)
  after := []

theorem spacedSettings_overlay :
    spacedSettings.text =
        "\n\x7b \"stack\\u005Fdump_depth\":\t3, \"track_dependencies\" :true\x7d " ∧
      Settings.ofJson spacedSettings.text = .ok { trackDependencies := true, stackDumpDepth := 3 } ∧
      repeatedSetting.text =
        "\x7b\"track_dependencies\":true,\"\\u0074rack_dependencies\":[]\x7d" ∧
      ∃ cause, Settings.ofJson repeatedSetting.text = .error cause := by
  refine ⟨by decide +kernel, ?_, by decide +kernel, ?_⟩
  · refine ((settings_overlay spacedSettings).1 _).mpr ?_
    exact ⟨[.stackDumpDepth 3, .trackDependencies true], by decide +kernel, by decide +kernel, rfl⟩
  · refine (settings_overlay repeatedSetting).2.2 (.inr (.inl ?_))
    exact ⟨"track_dependencies", by decide +kernel, by decide +kernel⟩

end UnitPipeline
