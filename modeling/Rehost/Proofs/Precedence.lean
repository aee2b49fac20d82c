import Rehost.Proofs.Numeral
import Rehost.Settings

/-!
# Precedence of settings

Arguments are a sequence of items, each a request for help or the name of a setting with a numeral (`Item`); the number
of a setting is that of the last item for it, else that of its variable, else its default (`Chosen`). Loading gives
these settings if every variable that is set to text is a numeral, the arguments are such a sequence, and neither the
units nor the interval are zero (`Accepted`). Otherwise it reports the first of what is wrong (`Refused`), whether help
is requested or not (`load_help`). A variable that is set to what is no text is not reported: it counts as not set
(`load_congr`).
-/

namespace Rehost

open Text (IsNumeral Obstructs)

namespace Settings

/-! ### Single settings -/

/-- The number of a setting. -/
def get (settings : Settings) : Setting → Nat
  | .seconds => settings.seconds
  | .units => settings.units
  | .reportMillis => settings.reportMillis

theorem get_set_self (settings : Settings) (setting : Setting) (number : Nat) :
    (settings.set setting number).get setting = number := by
  cases setting <;> rfl

theorem get_set_of_ne (settings : Settings) {setting other : Setting} (apart : other ≠ setting) (number : Nat) :
    (settings.set setting number).get other = settings.get other := by
  cases setting <;> cases other <;> first | rfl | exact absurd rfl apart

theorem help_set (settings : Settings) (setting : Setting) (number : Nat) :
    (settings.set setting number).help = settings.help := by
  cases setting <;> rfl

theorem ext_get {one two : Settings} (numbers : ∀ setting, one.get setting = two.get setting)
    (help : one.help = two.help) : one = two := by
  obtain ⟨seconds, units, reportMillis, wanted⟩ := one
  obtain ⟨seconds', units', reportMillis', wanted'⟩ := two
  obtain rfl : seconds = seconds' := numbers .seconds
  obtain rfl : units = units' := numbers .units
  obtain rfl : reportMillis = reportMillis' := numbers .reportMillis
  obtain rfl : wanted = wanted' := help
  rfl

/-! ### What is accepted and what is refused -/

/-- One part of the arguments: a request for help, or a setting with a numeral for its number. -/
inductive Item where
  | help (long : Bool)
  | value (setting : Setting) (text : String) (number : Nat) (numeral : IsNumeral text number)

namespace Item

def words : Item → List String
  | help long => [if long then "--help" else "-h"]
  | value setting text _ _ => [setting.argument, text]

/-- Whether an item is for a setting. -/
def Sets (setting : Setting) : Item → Prop
  | help _ => False
  | value other _ _ _ => other = setting

def apply (settings : Settings) : Item → Settings
  | help _ => { settings with help := true }
  | value setting _ number _ => settings.set setting number

end Item

/-- Whether the variable of a setting is a numeral, if it is set. -/
def Readable (environment : Environment) (setting : Setting) : Prop :=
  ∀ text, (environment setting.variableName).text? = some text → ∃ number, IsNumeral text number

/-- The number of a setting: that of the last item for it, else that of its variable, else its default. -/
inductive Chosen (environment : Environment) (items : List Item) (setting : Setting) : Nat → Prop where
  | fromArgument {before after : List Item} {text : String} {number : Nat} {numeral : IsNumeral text number}
      (split : items = before ++ .value setting text number numeral :: after)
      (last : ∀ item ∈ after, ¬ item.Sets setting) : Chosen environment items setting number
  | fromVariable {text : String} {number : Nat} (absent : ∀ item ∈ items, ¬ item.Sets setting)
      (given : (environment setting.variableName).text? = some text) (numeral : IsNumeral text number) :
      Chosen environment items setting number
  | byDefault (absent : ∀ item ∈ items, ¬ item.Sets setting) (unset : (environment setting.variableName).text? = none) :
      Chosen environment items setting (({} : Settings).get setting)

/-- Whether these are the settings for an environment and arguments. -/
structure Accepted (environment : Environment) (arguments : List String) (settings : Settings) : Prop where
  readable : ∀ setting, Readable environment setting
  items : ∃ items : List Item, arguments = items.flatMap Item.words ∧
    (∀ setting, Chosen environment items setting (settings.get setting)) ∧
    (settings.help = true ↔ ∃ long, .help long ∈ items)
  units : settings.units ≠ 0
  interval : settings.reportMillis ≠ 0

/-- Whether arguments begin with one that cannot be read. -/
def Offends (arguments : List String) : SettingsError → Prop
  | .unknownArgument argument =>
    argument ≠ "-h" ∧ argument ≠ "--help" ∧ (∀ setting : Setting, argument ≠ setting.argument) ∧
      ∃ rest, arguments = argument :: rest
  | .missingValue setting => arguments = [setting.argument]
  | .invalidValue setting text =>
    (∀ number, ¬ IsNumeral text number) ∧ ∃ rest, arguments = setting.argument :: text :: rest
  | _ => False

/-- Whether this is the first that is wrong with an environment and arguments: a variable, in a fixed order; the
leftmost argument that cannot be read; no units; no interval. -/
def Refused (environment : Environment) (arguments : List String) : SettingsError → Prop
  | .invalidVariable error =>
    ∃ before setting after text, [Setting.seconds, .units, .reportMillis] = before ++ setting :: after ∧
      (∀ earlier ∈ before, Readable environment earlier) ∧ (environment setting.variableName).text? = some text ∧
      Obstructs text error
  | .noUnits =>
    (∀ setting, Readable environment setting) ∧
      ∃ items : List Item, arguments = items.flatMap Item.words ∧ Chosen environment items .units 0
  | .noInterval =>
    (∀ setting, Readable environment setting) ∧
      ∃ (items : List Item) (units : Nat), arguments = items.flatMap Item.words ∧
        Chosen environment items .units units ∧ units ≠ 0 ∧ Chosen environment items .reportMillis 0
  | error =>
    (∀ setting, Readable environment setting) ∧
      ∃ (items : List Item) (rest : List String), arguments = items.flatMap Item.words ++ rest ∧ Offends rest error

/-! ### Arguments -/

theorem ofArgument?_argument (setting : Setting) : Setting.ofArgument? setting.argument = some setting := by
  cases setting <;> decide

theorem argument_ne_help (setting : Setting) : ¬ (setting.argument = "-h" ∨ setting.argument = "--help") := by
  cases setting <;> decide

theorem readArguments_item (item : Item) (rest : List String) (settings : Settings) :
    readArguments (item.words ++ rest) settings = readArguments rest (item.apply settings) := by
  cases item with
  | help long => cases long <;> simp [Item.words, Item.apply, readArguments]
  | value setting text number numeral =>
    simp only [Item.words, List.cons_append, List.nil_append]
    rw [readArguments, if_neg (argument_ne_help setting), ofArgument?_argument]
    simp only [Text.readNumber_of_isNumeral numeral]
    rfl

/-- Items are read one after the other. -/
theorem readArguments_items (items : List Item) (rest : List String) (settings : Settings) :
    readArguments (items.flatMap Item.words ++ rest) settings =
      readArguments rest (items.foldl Item.apply settings) := by
  induction items generalizing settings with
  | nil => rfl
  | cons item items later =>
    rw [List.flatMap_cons, List.append_assoc, readArguments_item, later]
    rfl

theorem readArguments_of_offends {rest : List String} {error : SettingsError} (offends : Offends rest error)
    (settings : Settings) : readArguments rest settings = .error error := by
  cases error with
  | unknownArgument argument =>
    obtain ⟨short, long, other, rest, rfl⟩ := offends
    have unknown : Setting.ofArgument? argument = none := by
      simp only [Setting.ofArgument?, List.find?_eq_none, decide_eq_true_eq]
      intro setting member same
      exact other setting same.symm
    rw [readArguments, if_neg (not_or.mpr ⟨short, long⟩), unknown]
  | missingValue setting =>
    obtain rfl : rest = [setting.argument] := offends
    rw [readArguments, if_neg (argument_ne_help setting), ofArgument?_argument]
  | invalidValue setting text =>
    obtain ⟨unread, rest, rfl⟩ := offends
    rw [readArguments, if_neg (argument_ne_help setting), ofArgument?_argument]
    cases read : Text.readNumber text with
    | ok number => exact absurd (Text.readNumber_eq_ok_iff.mp read) (unread number)
    | error cause => simp only [read]
  | invalidVariable cause => exact offends.elim
  | noUnits => exact offends.elim
  | noInterval => exact offends.elim

/-- Whether arguments are items, up to the first that cannot be read. -/
def Parted (arguments : List String) : Prop :=
  ∃ (items : List Item) (rest : List String), arguments = items.flatMap Item.words ++ rest ∧
    (rest = [] ∨ ∃ error, Offends rest error)

theorem Parted.item_append {rest : List String} (parted : Parted rest) (item : Item) : Parted (item.words ++ rest) := by
  obtain ⟨items, more, rfl, verdict⟩ := parted
  exact ⟨item :: items, more, by simp, verdict⟩

theorem Parted.help {rest : List String} (parted : Parted rest) {argument : String}
    (asked : argument = "-h" ∨ argument = "--help") : Parted (argument :: rest) := by
  obtain rfl | rfl := asked
  · exact parted.item_append (.help false)
  · exact parted.item_append (.help true)

theorem parted_unknown {argument : String} (noHelp : ¬ (argument = "-h" ∨ argument = "--help"))
    (other : ¬ ∃ setting : Setting, argument = setting.argument) (rest : List String) : Parted (argument :: rest) := by
  refine ⟨[], argument :: rest, rfl, .inr ⟨.unknownArgument argument, ?_, ?_, ?_, rest, rfl⟩⟩
  · exact fun same => noHelp (.inl same)
  · exact fun same => noHelp (.inr same)
  · exact fun setting same => other ⟨setting, same⟩

theorem parted (arguments : List String) : Parted arguments := by
  -- An item takes one argument or two, so two shorter lists are needed.
  induction arguments using List.twoStepInduction with
  | nil => exact ⟨[], [], rfl, .inl rfl⟩
  | singleton argument =>
    by_cases asked : argument = "-h" ∨ argument = "--help"
    · have nothing : Parted [] := ⟨[], [], rfl, .inl rfl⟩
      exact nothing.help asked
    · by_cases named : ∃ setting : Setting, argument = setting.argument
      · obtain ⟨setting, rfl⟩ := named
        exact ⟨[], [setting.argument], rfl, .inr ⟨.missingValue setting, rfl⟩⟩
      · exact parted_unknown asked named []
  | cons_cons argument value rest shorter oneShorter =>
    by_cases asked : argument = "-h" ∨ argument = "--help"
    · exact (oneShorter value).help asked
    · by_cases named : ∃ setting : Setting, argument = setting.argument
      · obtain ⟨setting, rfl⟩ := named
        by_cases read : ∃ number, IsNumeral value number
        · obtain ⟨number, numeral⟩ := read
          exact shorter.item_append (.value setting value number numeral)
        · refine ⟨[], setting.argument :: value :: rest, rfl, .inr ⟨.invalidValue setting value, ?_, rest, rfl⟩⟩
          exact fun number numeral => read ⟨number, numeral⟩
      · exact parted_unknown asked named (value :: rest)

/-! ### Variables -/

section
variable {environment : Environment}

theorem exists_readVariables {pending : List Setting} (readable : ∀ setting ∈ pending, Readable environment setting)
    (settings : Settings) : ∃ found, readVariables environment pending settings = .ok found := by
  induction pending generalizing settings with
  | nil => exact ⟨settings, rfl⟩
  | cons setting pending later =>
    have others : ∀ setting ∈ pending, Readable environment setting := by
      intro other member
      exact readable other (List.mem_cons_of_mem _ member)
    cases given : (environment setting.variableName).text? with
    | none =>
      simp only [readVariables, given]
      exact later others settings
    | some text =>
      obtain ⟨number, numeral⟩ := readable setting (List.mem_cons_self ..) text given
      simp only [readVariables, given, Text.readNumber_of_isNumeral numeral]
      exact later others _

/-- Reading variables gives their numbers to the settings that have one, and changes nothing else. -/
theorem get_of_readVariables {pending : List Setting} {settings found : Settings}
    (read : readVariables environment pending settings = .ok found) (setting : Setting) :
    ((environment setting.variableName).text? = none → found.get setting = settings.get setting) ∧
    (∀ text number, (environment setting.variableName).text? = some text → IsNumeral text number →
      setting ∈ pending ∨ settings.get setting = number → found.get setting = number) ∧
    found.help = settings.help := by
  induction pending generalizing settings with
  | nil =>
    cases read
    refine ⟨fun _ => rfl, ?_, rfl⟩
    rintro text number given numeral (member | same)
    · cases member
    · exact same
  | cons first pending later =>
    cases given : (environment first.variableName).text? with
    | none =>
      simp only [readVariables, given] at read
      obtain ⟨unset, set, help⟩ := later read
      refine ⟨unset, ?_, help⟩
      rintro text number found numeral (member | same)
      · obtain rfl | member := List.mem_cons.mp member
        · rw [given] at found
          cases found
        · exact set text number found numeral (.inl member)
      · exact set text number found numeral (.inr same)
    | some text =>
      simp only [readVariables, given] at read
      split at read
      next value number =>
        obtain ⟨unset, set, help⟩ := later read
        refine ⟨fun absent => ?_, ?_, help.trans (help_set ..)⟩
        · have apart : setting ≠ first := by
            rintro rfl
            rw [given] at absent
            cases absent
          rw [unset absent, get_set_of_ne _ apart]
        · intro other wanted found numeral known
          refine set other wanted found numeral ?_
          by_cases same : setting = first
          · subst same
            rw [given] at found
            cases found
            rw [Text.readNumber_of_isNumeral numeral] at number
            cases number
            exact .inr (get_set_self ..)
          · rw [get_set_of_ne _ same]
            obtain member | same' := known
            · exact .inl ((List.mem_cons.mp member).resolve_left same)
            · exact .inr same'
      next => cases read

theorem readVariables_of_obstructs {before after : List Setting} {setting : Setting} {text : String}
    {error : Text.NumberError} (readable : ∀ earlier ∈ before, Readable environment earlier)
    (given : (environment setting.variableName).text? = some text) (obstructs : Obstructs text error)
    (settings : Settings) :
    readVariables environment (before ++ setting :: after) settings = .error (.invalidVariable error) := by
  induction before generalizing settings with
  | nil => simp only [List.nil_append, readVariables, given, Text.readNumber_of_obstructs obstructs]
  | cons first before later =>
    have others : ∀ earlier ∈ before, Readable environment earlier := by
      intro earlier member
      exact readable earlier (List.mem_cons_of_mem _ member)
    cases found : (environment first.variableName).text? with
    | none =>
      simp only [List.cons_append, readVariables, found]
      exact later others settings
    | some value =>
      obtain ⟨number, numeral⟩ := readable first (List.mem_cons_self ..) value found
      simp only [List.cons_append, readVariables, found, Text.readNumber_of_isNumeral numeral]
      exact later others _

theorem readable_or_obstructs (environment : Environment) (pending : List Setting) :
    (∀ setting ∈ pending, Readable environment setting) ∨
      ∃ before setting after text error, pending = before ++ setting :: after ∧
        (∀ earlier ∈ before, Readable environment earlier) ∧ (environment setting.variableName).text? = some text ∧
        Obstructs text error := by
  induction pending with
  | nil => exact .inl (by simp)
  | cons first pending later =>
    by_cases readable : Readable environment first
    · obtain others | ⟨before, setting, after, text, error, rfl, earlier, given, obstructs⟩ := later
      · exact .inl (by simpa using ⟨readable, others⟩)
      · refine .inr ⟨first :: before, setting, after, text, error, rfl, ?_, given, obstructs⟩
        simpa using ⟨readable, earlier⟩
    · simp only [Readable, not_forall, not_exists] at readable
      obtain ⟨text, given, unread⟩ := readable
      obtain ⟨number, numeral⟩ | ⟨error, obstructs⟩ := Text.isNumeral_or_obstructs text
      · exact absurd numeral (unread number)
      · exact .inr ⟨[], first, pending, text, error, rfl, by simp, given, obstructs⟩

theorem mem_all (setting : Setting) : setting ∈ Setting.all := by
  cases setting <;> decide

/-! ### Numbers of settings -/

theorem get_apply_of_not_sets {item : Item} {setting : Setting} (other : ¬ item.Sets setting) (settings : Settings) :
    (item.apply settings).get setting = settings.get setting := by
  cases item with
  | help long => cases setting <;> rfl
  | value named text number numeral => exact get_set_of_ne _ (fun same => other same.symm) _

theorem get_foldl_of_not_sets {items : List Item} {setting : Setting} (absent : ∀ item ∈ items, ¬ item.Sets setting)
    (settings : Settings) : (items.foldl Item.apply settings).get setting = settings.get setting := by
  induction items generalizing settings with
  | nil => rfl
  | cons item items later =>
    rw [List.foldl_cons, later (fun other member => absent other (List.mem_cons_of_mem _ member)),
      get_apply_of_not_sets (absent item (List.mem_cons_self ..))]

theorem get_of_chosen {items : List Item} {setting : Setting} {number : Nat} {found : Settings}
    (chosen : Chosen environment items setting number)
    (read : readVariables environment Setting.all {} = .ok found) :
    (items.foldl Item.apply found).get setting = number := by
  obtain ⟨unset, set, -⟩ := get_of_readVariables read setting
  cases chosen with
  | fromArgument split last =>
    rw [split, List.foldl_append, List.foldl_cons, get_foldl_of_not_sets last]
    exact get_set_self ..
  | fromVariable absent given numeral =>
    rw [get_foldl_of_not_sets absent]
    exact set _ _ given numeral (.inl (mem_all setting))
  | byDefault absent notGiven =>
    rw [get_foldl_of_not_sets absent]
    exact unset notGiven

/-- A further item makes no difference to the settings that it is not for. -/
theorem Chosen.concat {items : List Item} {setting : Setting} {number : Nat} {further : Item}
    (chosen : Chosen environment items setting number) (other : ¬ further.Sets setting) :
    Chosen environment (items ++ [further]) setting number := by
  have extend {present : List Item} (absent : ∀ item ∈ present, ¬ item.Sets setting) :
      ∀ item ∈ present ++ [further], ¬ item.Sets setting := by
    intro item member
    obtain member | last := List.mem_append.mp member
    · exact absent item member
    · rw [List.mem_singleton.mp last]
      exact other
  cases chosen with
  | fromArgument split last =>
    have longer := congrArg (· ++ [further]) split
    simp only [List.append_assoc, List.cons_append] at longer
    exact .fromArgument longer (extend last)
  | fromVariable absent given numeral => exact .fromVariable (extend absent) given numeral
  | byDefault absent notGiven => exact .byDefault (extend absent) notGiven

theorem exists_chosen {setting : Setting} (readable : Readable environment setting) (items : List Item) :
    ∃ number, Chosen environment items setting number := by
  -- The last item for a setting is the first one from the right.
  induction items using List.reverseRecOn with
  | nil =>
    cases given : (environment setting.variableName).text? with
    | none => exact ⟨_, .byDefault (by simp) given⟩
    | some text =>
      obtain ⟨number, numeral⟩ := readable text given
      exact ⟨number, .fromVariable (by simp) given numeral⟩
  | append_singleton items item earlier =>
    by_cases sets : item.Sets setting
    · cases item with
      | help long => exact sets.elim
      | value named text number numeral =>
        obtain rfl : named = setting := sets
        exact ⟨number, .fromArgument rfl (by simp)⟩
    · obtain ⟨number, chosen⟩ := earlier
      exact ⟨number, chosen.concat sets⟩

theorem help_foldl (items : List Item) (settings : Settings) :
    (items.foldl Item.apply settings).help = true ↔ settings.help = true ∨ ∃ long, .help long ∈ items := by
  induction items generalizing settings with
  | nil => simp
  | cons item items later =>
    rw [List.foldl_cons, later]
    cases item with
    | help wanted => simp [Item.apply]
    | value setting text number numeral => simp [Item.apply, help_set]

/-! ### Loading -/

theorem load_eq {found : Settings} (read : readVariables environment Setting.all {} = .ok found)
    (arguments : List String) :
    load environment arguments = (do
      let settings ← readArguments arguments found
      check settings
      return settings) := by
  rw [load, read]
  rfl

theorem load_of_offends {found : Settings} (read : readVariables environment Setting.all {} = .ok found)
    (items : List Item) {rest : List String} {error : SettingsError} (offends : Offends rest error) :
    load environment (items.flatMap Item.words ++ rest) = .error error := by
  rw [load_eq read, readArguments_items, readArguments_of_offends offends]
  rfl

/-- Arguments that can be read are applied and the result is checked. -/
theorem load_items {found : Settings} (read : readVariables environment Setting.all {} = .ok found)
    (items : List Item) :
    load environment (items.flatMap Item.words) =
      (check (items.foldl Item.apply found)).map fun _ => items.foldl Item.apply found := by
  have whole := readArguments_items items [] found
  rw [List.append_nil] at whole
  rw [load_eq read, whole]
  simp only [readArguments, bind, Except.bind]
  cases check (items.foldl Item.apply found) <;> rfl

theorem load_of_accepted {arguments : List String} {settings : Settings}
    (accepted : Accepted environment arguments settings) : load environment arguments = .ok settings := by
  obtain ⟨found, read⟩ : ∃ found, readVariables environment Setting.all {} = .ok found :=
    exists_readVariables (fun setting _ => accepted.readable setting) {}
  obtain ⟨items, rfl, chosen, help⟩ := accepted.items
  have same : items.foldl Item.apply found = settings := by
    apply ext_get
    · intro setting
      exact get_of_chosen (chosen setting) read
    · rw [Bool.eq_iff_iff, help_foldl, help, (get_of_readVariables read .units).2.2]
      simp
  rw [load_items read, same, check, if_neg accepted.units, if_neg accepted.interval]
  rfl

theorem load_of_refused {arguments : List String} {error : SettingsError}
    (refused : Refused environment arguments error) : load environment arguments = .error error := by
  have exists_found (readable : ∀ setting, Readable environment setting) :
      ∃ found, readVariables environment Setting.all {} = .ok found :=
    exists_readVariables (fun setting _ => readable setting) {}
  have of_offends (offending : (∀ setting, Readable environment setting) ∧
      ∃ (items : List Item) (rest : List String), arguments = items.flatMap Item.words ++ rest ∧ Offends rest error) :
      load environment arguments = .error error := by
    obtain ⟨readable, items, rest, rfl, offends⟩ := offending
    obtain ⟨found, read⟩ := exists_found readable
    exact load_of_offends read items offends
  cases error with
  | invalidVariable cause =>
    obtain ⟨before, setting, after, text, order, readable, given, obstructs⟩ := refused
    have all : Setting.all = before ++ setting :: after := order
    rw [load, all, readVariables_of_obstructs readable given obstructs]
    rfl
  | unknownArgument argument => exact of_offends refused
  | missingValue setting => exact of_offends refused
  | invalidValue setting text => exact of_offends refused
  | noUnits =>
    obtain ⟨readable, items, rfl, chosen⟩ := refused
    obtain ⟨found, read⟩ := exists_found readable
    have none : (items.foldl Item.apply found).units = 0 := get_of_chosen chosen read
    rw [load_items read, check, if_pos none]
    rfl
  | noInterval =>
    obtain ⟨readable, items, units, rfl, chosen, some, empty⟩ := refused
    obtain ⟨found, read⟩ := exists_found readable
    have counted : (items.foldl Item.apply found).units = units := get_of_chosen chosen read
    have none : (items.foldl Item.apply found).reportMillis = 0 := get_of_chosen empty read
    rw [load_items read, check, if_neg (by rw [counted]; exact some), if_pos none]
    rfl

theorem refused_of_offends {items : List Item} {rest : List String} {error : SettingsError}
    (readable : ∀ setting, Readable environment setting) (offends : Offends rest error) :
    Refused environment (items.flatMap Item.words ++ rest) error := by
  cases error with
  | unknownArgument argument => exact ⟨readable, items, rest, rfl, offends⟩
  | missingValue setting => exact ⟨readable, items, rest, rfl, offends⟩
  | invalidValue setting text => exact ⟨readable, items, rest, rfl, offends⟩
  | invalidVariable cause => exact offends.elim
  | noUnits => exact offends.elim
  | noInterval => exact offends.elim

theorem accepted_or_refused_items (readable : ∀ setting, Readable environment setting) (items : List Item) :
    (∃ settings, Accepted environment (items.flatMap Item.words) settings) ∨
      ∃ error, Refused environment (items.flatMap Item.words) error := by
  choose number chosen using fun setting => exists_chosen (readable setting) items
  by_cases none : number .units = 0
  · have chosenUnits := chosen .units
    rw [none] at chosenUnits
    exact .inr ⟨.noUnits, readable, items, rfl, chosenUnits⟩
  · by_cases empty : number .reportMillis = 0
    · have chosenInterval := chosen .reportMillis
      rw [empty] at chosenInterval
      exact .inr ⟨.noInterval, readable, items, number .units, rfl, chosen .units, none, chosenInterval⟩
    · let settings : Settings :=
        { seconds := number .seconds, units := number .units, reportMillis := number .reportMillis
          help := (items.foldl Item.apply {}).help }
      have numbers (setting : Setting) : settings.get setting = number setting := by cases setting <;> rfl
      refine .inl ⟨settings, readable, ⟨items, rfl, fun setting => ?_, ?_⟩, none, empty⟩
      · rw [numbers]
        exact chosen setting
      · exact (help_foldl items {}).trans (by simp)

/-- Every environment and every list of arguments is accepted or refused. -/
theorem accepted_or_refused (environment : Environment) (arguments : List String) :
    (∃ settings, Accepted environment arguments settings) ∨ ∃ error, Refused environment arguments error := by
  obtain readable | ⟨before, setting, after, text, error, order, earlier, given, obstructs⟩ :=
    readable_or_obstructs environment Setting.all
  · replace readable : ∀ setting, Readable environment setting := fun setting => readable setting (mem_all setting)
    obtain ⟨items, rest, rfl, rfl | ⟨error, offends⟩⟩ := parted arguments
    · rw [List.append_nil]
      exact accepted_or_refused_items readable items
    · exact .inr ⟨error, refused_of_offends readable offends⟩
  · exact .inr ⟨.invalidVariable error, before, setting, after, text, order, earlier, given, obstructs⟩

end

/-! ### Requests for help -/

theorem foldl_apply_help (items : List Item) (settings : Settings) :
    items.foldl Item.apply { settings with help := true } =
      { items.foldl Item.apply settings with help := true } := by
  induction items generalizing settings with
  | nil => rfl
  | cons item items later =>
    have moved : item.apply { settings with help := true } = { item.apply settings with help := true } := by
      cases item with
      | help long => rfl
      | value setting text number numeral => cases setting <;> rfl
    rw [List.foldl_cons, moved, later]
    rfl

/-- A request for help changes nothing else, wherever it stands between items. -/
theorem load_help (environment : Environment) (items : List Item) (long : Bool) (rest : List String) :
    load environment (items.flatMap Item.words ++ ((Item.help long).words ++ rest)) =
      (load environment (items.flatMap Item.words ++ rest)).map fun settings => { settings with help := true } := by
  cases read : readVariables environment Setting.all {} with
  | error error => simp only [load, read, bind, Except.bind, Except.map]
  | ok found =>
    obtain ⟨more, last, rfl, verdict⟩ := parted rest
    have without : items.flatMap Item.words ++ (more.flatMap Item.words ++ last) =
        (items ++ more).flatMap Item.words ++ last := by simp
    have requested : items.flatMap Item.words ++ ((Item.help long).words ++ (more.flatMap Item.words ++ last)) =
        (items ++ .help long :: more).flatMap Item.words ++ last := by simp
    rw [without, requested]
    obtain rfl | ⟨error, offends⟩ := verdict
    · simp only [List.append_nil, load_items read, List.foldl_append, List.foldl_cons, Item.apply, foldl_apply_help]
      have unaffected (settings : Settings) : check { settings with help := true } = check settings := rfl
      rw [unaffected]
      cases check (more.foldl Item.apply (items.foldl Item.apply found)) <;> rfl
    · rw [load_of_offends read _ offends, load_of_offends read _ offends]
      rfl

end Settings

/-- The arguments that an error is about. -/
def SettingsError.arguments : SettingsError → List String
  | unknownArgument argument => [argument]
  | missingValue setting => [setting.argument]
  | invalidValue setting text => [setting.argument, text]
  | _ => []

theorem SettingsError.message_names (error : SettingsError) {argument : String} (named : argument ∈ error.arguments) :
    ∃ before after, error.message = before ++ argument ++ after := by
  cases error with
  | unknownArgument word =>
    obtain rfl := List.mem_singleton.mp named
    exact ⟨"unknown argument '", "'", rfl⟩
  | missingValue setting =>
    obtain rfl := List.mem_singleton.mp named
    refine ⟨"missing value for ", "", ?_⟩
    rw [String.append_empty]
    rfl
  | invalidValue setting text =>
    have words : (invalidValue setting text).message =
        "invalid " ++ setting.argument ++ " value '" ++ text ++ "'" := rfl
    simp only [arguments, List.mem_cons, List.not_mem_nil, or_false] at named
    rw [words]
    obtain rfl | rfl := named
    · refine ⟨"invalid ", " value '" ++ text ++ "'", ?_⟩
      simp only [String.append_assoc]
    · exact ⟨_, _, rfl⟩
  | invalidVariable cause => cases named
  | noUnits => cases named
  | noInterval => cases named

namespace Settings

section
variable {environment : Environment} {arguments : List String}

theorem load_eq_ok_iff {settings : Settings} :
    load environment arguments = .ok settings ↔ Accepted environment arguments settings := by
  refine ⟨fun loaded => ?_, load_of_accepted⟩
  obtain ⟨other, accepted⟩ | ⟨error, refused⟩ := accepted_or_refused environment arguments
  · rw [load_of_accepted accepted] at loaded
    cases loaded
    exact accepted
  · rw [load_of_refused refused] at loaded
    cases loaded

theorem load_eq_error_iff {error : SettingsError} :
    load environment arguments = .error error ↔ Refused environment arguments error := by
  refine ⟨fun failed => ?_, load_of_refused⟩
  obtain ⟨settings, accepted⟩ | ⟨other, refused⟩ := accepted_or_refused environment arguments
  · rw [load_of_accepted accepted] at failed
    cases failed
  · rw [load_of_refused refused] at failed
    cases failed
    exact refused

end

/-- Only the text of variables matters. -/
theorem load_congr {one two : Environment}
    (same : ∀ setting : Setting, (one setting.variableName).text? = (two setting.variableName).text?)
    (arguments : List String) : load one arguments = load two arguments := by
  have read (pending : List Setting) (settings : Settings) :
      readVariables one pending settings = readVariables two pending settings := by
    induction pending generalizing settings with
    | nil => rfl
    | cons setting pending later => simp only [readVariables, same, later]
  rw [load, load, read]

/-- The variable for units is set to what is no text, and no other variable is set. -/
def sampleEnvironment : Environment := fun name =>
  if name = Setting.units.variableName then .unreadable else .unset

end Settings

end Rehost
