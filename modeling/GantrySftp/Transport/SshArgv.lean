import GantrySftp.Transport.SshOptions

/-!
# The argv of an ssh command

The arguments of a connection are checked and put into one list: files, port and user behind their
letters, every option as a setting, and behind two dashes the host and the subsystem. Read back by
the rules that `ssh` reads it by, the list says what the caller meant, whatever the texts are, as
long as no name that stands for a default is spelled with a letter that only Python takes for one
of ASCII.
-/

namespace GantrySftp.Transport

open Library

/-! ## Checks -/

/-- What a text is an argument for. -/
inductive Argument
  | host
  | user
  | subsystem
  | configFile
  | identityFile
  | optionName
  | optionValue (name : Text)
  deriving DecidableEq

/-- Why arguments are refused. -/
inductive ArgvError
  | empty (argument : Argument)
  | forbidden (argument : Argument) (bad : ℕ) (value : Text)
  | leadingDash (argument : Argument) (value : Text)
  | atSign (host : Text)
  | whitespace (argument : Argument) (value : Text)
  | equalsSign (name : Text)
  | portOutOfRange (port : ℤ)
  | stopIteration
  deriving DecidableEq

/-- The characters that no argument may contain. -/
def forbiddenInArguments : List ℕ := [0x00, 0x0A, 0x0D]

/-- Whether a character is white space. -/
def isSpace (point : ℕ) : Bool :=
  (9 ≤ point ∧ point ≤ 13) ∨ (28 ≤ point ∧ point ≤ 32) ∨ (0x2000 ≤ point ∧ point ≤ 0x200A) ∨
    point ∈ [0x85, 0xA0, 0x1680, 0x2028, 0x2029, 0x202F, 0x205F, 0x3000]

/-- The equals sign. -/
def equals : ℕ := 61

/-- The at sign. -/
def atSign : ℕ := 64

/-- Refuse a text that has a character that no argument may contain. -/
def rejectControlCharacters (value : Text) (what : Argument) : Except ArgvError Unit :=
  match forbiddenInArguments.find? (· ∈ value) with
  | some bad => .error (.forbidden what bad value)
  | none => .ok ()

/-- Refuse a host that could be read as anything else. -/
def validateHost (host : Text) : Except ArgvError Unit := do
  if host = [] then throw (.empty .host)
  rejectControlCharacters host .host
  if host.head? = some Getopt.dash then throw (.leadingDash .host host)
  if atSign ∈ host then throw (.atSign host)
  if host.any isSpace then throw (.whitespace .host host)

/-- Refuse a user that could be read as anything else. -/
def validateUser (user : Text) : Except ArgvError Unit := do
  if user = [] then throw (.empty .user)
  rejectControlCharacters user .user
  if user.head? = some Getopt.dash then throw (.leadingDash .user user)
  if user.any isSpace then throw (.whitespace .user user)

/-- Refuse an option whose name or value could be read as anything else. -/
def validateOption (name value : Text) : Except ArgvError Unit := do
  if name = [] then throw (.empty .optionName)
  rejectControlCharacters name .optionName
  rejectControlCharacters value (.optionValue name)
  if equals ∈ name then throw (.equalsSign name)
  if name.any isSpace then throw (.whitespace .optionName name)

/-! ## The argv -/

/-- The option that host keys are checked by. -/
def strictHostKeyChecking : Text := .of "StrictHostKeyChecking"

/-- Apply a caller's options over the defaults. Tells whether that warns of a dangerous one. -/
def mergedOptions (data : CharacterData) (overrides : Option Options) :
    Except ArgvError (Options × Bool) :=
  match overrides with
  | none => .ok (defaultSshOptions, false)
  | some overrides =>
    if overrides.entries = [] then .ok (defaultSshOptions, false)
    else do
      overrides.entries.forM fun entry => validateOption entry.1 entry.2
      match valueOf data (foldOptions data defaultSshOptions overrides) strictHostKeyChecking with
      | none => throw .stopIteration
      | some strictness =>
        pure (foldOptions data defaultSshOptions overrides, strictness ≠ .of "yes")

/-- The arguments of a connection. -/
structure SshArguments where
  host : Text
  user : Option Text
  port : Option ℤ
  configFile : Option Text
  identityFile : Option Text
  options : Option Options
  subsystem : Text
  sshExecutable : Option Text

/-- A number in decimal. -/
def decimal (number : ℤ) : Text := .of (toString number)

/-- An option with its argument, if it is given. -/
def withLetter (letter : Char) (value : Option Text) : List Text :=
  match value with
  | none => []
  | some value => [[Getopt.dash, letter.toNat], value]

/-- Options in the order of their names. -/
def textLe : Text → Text → Bool
  | [], _ => true
  | _ :: _, [] => false
  | left :: lefts, right :: rights => left < right || (left = right && textLe lefts rights)

/-- The order of options: by their names, and by their values. -/
def optionLe (left right : Text × Text) : Bool :=
  if left.1 = right.1 then textLe left.2 right.2 else textLe left.1 right.1

/-- A setting of an option. -/
def setting (entry : Text × Text) : Text := entry.1 ++ equals :: entry.2

/-- The elements behind the name of the executable. -/
def sshArguments (arguments : SshArguments) (options : Options) : List Text :=
  withLetter 'F' arguments.configFile ++ withLetter 'i' arguments.identityFile ++
    withLetter 'p' (arguments.port.map decimal) ++ withLetter 'l' arguments.user ++
    (options.entries.mergeSort optionLe).flatMap (fun entry => withLetter 'o' (some (setting entry))) ++
    [.of "-s", .of "--", arguments.host, arguments.subsystem]

/-- Build the argv. The executable is the one given, or the one that is found. Tells whether that
warns of a dangerous option. -/
def buildSshArgv (data : CharacterData) (resolved : Text) (arguments : SshArguments) :
    Except ArgvError (List Text × Bool) := do
  validateHost arguments.host
  arguments.user.forM validateUser
  arguments.port.forM fun port =>
    if 1 ≤ port ∧ port ≤ 65535 then pure () else throw (.portOutOfRange port)
  if arguments.subsystem = [] then throw (.empty .subsystem)
  rejectControlCharacters arguments.subsystem .subsystem
  arguments.configFile.forM (rejectControlCharacters · .configFile)
  arguments.identityFile.forM (rejectControlCharacters · .identityFile)
  let (options, warned) ← mergedOptions data arguments.options
  pure (arguments.sshExecutable.getD resolved :: sshArguments arguments options, warned)

/-! ## What ssh reads -/

/-- The letters of `ssh` that the argv uses, and whether they take an argument. -/
def sshTakes (letter : ℕ) : Option Bool :=
  if letter = 's'.toNat then some false
  else if letter ∈ ['F'.toNat, 'i'.toNat, 'p'.toNat, 'l'.toNat, 'o'.toNat] then some true
  else none

/-- What `ssh` reads of an argv. -/
def sshReads (argv : List Text) : Option (List Said × List Text) :=
  Getopt.read sshTakes none argv.tail

/-- The arguments that a letter was given. -/
def given (letter : Char) (said : List Said) : List Text :=
  said.filterMap (Said.argument? letter.toNat)

/-- A setting as `ssh` takes it apart: at its first equals sign. -/
def splitSetting (text : Text) : Text × Text :=
  (text.takeWhile (· ≠ equals), (text.dropWhile (· ≠ equals)).drop 1)

/-- The value that `ssh` goes by for a keyword: that of the first setting of it. -/
def effective (settings : List (Text × Text)) (keyword : Text) : Option Text :=
  (settings.find? fun entry => asciiLower entry.1 = asciiLower keyword).map Prod.snd

/-- The value that a caller gave a keyword, in any case of its ASCII letters, the last if there are
more. -/
def callersValue (overrides : Option Options) (keyword : Text) : Option Text :=
  overrides.bind fun overrides =>
    (lastNamed (asciiLower · = asciiLower keyword) overrides.entries).map Prod.snd

/-- What an argv is to say: the files, the port, the user, the host and the subsystem of the
arguments, the caller's value or the default for each keyword of the defaults, no keyword twice, and
a warning exactly where host keys are not checked strictly. -/
structure Intended (arguments : SshArguments) (warned : Bool) (said : List Said)
    (operands : List Text) : Prop where
  configFile : given 'F' said = arguments.configFile.toList
  identityFile : given 'i' said = arguments.identityFile.toList
  port : given 'p' said = (arguments.port.map decimal).toList
  user : given 'l' said = arguments.user.toList
  flags : said.countP (Said.isFlag 's'.toNat) = 1
  operands_eq : operands = [arguments.host, arguments.subsystem]
  defaults : ∀ entry ∈ defaultSshOptions.entries,
    effective ((given 'o' said).map splitSetting) entry.1 =
      some ((callersValue arguments.options entry.1).getD entry.2)
  once : ((given 'o' said).map fun setting => asciiLower (splitSetting setting).1).Nodup
  warns : warned = true ↔
    effective ((given 'o' said).map splitSetting) strictHostKeyChecking ≠ some (.of "yes")

/-- No name that stands for a keyword of the defaults as the last one has a letter that is none of
ASCII. -/
def PlainlySpelled (data : CharacterData) (overrides : Option Options) : Prop :=
  ∀ options ∈ overrides, ∀ entry ∈ defaultSshOptions.entries,
    ∀ last ∈ lastNamed (data.lower · = data.lower entry.1) options.entries,
      asciiLower last.1 = asciiLower entry.1

/-! ## Reading the argv back -/

/-- An option with its argument is read as it is given. -/
theorem read_withLetter {letter : Char} (htakes : sshTakes letter.toNat = some true)
    (hdash : letter.toNat ≠ Getopt.dash) (value : Option Text) (arguments : List Text) :
    Getopt.read sshTakes none (withLetter letter value ++ arguments) =
      Getopt.before (value.toList.map (.setting letter.toNat))
        (Getopt.read sshTakes none arguments) := by
  cases value with
  | none =>
    cases hread : Getopt.read sshTakes none arguments <;> simp [withLetter, hread, Getopt.before]
  | some value => exact Getopt.read_setting htakes hdash value arguments

/-- What an argv of arguments and options says. -/
def saying (arguments : SshArguments) (options : Options) : List Said :=
  arguments.configFile.toList.map (.setting 'F'.toNat) ++
    (arguments.identityFile.toList.map (.setting 'i'.toNat) ++
      ((arguments.port.map decimal).toList.map (.setting 'p'.toNat) ++
        (arguments.user.toList.map (.setting 'l'.toNat) ++
          (((options.entries.mergeSort optionLe).map setting).map (.setting 'o'.toNat) ++
            [.flag 's'.toNat]))))

/-- The argv is read as what it says, with the host and the subsystem as its operands. -/
theorem read_sshArguments (arguments : SshArguments) (options : Options) :
    Getopt.read sshTakes none (sshArguments arguments options) =
      some (saying arguments options, [arguments.host, arguments.subsystem]) := by
  have hlast : Getopt.read sshTakes none
      [.of "-s", .of "--", arguments.host, arguments.subsystem] =
        some ([.flag 's'.toNat], [arguments.host, arguments.subsystem]) := by
    change Getopt.read sshTakes none ([Getopt.dash, 's'.toNat] :: [Getopt.dash, Getopt.dash] :: _) = _
    rw [Getopt.read_flag rfl (by decide), Getopt.read_dashes]
    rfl
  have hoptions : (options.entries.mergeSort optionLe).flatMap
      (fun entry => withLetter 'o' (some (setting entry))) =
        ((options.entries.mergeSort optionLe).map setting).flatMap
          fun argument => [[Getopt.dash, 'o'.toNat], argument] := by
    rw [List.flatMap_map]
    rfl
  unfold sshArguments saying
  simp only [List.append_assoc]
  rw [read_withLetter rfl (by decide), read_withLetter rfl (by decide),
    read_withLetter rfl (by decide), read_withLetter rfl (by decide), hoptions,
    Getopt.read_settings rfl (by decide), hlast]
  simp only [Getopt.before_before]
  simp [Getopt.before]

/-- The arguments of a letter among settings of one letter are all of them, or none. -/
theorem filterMap_argument? (letter other : ℕ) (values : List Text) :
    (values.map (Said.setting other)).filterMap (Said.argument? letter) =
      if other = letter then values else [] := by
  induction values with
  | nil => simp
  | cons value values ih =>
    rw [List.map_cons, List.filterMap_cons, ih]
    by_cases hletter : other = letter <;> simp [Said.argument?, hletter]

/-- The arguments that an argv gives a letter. -/
theorem given_saying (letter : Char) (arguments : SshArguments) (options : Options) :
    given letter (saying arguments options) =
      (if 'F'.toNat = letter.toNat then arguments.configFile.toList else []) ++
        ((if 'i'.toNat = letter.toNat then arguments.identityFile.toList else []) ++
          ((if 'p'.toNat = letter.toNat then (arguments.port.map decimal).toList else []) ++
            ((if 'l'.toNat = letter.toNat then arguments.user.toList else []) ++
              if 'o'.toNat = letter.toNat then (options.entries.mergeSort optionLe).map setting
                else []))) := by
  simp only [given, saying, List.filterMap_append, filterMap_argument?]
  simp [Said.argument?]

/-- A setting whose name has no equals sign is taken apart where it was put together. -/
theorem splitSetting_setting {entry : Text × Text} (h : equals ∉ entry.1) :
    splitSetting (setting entry) = entry := by
  have hname : ∀ point ∈ entry.1, (decide (point ≠ equals)) = true := fun point hmem =>
    decide_eq_true fun heq => h (heq ▸ hmem)
  unfold splitSetting setting
  rw [List.takeWhile_append_of_pos hname, List.dropWhile_append_of_pos hname]
  simp

/-! ## The options that are merged -/

section Merged

variable {data : CharacterData} {overrides : Option Options} {options : Options} {warned : Bool}

/-- The entries that a caller gives. -/
def overriding (overrides : Option Options) : List (Text × Text) := overrides.elim [] Dict.entries

/-- The last entry of a name among the defaults and what the caller gives. -/
def lastGiven (data : CharacterData) (overrides : Option Options) (name : Text) :
    Option (Text × Text) :=
  lastNamed (data.lower · = data.lower name) (defaultSshOptions.entries ++ overriding overrides)

/-- The names of the defaults differ, whatever the interpreter knows of characters. -/
theorem nodup_defaults (data : CharacterData) :
    (defaultSshOptions.entries.map fun entry => data.lower entry.1).Nodup := by
  have hascii : ∀ entry ∈ defaultSshOptions.entries, ∀ point ∈ entry.1, point < 128 := by decide
  have hlower : defaultSshOptions.entries.map (fun entry => data.lower entry.1) =
      defaultSshOptions.entries.map fun entry => asciiLower entry.1 :=
    List.map_congr_left fun entry hmem => data.lowerBehind_of_ascii [] (hascii entry hmem)
  rw [hlower]
  decide

/-- The last entry of a name is that of every name of the same lower case. -/
theorem lastGiven_congr {name other : Text} (h : data.lower name = data.lower other) :
    lastGiven data overrides name = lastGiven data overrides other := by
  unfold lastGiven
  rw [h]

/-- What merging gives: the last entry of each name, names without an equals sign, and a warning
where the last entry of the option that host keys are checked by is not the default. -/
structure Merged (data : CharacterData) (overrides : Option Options) (options : Options)
    (warned : Bool) : Prop where
  entries : ∀ entry, entry ∈ options.entries ↔ lastGiven data overrides entry.1 = some entry
  plain : ∀ entry ∈ options.entries, equals ∉ entry.1
  warns : ∀ entry ∈ lastGiven data overrides strictHostKeyChecking,
    (warned = true ↔ entry.2 ≠ .of "yes")

/-- The defaults alone are merged, without a warning. -/
theorem merged_defaults (h : overriding overrides = []) :
    Merged data overrides defaultSshOptions false := by
  have hlast : ∀ name value, lastGiven data overrides name = some (name, value) ↔
      (name, value) ∈ defaultSshOptions.entries := by
    intro name value
    rw [lastGiven, h, List.append_nil]
    exact lastNamed_eq_some_iff (nodup_defaults data) name value
  refine ⟨fun entry => (hlast entry.1 entry.2).symm, by decide, fun entry hentry => ?_⟩
  rw [(hlast strictHostKeyChecking (.of "yes")).mpr (by decide)] at hentry
  rw [← Option.some.inj hentry]
  simp

/-- A check that goes on did not refuse. -/
theorem exists_of_bind_eq_ok {α β : Type} {first : Except ArgvError α}
    {next : α → Except ArgvError β} {value : β} (h : (first >>= next) = .ok value) :
    ∃ middle, first = .ok middle ∧ next middle = .ok value := by
  cases first with
  | error failure => cases h
  | ok middle => exact ⟨middle, rfl, h⟩

/-- An option that is accepted has a name without an equals sign. -/
theorem not_mem_equals {name value : Text} (h : validateOption name value = .ok ()) :
    equals ∉ name := by
  intro hmem
  unfold validateOption at h
  simp only [if_neg (List.ne_nil_of_mem hmem), if_pos hmem] at h
  obtain ⟨_, -, h⟩ := exists_of_bind_eq_ok h
  obtain ⟨_, -, h⟩ := exists_of_bind_eq_ok h
  cases h

/-- Checks of all of some entries accept each of them. -/
theorem ok_of_forM {α : Type} {items : List α} {check : α → Except ArgvError Unit}
    (h : items.forM check = .ok ()) : ∀ item ∈ items, check item = .ok () := by
  induction items with
  | nil => exact fun _ hmem => by cases hmem
  | cons item items ih =>
    obtain ⟨_, hfirst, hrest⟩ := exists_of_bind_eq_ok h
    intro other hmem
    obtain rfl | hlater := List.mem_cons.mp hmem
    · exact hfirst
    · exact ih hrest other hlater

/-- The last entry of a name is one of the entries. -/
theorem mem_of_lastNamed {named : Text → Bool} {entries : List (Text × Text)}
    {entry : Text × Text} (h : lastNamed named entries = some entry) : entry ∈ entries :=
  List.mem_reverse.mp (List.mem_of_find?_eq_some h)

/-- A caller's options are merged over the defaults. -/
theorem merged_of_ok (h : mergedOptions data overrides = .ok (options, warned)) :
    Merged data overrides options warned := by
  cases overrides with
  | none =>
    obtain ⟨rfl, rfl⟩ := Prod.mk.inj (Except.ok.inj h)
    exact merged_defaults rfl
  | some overrides =>
    unfold mergedOptions at h
    by_cases hnone : overrides.entries = []
    · simp only [if_pos hnone] at h
      obtain ⟨rfl, rfl⟩ := Prod.mk.inj (Except.ok.inj h)
      exact merged_defaults hnone
    · simp only [if_neg hnone] at h
      obtain ⟨_, hchecked, h⟩ := exists_of_bind_eq_ok h
      have hplain := ok_of_forM hchecked
      have hdefaults : ∀ entry ∈ defaultSshOptions.entries, equals ∉ entry.1 := by decide
      have hentries : ∀ entry, entry ∈ (foldOptions data defaultSshOptions overrides).entries ↔
          lastGiven data (some overrides) entry.1 = some entry := fun entry =>
        (getEntry_eq_some_iff (Dict.nodup _)).symm.trans
          (get_foldOptions (nodup_defaults data) entry.1 entry.2)
      cases hvalue : valueOf data (foldOptions data defaultSshOptions overrides)
          strictHostKeyChecking with
      | none =>
        rw [hvalue] at h
        cases h
      | some strictness =>
        rw [hvalue] at h
        obtain ⟨rfl, rfl⟩ := Prod.mk.inj (Except.ok.inj h)
        refine ⟨hentries, fun entry hmem => ?_, fun entry hlast => ?_⟩
        · obtain hdefault | hgiven := List.mem_append.mp (mem_of_lastNamed ((hentries entry).mp hmem))
          · exact hdefaults entry hdefault
          · exact not_mem_equals (hplain entry hgiven)
        · obtain ⟨found, hfound, rfl⟩ := Option.map_eq_some_iff.mp hvalue
          have hsame : data.lower found.1 = data.lower strictHostKeyChecking := by
            simpa using List.find?_some hfound
          have hgiven := (hentries found).mp (List.mem_of_find?_eq_some hfound)
          rw [lastGiven_congr hsame, hlast] at hgiven
          rw [Option.some.inj hgiven]
          exact decide_eq_true_iff

/-- Options that are merged differ in more than the case of ASCII letters. -/
theorem Merged.eq_of_asciiLower (h : Merged data overrides options warned) {entry other : Text × Text}
    (hentry : entry ∈ options.entries) (hother : other ∈ options.entries)
    (hsame : asciiLower entry.1 = asciiLower other.1) : entry = other := by
  have hlast := (h.entries entry).mp hentry
  rw [lastGiven_congr (data.lower_congr hsame), (h.entries other).mp hother] at hlast
  exact (Option.some.inj hlast).symm

/-- What `ssh` goes by for a keyword is the value of the option of that name, in any case. -/
theorem Merged.effective_eq_some_iff (h : Merged data overrides options warned)
    (keyword value : Text) :
    effective (options.entries.mergeSort optionLe) keyword = some value ↔
      ∃ entry ∈ options.entries, asciiLower entry.1 = asciiLower keyword ∧ entry.2 = value := by
  unfold effective
  rw [Option.map_eq_some_iff]
  constructor
  · rintro ⟨entry, hfound, rfl⟩
    exact ⟨entry, List.mem_mergeSort.mp (List.mem_of_find?_eq_some hfound),
      by simpa using List.find?_some hfound, rfl⟩
  · rintro ⟨entry, hmem, hnamed, rfl⟩
    cases hfound : (options.entries.mergeSort optionLe).find?
        fun entry => asciiLower entry.1 = asciiLower keyword with
    | none => simpa [hnamed] using List.find?_eq_none.mp hfound entry (List.mem_mergeSort.mpr hmem)
    | some found =>
      have hsame : asciiLower found.1 = asciiLower keyword := by
        simpa using List.find?_some hfound
      have hin : found ∈ options.entries :=
        List.mem_mergeSort.mp (List.mem_of_find?_eq_some hfound)
      rw [h.eq_of_asciiLower hin hmem (hsame.trans hnamed.symm)]
      exact ⟨entry, rfl, rfl⟩

/-- The settings that an argv says are taken apart into the options. -/
theorem Merged.settings (h : Merged data overrides options warned) (arguments : SshArguments) :
    (given 'o' (saying arguments options)).map splitSetting =
      options.entries.mergeSort optionLe := by
  have hplain : ∀ entry ∈ options.entries.mergeSort optionLe,
      (splitSetting ∘ setting) entry = id entry := fun entry hmem =>
    splitSetting_setting (h.plain entry (List.mem_mergeSort.mp hmem))
  have hgiven : given 'o' (saying arguments options) =
      (options.entries.mergeSort optionLe).map setting := by
    simp [given_saying]
  rw [hgiven, List.map_map, List.map_congr_left hplain, List.map_id]

/-- The value that a caller gave a keyword is that of the last entry of its name. -/
theorem callersValue_eq (overrides : Option Options) (keyword : Text) :
    callersValue overrides keyword =
      (lastNamed (asciiLower · = asciiLower keyword) (overriding overrides)).map Prod.snd := by
  cases overrides <;> rfl

/-- The last entry of the name of a default is the caller's last one, or the default. -/
theorem lastGiven_default {entry : Text × Text} (h : entry ∈ defaultSshOptions.entries) :
    lastGiven data overrides entry.1 =
      some ((lastNamed (data.lower · = data.lower entry.1) (overriding overrides)).getD entry) := by
  have hdefault := (lastNamed_eq_some_iff (nodup_defaults data) entry.1 entry.2).mpr h
  rw [lastGiven, lastNamed_append, hdefault]
  cases lastNamed (data.lower · = data.lower entry.1) (overriding overrides) <;> rfl

/-- Where every name is spelled plainly, the last entry of the name of a default has that name for
`ssh` too, and the caller's value or that of the default. -/
theorem exists_lastGiven (h : PlainlySpelled data overrides) {entry : Text × Text}
    (hentry : entry ∈ defaultSshOptions.entries) :
    ∃ last, lastGiven data overrides entry.1 = some last ∧
      asciiLower last.1 = asciiLower entry.1 ∧
      last.2 = (callersValue overrides entry.1).getD entry.2 := by
  have hwide : ∀ name, decide (asciiLower name = asciiLower entry.1) = true →
      decide (data.lower name = data.lower entry.1) = true := fun name hname =>
    decide_eq_true (data.lower_congr (of_decide_eq_true hname))
  rw [lastGiven_default hentry, callersValue_eq]
  cases hlast : lastNamed (data.lower · = data.lower entry.1) (overriding overrides) with
  | none =>
    refine ⟨entry, rfl, rfl, ?_⟩
    have hnone : lastNamed (asciiLower · = asciiLower entry.1) (overriding overrides) = none := by
      apply List.find?_eq_none.mpr
      intro other hmem hnamed
      exact List.find?_eq_none.mp hlast other hmem (hwide other.1 hnamed)
    rw [hnone]
    rfl
  | some last =>
    have hplain : asciiLower last.1 = asciiLower entry.1 := by
      cases overrides with
      | none => cases hlast
      | some overrides => exact h overrides rfl entry hentry last hlast
    refine ⟨last, rfl, hplain, ?_⟩
    rw [lastNamed_of_narrower hwide hlast (decide_eq_true hplain)]
    rfl

end Merged

/-- Arguments that are accepted have their options merged, and are put behind the executable. -/
theorem exists_options_of_ok {data : CharacterData} {resolved : Text} {arguments : SshArguments}
    {argv : List Text} {warned : Bool}
    (h : buildSshArgv data resolved arguments = .ok (argv, warned)) :
    ∃ options, mergedOptions data arguments.options = .ok (options, warned) ∧
      argv.tail = sshArguments arguments options := by
  unfold buildSshArgv at h
  obtain ⟨_, -, h⟩ := exists_of_bind_eq_ok h
  obtain ⟨_, -, h⟩ := exists_of_bind_eq_ok h
  obtain ⟨_, -, h⟩ := exists_of_bind_eq_ok h
  by_cases hempty : arguments.subsystem = []
  · simp only [if_pos hempty] at h
    cases h
  · simp only [if_neg hempty] at h
    obtain ⟨_, -, h⟩ := exists_of_bind_eq_ok h
    obtain ⟨_, -, h⟩ := exists_of_bind_eq_ok h
    obtain ⟨_, -, h⟩ := exists_of_bind_eq_ok h
    obtain ⟨⟨options, warns⟩, hmerged, h⟩ := exists_of_bind_eq_ok h
    obtain ⟨rfl, rfl⟩ := Prod.mk.inj (Except.ok.inj h)
    exact ⟨options, hmerged, rfl⟩

/-- Whatever texts are accepted, the argv is read by `ssh` as intended exactly when no name that
stands for a keyword of the defaults as the last one has a letter that is none of ASCII. -/
theorem argv_intended_iff (data : CharacterData) (resolved : Text) (arguments : SshArguments)
    {argv : List Text} {warned : Bool}
    (h : buildSshArgv data resolved arguments = .ok (argv, warned)) :
    (∃ said operands, sshReads argv = some (said, operands) ∧
        Intended arguments warned said operands) ↔
      PlainlySpelled data arguments.options := by
  obtain ⟨options, hok, htail⟩ := exists_options_of_ok h
  have hmerged := merged_of_ok hok
  have hreads : sshReads argv =
      some (saying arguments options, [arguments.host, arguments.subsystem]) := by
    rw [sshReads, htail, read_sshArguments]
  constructor
  · rintro ⟨said, operands, hread, hintended⟩ overrides hoverrides entry hentry last hlast
    obtain ⟨rfl, rfl⟩ := Prod.mk.inj (Option.some.inj (hreads.symm.trans hread))
    have heffective := hintended.defaults entry hentry
    rw [hmerged.settings] at heffective
    obtain ⟨found, hfound, hsame, -⟩ := (hmerged.effective_eq_some_iff _ _).mp heffective
    have hgiven := (hmerged.entries found).mp hfound
    have hoverriding : overriding arguments.options = overrides.entries := by
      rw [Option.mem_def.mp hoverrides]
      rfl
    rw [lastGiven_congr (data.lower_congr hsame), lastGiven_default hentry, hoverriding, hlast]
      at hgiven
    rw [← hsame, ← Option.some.inj hgiven]
    rfl
  · intro hplain
    have heffective : ∀ entry ∈ defaultSshOptions.entries, ∃ last,
        lastGiven data arguments.options entry.1 = some last ∧
          effective (options.entries.mergeSort optionLe) entry.1 = some last.2 ∧
            last.2 = (callersValue arguments.options entry.1).getD entry.2 := by
      intro entry hentry
      obtain ⟨last, hlast, hsame, hvalue⟩ := exists_lastGiven hplain hentry
      have hmem : last ∈ options.entries := by
        rw [hmerged.entries, lastGiven_congr (data.lower_congr hsame), hlast]
      exact ⟨last, hlast, (hmerged.effective_eq_some_iff _ _).mpr ⟨last, hmem, hsame, rfl⟩, hvalue⟩
    refine ⟨_, _, hreads, ?_, ?_, ?_, ?_, ?_, rfl, fun entry hentry => ?_, ?_, ?_⟩
    · simp [given_saying]
    · simp [given_saying]
    · simp [given_saying]
    · simp [given_saying]
    · simp [saying, Said.isFlag, Function.comp_def]
    · obtain ⟨last, -, hsettings, hvalue⟩ := heffective entry hentry
      rw [hmerged.settings, hsettings, hvalue]
    · have honce : ((options.entries.mergeSort optionLe).map fun entry => asciiLower entry.1).Nodup := by
        apply List.Nodup.map_on
        · exact fun entry hentry other hother => hmerged.eq_of_asciiLower
            (List.mem_mergeSort.mp hentry) (List.mem_mergeSort.mp hother)
        · exact (List.mergeSort_perm _ _).nodup_iff.mpr options.nodup.of_map
      rw [← hmerged.settings arguments, List.map_map] at honce
      exact honce
    · obtain ⟨last, hlast, hsettings, -⟩ := heffective (strictHostKeyChecking, .of "yes") (by decide)
      rw [hmerged.settings, hsettings, hmerged.warns last hlast, ne_eq, ne_eq, Option.some_inj]

/-- A Python interpreter, for ASCII and the sign of Kelvin, whose lower case is the letter k. -/
def kelvin : CharacterData where
  lowerOf := fun point => if point = 0x212A then [107] else [asciiLowerOf point]
  endsWord := fun _ _ => false
  lowerOf_ascii := fun point hpoint => if_neg (by omega)
  endsWord_ascii := fun _ _ => rfl

/-- One option. -/
def oneOption (name value : Text) : Options where
  entries := [(name, value)]
  nodup := List.nodup_singleton name

/-- Arguments with one option. -/
def withOption (name value : Text) : SshArguments where
  host := .of "h"
  user := some (.of "u")
  port := some 22
  configFile := none
  identityFile := none
  options := some (oneOption name value)
  subsystem := .of "sftp"
  sshExecutable := some (.of "ssh")

/-- The options merged of one. -/
def mergedWith (name value : Text) : Options :=
  foldOptions kelvin defaultSshOptions (oneOption name value)

/-- An option of the defaults in capital letters is read as intended. -/
theorem argv_intended_iff_capitals :
    ∃ said operands,
      sshReads (.of "ssh" :: sshArguments (withOption (.of "BATCHMODE") (.of "no"))
        (mergedWith (.of "BATCHMODE") (.of "no"))) = some (said, operands) ∧
        Intended (withOption (.of "BATCHMODE") (.of "no")) false said operands := by
  have hok : buildSshArgv kelvin (.of "ssh") (withOption (.of "BATCHMODE") (.of "no")) =
      .ok (.of "ssh" :: sshArguments (withOption (.of "BATCHMODE") (.of "no"))
        (mergedWith (.of "BATCHMODE") (.of "no")), false) := by rfl
  refine (argv_intended_iff _ _ _ hok).mpr ?_
  rintro _ ⟨⟩
  decide

/-- The option that host keys are checked by, spelled with the sign of Kelvin. -/
def kelvinSpelled : Text := Text.of "StrictHost" ++ 0x212A :: Text.of "eyChecking"

/-- A name with the sign of Kelvin takes the place of the check of host keys, without a warning. -/
theorem check_displaced :
    buildSshArgv kelvin (.of "ssh") (withOption kelvinSpelled (.of "yes")) =
        .ok (.of "ssh" :: sshArguments (withOption kelvinSpelled (.of "yes"))
          (mergedWith kelvinSpelled (.of "yes")), false) ∧
      ¬ ∃ said operands,
        sshReads (.of "ssh" :: sshArguments (withOption kelvinSpelled (.of "yes"))
          (mergedWith kelvinSpelled (.of "yes"))) = some (said, operands) ∧
          Intended (withOption kelvinSpelled (.of "yes")) false said operands := by
  refine ⟨by rfl, ?_⟩
  have hmerged : Merged kelvin (withOption kelvinSpelled (.of "yes")).options
      (mergedWith kelvinSpelled (.of "yes")) false := merged_of_ok (by rfl)
  have hnone : ∀ entry ∈ (mergedWith kelvinSpelled (.of "yes")).entries,
      asciiLower entry.1 ≠ asciiLower strictHostKeyChecking := by decide
  rintro ⟨said, operands, hread, hintended⟩
  obtain ⟨rfl, rfl⟩ := Prod.mk.inj (Option.some.inj ((read_sshArguments _ _).symm.trans hread))
  have hvalue := hintended.defaults (strictHostKeyChecking, .of "yes") (by decide)
  rw [hmerged.settings] at hvalue
  obtain ⟨entry, hmem, hsame, -⟩ := (hmerged.effective_eq_some_iff _ _).mp hvalue
  exact hnone entry hmem hsame

end GantrySftp.Transport
