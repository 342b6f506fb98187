import BuildReuse.Config.Load
import BuildReuse.Proofs.Config.Filed
import BuildReuse.Proofs.FileSystem.Stored
import BuildReuse.Proofs.Text.Words

/-! Where each field of a loaded configuration comes from: from its variable if this holds a text,
else from the member of the document that has its name, else from the defaults. -/
namespace BuildReuse

open Json (Member Given)

namespace ToolCommand

variable {line : String} {command : ToolCommand}

theorem ofLineWorded (found : ofLine? line = some command) :
    Text.Worded line.toList ((command.program :: command.args).map String.toList) := by
  rw [Text.wordedIff]
  revert found
  fun_cases ofLine? line
  case case1 => nofun
  case case2 program args words =>
    rintro ⟨⟩
    rw [← words, List.map_map]
    exact (List.map_id'' (fun word => String.toList_ofList) _).symm

theorem ofLineNone : ofLine? line = none ↔ Text.blank line.toList = true := by
  rw [← Text.wordless]
  fun_cases ofLine? line
  case case1 words => simpa using words
  case case2 program args words =>
    simp only [reduceCtorEq, false_iff]
    intro none
    simp [none] at words

end ToolCommand

namespace Config

def Undotted (extension kept : String) : Prop :=
  (∃ n, extension.toList = List.replicate n '.' ++ kept.toList) ∧ kept.toList.head? ≠ some '.'

structure Layered (environment : Environment) (members : List Member) (c : Config) : Prop where
  command : ∀ line, environment.text? commandVariable = some line →
    Text.Worded line.toList ((c.buildCommand.program :: c.buildCommand.args).map String.toList)
  commandPassed : environment.text? commandVariable = none →
    Given members "build_command" ToolCommand.record.read Config.default.buildCommand c.buildCommand ∧
    ∀ m ∈ members, m.name = "build_command" → ToolCommand.Stated m.value c.buildCommand
  extension : ∀ text, environment.text? extensionVariable = some text → Undotted text c.projectExtension
  extensionPassed : environment.text? extensionVariable = none →
    Given members "project_extension" Json.readText Config.default.projectExtension c.projectExtension
  timeout : ∀ text, environment.text? timeoutVariable = some text → Duration.read text.toList = .ok c.lockTimeout
  timeoutPassed : environment.text? timeoutVariable = none →
    Given members "lock_timeout" readDuration Config.default.lockTimeout c.lockTimeout
  logExtension : Given members "build_log_extension" Json.readText Config.default.logExtension c.logExtension
  logFileName : Given members "build_log_file_name" Json.readText Config.default.logFileName c.logFileName
  sentinelFileName : Given members "sentinel_file_name" Json.readText Config.default.sentinelFileName c.sentinelFileName
  lockFileName : Given members "lock_file_name" Json.readText Config.default.lockFileName c.lockFileName
  intermediateDirs :
    Given members "intermediate_dirs" (Json.readList Json.readText) Config.default.intermediateDirs c.intermediateDirs
  logReadyTimeout : Given members "log_ready_timeout" readDuration Config.default.logReadyTimeout c.logReadyTimeout

variable {fs : FileSystem} {here path : Path} {environment : Environment} {members : List Member}
  {c c' loaded : Config} {o : Overrides} {value : Option String}

theorem commandTaken (taken : c.withCommand value = .ok c') : ∃ command, c' = { c with buildCommand := command } ∧
    (value = none → command = c.buildCommand) ∧
    ∀ line, value = some line → ToolCommand.ofLine? line = some command := by
  revert taken
  fun_cases withCommand c value
  case case1 =>
    rintro ⟨⟩
    exact ⟨c.buildCommand, rfl, fun _ => rfl, nofun⟩
  case case2 line command found =>
    rintro ⟨⟩
    exact ⟨command, rfl, nofun, fun _ same => Option.some.inj same ▸ found⟩
  case case3 => nofun

theorem commandRefused : (∃ e, c.withCommand value = .error e) ↔
    ∃ line, value = some line ∧ ToolCommand.ofLine? line = none := by
  fun_cases withCommand c value
  case case1 => simp
  case case2 line command found => simp [found]
  case case3 line found => simp [found]

theorem timeoutTaken (taken : c.withTimeout value = .ok c') : ∃ d, c' = { c with lockTimeout := d } ∧
    (value = none → d = c.lockTimeout) ∧ ∀ text, value = some text → Duration.read text.toList = .ok d := by
  revert taken
  fun_cases withTimeout c value
  case case1 =>
    rintro ⟨⟩
    exact ⟨c.lockTimeout, rfl, fun _ => rfl, nofun⟩
  case case2 text d read =>
    rintro ⟨⟩
    exact ⟨d, rfl, nofun, fun _ same => Option.some.inj same ▸ read⟩
  case case3 => nofun

theorem timeoutRefused : (∃ e, c.withTimeout value = .error e) ↔
    ∃ text, value = some text ∧ ∀ d, Duration.read text.toList ≠ .ok d := by
  fun_cases withTimeout c value
  case case1 => simp
  case case2 text d read => simp [read]
  case case3 text fault read => simp [read]

theorem undotted (extension : String) : Undotted extension (String.ofList (extension.toList.dropWhile (· == '.'))) := by
  refine ⟨⟨(extension.toList.takeWhile (· == '.')).length, ?_⟩, ?_⟩
  · have dots : extension.toList.takeWhile (· == '.') = List.replicate (extension.toList.takeWhile (· == '.')).length '.' :=
      List.eq_replicate_iff.mpr ⟨rfl, fun c inside => by simpa using List.mem_takeWhile_imp inside⟩
    rw [String.toList_ofList, ← dots, List.takeWhile_append_dropWhile]
  · intro first
    have stopped := List.head?_dropWhile_not (· == '.') extension.toList
    rw [String.toList_ofList] at first
    simp [first] at stopped

theorem extensionTaken (c : Config) (value : Option String) :
    ∃ extension, c.withExtension value = { c with projectExtension := extension } ∧
      (value = none → extension = c.projectExtension) ∧ ∀ text, value = some text → Undotted text extension := by
  cases value with
  | none => exact ⟨c.projectExtension, rfl, fun _ => rfl, nofun⟩
  | some text => exact ⟨_, rfl, nofun, fun _ same => Option.some.inj same ▸ undotted text⟩

theorem overrideFails : (∃ e, c.override o = .error e) ↔
    (∃ line, o.buildCommand = some line ∧ Text.blank line.toList = true) ∨
    ∃ text, o.lockTimeout = some text ∧ ∀ d, Duration.read text.toList ≠ .ok d := by
  simp only [← ToolCommand.ofLineNone]
  rw [← commandRefused (c := c), override]
  cases taken : c.withCommand o.buildCommand with
  | error e => simp [bind, Except.bind]
  | ok c' => simpa [bind, Except.bind] using timeoutRefused (c := c'.withExtension o.projectExtension)

structure Overridden (o : Overrides) (c loaded : Config) : Prop where
  others : loaded = { c with
    buildCommand := loaded.buildCommand, projectExtension := loaded.projectExtension, lockTimeout := loaded.lockTimeout }
  commandKept : o.buildCommand = none → loaded.buildCommand = c.buildCommand
  command : ∀ line, o.buildCommand = some line → ToolCommand.ofLine? line = some loaded.buildCommand
  extensionKept : o.projectExtension = none → loaded.projectExtension = c.projectExtension
  extension : ∀ text, o.projectExtension = some text → Undotted text loaded.projectExtension
  timeoutKept : o.lockTimeout = none → loaded.lockTimeout = c.lockTimeout
  timeout : ∀ text, o.lockTimeout = some text → Duration.read text.toList = .ok loaded.lockTimeout

theorem overridden (taken : c.override o = .ok loaded) : Overridden o c loaded := by
  obtain ⟨first, command, timeout⟩ := Json.bindCases taken
  obtain ⟨own, rfl, commandKept, command⟩ := commandTaken command
  obtain ⟨_, second, extensionKept, extension⟩ :=
    extensionTaken { c with buildCommand := own } o.projectExtension
  simp only [second] at timeout
  obtain ⟨_, rfl, timeoutKept, timeout⟩ := timeoutTaken timeout
  exact ⟨rfl, commandKept, command, extensionKept, extension, timeoutKept, timeout⟩

theorem layeredOfFiled (filed : Filed members c) (overridden : Overridden (.ofVariables environment) c loaded) :
    Layered environment members loaded where
  command line set := ToolCommand.ofLineWorded (overridden.command line set)
  commandPassed none := by
    rw [overridden.commandKept none]
    exact ⟨filed.buildCommand, fun m inside same => ToolCommand.stated (filed.buildCommand.present m inside same)⟩
  extension := overridden.extension
  extensionPassed none := overridden.extensionKept none ▸ filed.projectExtension
  timeout := overridden.timeout
  timeoutPassed none := overridden.timeoutKept none ▸ filed.lockTimeout
  logExtension := by rw [overridden.others]; exact filed.logExtension
  logFileName := by rw [overridden.others]; exact filed.logFileName
  sentinelFileName := by rw [overridden.others]; exact filed.sentinelFileName
  lockFileName := by rw [overridden.others]; exact filed.lockFileName
  intermediateDirs := by rw [overridden.others]; exact filed.intermediateDirs
  logReadyTimeout := by rw [overridden.others]; exact filed.logReadyTimeout

theorem ofFileText {text : String} (read : fs.readText here path = .ok text) (accepted : ofFile fs here path = .ok c) :
    ofText text = .ok c := by
  simp only [ofFile, read] at accepted
  cases own : ofText text with
  | error e => simp [own, Except.mapError] at accepted
  | ok c' => simpa [own, Except.mapError] using accepted

theorem loadAccepted (accepted : ofFile fs here path = .ok c) (o : Overrides) :
    load fs here (some path) o = c.override o := by
  simp only [load, accepted, bind, Except.bind]

/-- A document that cannot be read or is no configuration is told whatever the variables are. Of
one that is a configuration and an object, loading fails only for a blank command line or a text
that is no span of time, and else every field comes from the text of its variable, the document,
or the defaults. -/
theorem fieldsLayered (fs : FileSystem) (here path : Path) (environment : Environment) :
    (∀ e, ofFile fs here path = .error e → load fs here (some path) (.ofVariables environment) = .error e) ∧
    ∀ text filed more, fs.readText here path = .ok text → ofFile fs here path = .ok filed →
      Json.skipSpace text.toList = '\x7b' :: more →
      ((∃ e, load fs here (some path) (.ofVariables environment) = .error e) ↔
        (∃ line, environment.text? commandVariable = some line ∧ Text.blank line.toList = true) ∨
        ∃ span, environment.text? timeoutVariable = some span ∧ ∀ d, Duration.read span.toList ≠ .ok d) ∧
      (∃ members, Document text members) ∧
      ∀ members, Document text members →
        ∀ c, load fs here (some path) (.ofVariables environment) = .ok c → Layered environment members c := by
  constructor
  · intro e refused
    simp only [load, refused, bind, Except.bind]
  · intro text c more read accepted opens
    obtain ⟨members, document, filed⟩ := ofTextFiled opens (ofFileText read accepted)
    rw [loadAccepted accepted]
    refine ⟨overrideFails, ⟨members, document⟩, fun members' document' loaded taken => ?_⟩
    rw [document'.unique document]
    exact layeredOfFiled filed (overridden taken)

def partialText : String :=
  " \x7b\"#\": [-1e3, \"\\ud800\"], \"build_command\": \x7b\"program\": \"make\"\x7d, \"project_extension\": \"kp\"\x7d"

def partialFiles : FileSystem := FileSystem.empty.create 0 "kiln.json" ⟨.file (bytesOf partialText), 0o644, 0⟩

def partialConfig : Config := { default with projectExtension := "kp", buildCommand := ⟨"make", []⟩ }

theorem partialRead : partialFiles.readText ⟨"/"⟩ ⟨"/kiln.json"⟩ = .ok partialText ∧
    ofFile partialFiles ⟨"/"⟩ ⟨"/kiln.json"⟩ = .ok partialConfig := by
  have evaluated : partialFiles.readBytes ⟨"/"⟩ ⟨"/kiln.json"⟩ = .ok (bytesOf partialText) ∧
      ofText partialText = .ok partialConfig := by decide +kernel
  obtain ⟨stored, read⟩ := evaluated
  have text : partialFiles.readText ⟨"/"⟩ ⟨"/kiln.json"⟩ = .ok partialText := by
    rw [FileSystem.readTextOf stored, FileSystem.textOfBytes]
  exact ⟨text, by simp only [ofFile, text, read, Except.mapError]⟩

theorem partialLoaded :
    (∃ members, Document partialText members ∧ Layered (.ofTexts [(extensionVariable, "..k.proj")]) members
      { partialConfig with projectExtension := "k.proj" }) ∧
    (∃ e, load partialFiles ⟨"/"⟩ (some ⟨"/kiln.json"⟩) (.ofVariables (.ofTexts [(timeoutVariable, "soon")])) = .error e) ∧
    ∃ e, load .empty ⟨"/"⟩ (some ⟨"/kiln.json"⟩) (.ofVariables (.ofTexts [(commandVariable, "")])) =
      .error (.read ⟨"/kiln.json"⟩ e) := by
  have opens : Json.skipSpace partialText.toList = '\x7b' :: partialText.toList.drop 2 := by decide +kernel
  have layers (environment : Environment) :=
    (fieldsLayered partialFiles ⟨"/"⟩ ⟨"/kiln.json"⟩ environment).2 _ _ _ partialRead.1 partialRead.2 opens
  refine ⟨?_, ?_, ?_⟩
  · have loaded : load partialFiles ⟨"/"⟩ (some ⟨"/kiln.json"⟩)
        (.ofVariables (.ofTexts [(extensionVariable, "..k.proj")])) =
          .ok { partialConfig with projectExtension := "k.proj" } := by
      rw [loadAccepted partialRead.2]
      decide +kernel
    obtain ⟨members, document⟩ := (layers (.ofTexts [(extensionVariable, "..k.proj")])).2.1
    exact ⟨members, document, (layers _).2.2 members document _ loaded⟩
  · have wrong : Duration.read "soon".toList = .error (.numberExpected 0) := by decide +kernel
    exact (layers (.ofTexts [(timeoutVariable, "soon")])).1.mpr
      (.inr ⟨"soon", by decide +kernel, fun d => by rw [wrong]; nofun⟩)
  · have missing : ofFile .empty ⟨"/"⟩ ⟨"/kiln.json"⟩ = .error (.read ⟨"/kiln.json"⟩ (.host .noEntry)) := by decide +kernel
    exact ⟨_, (fieldsLayered .empty ⟨"/"⟩ ⟨"/kiln.json"⟩ (.ofTexts [(commandVariable, "")])).1 _ missing⟩

def unreadable : Environment := ⟨[(timeoutVariable, [0xff])]⟩

theorem unreadablePassed :
    ofFile partialFiles ⟨"/"⟩ ⟨"/kiln.json"⟩ = .ok partialConfig ∧
    unreadable.value? timeoutVariable = some [0xff] ∧
    (∀ span d, Duration.read span.toList = .ok d → bytesOf span ≠ [0xff]) ∧
    load partialFiles ⟨"/"⟩ (some ⟨"/kiln.json"⟩) (.ofVariables unreadable) = .ok partialConfig := by
  refine ⟨partialRead.2, by decide, fun span d _ same => ?_, ?_⟩
  · have decoded := Utf8.decodeEncode span.toList
    have undecoded : Utf8.decode? [0xff] = none := by decide
    rw [← bytesOf, same, undecoded] at decoded
    cases decoded
  · rw [loadAccepted partialRead.2]
    decide +kernel

end Config
end BuildReuse
