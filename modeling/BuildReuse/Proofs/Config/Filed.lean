import BuildReuse.Config
import BuildReuse.Proofs.Json.Taken

/-! What a configuration takes from a document that is an object: each field the value of the
member with its name, and its default if there is none. Other members, and their order, make no
difference. -/
namespace BuildReuse

open Json (Member Object Given Delimits Field)

namespace ToolCommand

variable {input rest : List Char} {command : ToolCommand}

theorem delimited : record.Delimited := by
  simp [Json.Record.Delimited, record, Field.delimits, Json.textDelimits, Json.listDelimits]

def readPresent : Json.Reader (Option String) := fun input =>
  (Json.readText input).map fun (program, rest) => (some program, rest)

theorem presentCases {program : Option String} (read : readPresent input = .ok (program, rest)) :
    ∃ text, Json.readText input = .ok (text, rest) ∧ program = some text := by
  obtain ⟨⟨text, behind⟩, held, whole⟩ := Json.mapCases read
  cases whole
  exact ⟨text, held, rfl⟩

theorem programSets (name : String) :
    (Json.field name Json.readText fun (d : Draft) program => { d with program := some program }).Sets
      Draft.program readPresent := by
  intro draft input next rest read
  obtain ⟨⟨text, behind⟩, held, whole⟩ := Json.mapCases read
  cases whole
  rw [readPresent, held]
  rfl

structure Stated (input : List Char) (command : ToolCommand) : Prop where
  object : ∀ members rest, Object input members rest →
    (∃ m ∈ members, m.name = "program" ∧ Json.readText m.value = .ok (command.program, m.behind)) ∧
    Given members "args" (Json.readList Json.readText) [] command.args
  alone : ∀ more program after rest, Json.skipSpace input = '[' :: more →
    Json.readText more = .ok (program, after) → Json.skipSpace after = ']' :: rest → command = ⟨program, []⟩

theorem finishCases {draft : Draft} (finished : record.finish draft = some command) :
    draft.program = some command.program ∧ draft.args = command.args := by
  obtain ⟨program, given, rfl⟩ := Option.map_eq_some_iff.mp finished
  exact ⟨given, rfl⟩

theorem statedObject {members : List Member} {behind : List Char} (read : record.read input = .ok (command, rest))
    (object : Object input members behind) :
    (∃ m ∈ members, m.name = "program" ∧ Json.readText m.value = .ok (command.program, m.behind)) ∧
    Given members "args" (Json.readList Json.readText) [] command.args := by
  obtain ⟨more, opens⟩ := object.opens
  obtain ⟨members', last, object', takes, finished⟩ := Json.Record.readTakes delimited opens read
  obtain ⟨rfl, rfl⟩ := object.unique object'
  obtain ⟨program, args⟩ := finishCases finished
  have named : Given members "program" readPresent none last.program :=
    takes.given rfl (programSets ..) (by simp [record, Field.keeps])
  have others : Given members "args" (Json.readList Json.readText) record.draft.args last.args :=
    takes.given rfl (Field.sets (fun _ _ => rfl) ..) (by simp [record, Field.keeps])
  refine ⟨?_, args ▸ others⟩
  by_cases given : ∃ m ∈ members, m.name = "program"
  · obtain ⟨m, inside, same⟩ := given
    obtain ⟨text, held, whole⟩ := presentCases (named.present m inside same)
    cases program.symm.trans whole
    exact ⟨m, inside, same, held⟩
  · have absent := named.absent fun m inside same => given ⟨m, inside, same⟩
    cases program.symm.trans absent

theorem readAlone {more after behind : List Char} {program : String} (seen : Json.skipSpace input = '[' :: more)
    (first : Json.readText more = .ok (program, after)) (closed : Json.skipSpace after = ']' :: behind) :
    record.read input = .ok (⟨program, []⟩, behind) := by
  have again : Json.readText (Json.skipSpace more) = .ok (program, after) := by
    simpa only [Json.readText, Json.skipSpaceTwice] using first
  have opens : ∃ quoted, Json.skipSpace more = '"' :: quoted := by
    revert first
    fun_cases Json.readText more
    case case1 quoted seen => exact fun _ => ⟨quoted, seen⟩
    case case2 => rintro ⟨⟩
  obtain ⟨quoted, opens⟩ := opens
  simp [Json.Record.read, seen, Json.Record.readSequence, record, opens, opens ▸ again, Json.field,
    Except.map, bind, Except.bind, Json.Record.readElements, closed, Json.Record.close]

theorem stated (read : record.read input = .ok (command, rest)) : Stated input command where
  object _ _ object := statedObject read object
  alone _ _ _ _ seen first closed := by
    cases read.symm.trans (readAlone seen first closed)
    rfl

end ToolCommand

namespace Config

theorem durationDelimits : Delimits readDuration := by
  intro input d rest read
  obtain ⟨⟨raw, behind⟩, text, read⟩ := Json.bindCases read
  simp only at read
  split at read
  case h_1 =>
    cases read
    exact Json.textDelimits text
  case h_2 => cases read

theorem delimited : record.Delimited := by
  simp [Json.Record.Delimited, record, Field.delimits, Json.textDelimits, Json.listDelimits, durationDelimits,
    Json.Record.delimits ToolCommand.delimited]

structure Filed (members : List Member) (c : Config) : Prop where
  projectExtension : Given members "project_extension" Json.readText Config.default.projectExtension c.projectExtension
  logExtension : Given members "build_log_extension" Json.readText Config.default.logExtension c.logExtension
  logFileName : Given members "build_log_file_name" Json.readText Config.default.logFileName c.logFileName
  sentinelFileName : Given members "sentinel_file_name" Json.readText Config.default.sentinelFileName c.sentinelFileName
  lockFileName : Given members "lock_file_name" Json.readText Config.default.lockFileName c.lockFileName
  intermediateDirs :
    Given members "intermediate_dirs" (Json.readList Json.readText) Config.default.intermediateDirs c.intermediateDirs
  buildCommand : Given members "build_command" ToolCommand.record.read Config.default.buildCommand c.buildCommand
  lockTimeout : Given members "lock_timeout" readDuration Config.default.lockTimeout c.lockTimeout
  logReadyTimeout : Given members "log_ready_timeout" readDuration Config.default.logReadyTimeout c.logReadyTimeout

theorem filed {members : List Member} {c : Config} (takes : record.Takes [] .default members c) : Filed members c where
  projectExtension := takes.given rfl (Field.sets (fun _ _ => rfl) ..) (by simp [record, Field.keeps])
  logExtension := takes.given rfl (Field.sets (fun _ _ => rfl) ..) (by simp [record, Field.keeps])
  logFileName := takes.given rfl (Field.sets (fun _ _ => rfl) ..) (by simp [record, Field.keeps])
  sentinelFileName := takes.given rfl (Field.sets (fun _ _ => rfl) ..) (by simp [record, Field.keeps])
  lockFileName := takes.given rfl (Field.sets (fun _ _ => rfl) ..) (by simp [record, Field.keeps])
  intermediateDirs := takes.given rfl (Field.sets (fun _ _ => rfl) ..) (by simp [record, Field.keeps])
  buildCommand := takes.given rfl (Field.sets (fun _ _ => rfl) ..) (by simp [record, Field.keeps])
  lockTimeout := takes.given rfl (Field.sets (fun _ _ => rfl) ..) (by simp [record, Field.keeps])
  logReadyTimeout := takes.given rfl (Field.sets (fun _ _ => rfl) ..) (by simp [record, Field.keeps])

def Document (text : String) (members : List Member) : Prop :=
  ∃ rest, Object text.toList members rest ∧ Json.skipSpace rest = []

theorem Document.unique {text : String} {members members' : List Member} (first : Document text members)
    (second : Document text members') : members = members' := by
  obtain ⟨_, object, _⟩ := first
  obtain ⟨_, object', _⟩ := second
  exact (object.unique object').1

theorem ofTextFiled {text : String} {c : Config} {more : List Char} (opens : Json.skipSpace text.toList = '\x7b' :: more)
    (read : ofText text = .ok c) : ∃ members, Document text members ∧ Filed members c := by
  obtain ⟨⟨c', rest⟩, object, closed⟩ := Json.bindCases read
  simp only at closed
  split at closed
  case isTrue ended =>
    cases closed
    obtain ⟨members, last, object, takes, finished⟩ := Json.Record.readTakes delimited opens object
    cases finished
    exact ⟨members, ⟨rest, object, List.isEmpty_iff.mp ended⟩, filed takes⟩
  case isFalse => cases closed

end Config
end BuildReuse
