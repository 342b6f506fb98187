import BuildReuse.Config.Load
import BuildReuse.Proofs.Duration.Printed
import BuildReuse.Proofs.FileSystem.Stored
import BuildReuse.Proofs.Json.Record

/-! A configuration that was written to a file is loaded again, whatever its texts, lists and
time-outs are. -/
namespace BuildReuse

open Json (Written Layout)

variable (layout : Layout) (depth : Nat)

theorem textsWritten (texts : List String) :
    Written (Json.readList Json.readText) (Json.print layout depth (.ofTexts texts)) texts :=
  Json.listWritten layout depth (fun _ => Json.textWritten) texts

theorem ToolCommand.commandWritten (c : ToolCommand) :
    Written ToolCommand.record.read (Json.print layout depth c.toJson) c :=
  Json.Record.objectWritten
    (.next rfl rfl (Json.Field.written (Json.textWritten c.program) ..)
      (.next rfl rfl (Json.Field.written (textsWritten layout (depth + 1) c.args) ..) .done)) rfl

namespace Config

theorem durationWritten (d : Duration) : Written readDuration (Json.print layout depth (.text d.text)) d where
  opens := (Json.textWritten d.text).opens
  blank input := by rw [readDuration, (Json.textWritten d.text).blank, readDuration]
  whole rest stops := by
    have read : Duration.read d.text.toList = .ok d := by
      rw [Duration.text, String.toList_ofList, Duration.readPrint]
    have text := (Json.textWritten d.text).whole rest stops
    simp only [readDuration, Json.print, text, bind, Except.bind, read]
  cut part inside := by
    left
    simp only [readDuration, Json.readTextCut inside, bind, Except.bind]

theorem configWritten (c : Config) : Written record.read (Json.print layout depth c.toJson) c :=
  Json.Record.objectWritten
    (.next rfl rfl (Json.Field.written (Json.textWritten c.projectExtension) ..)
      (.next rfl rfl (Json.Field.written (Json.textWritten c.logExtension) ..)
        (.next rfl rfl (Json.Field.written (Json.textWritten c.logFileName) ..)
          (.next rfl rfl (Json.Field.written (Json.textWritten c.sentinelFileName) ..)
            (.next rfl rfl (Json.Field.written (Json.textWritten c.lockFileName) ..)
              (.next rfl rfl (Json.Field.written (textsWritten layout (depth + 1) c.intermediateDirs) ..)
                (.next rfl rfl (Json.Field.written (c.buildCommand.commandWritten layout (depth + 1)) ..)
                  (.next rfl rfl (Json.Field.written (durationWritten layout (depth + 1) c.lockTimeout) ..)
                    (.next rfl rfl (Json.Field.written (durationWritten layout (depth + 1) c.logReadyTimeout) ..)
                      .done))))))))) rfl

variable {layout}

theorem ofTextWritten (c : Config) : ofText (c.toJson.render layout) = .ok c := by
  rw [ofText, Json.render, String.toList_ofList]
  exact Json.readDocumentWhole (configWritten layout 0 c)

def written (layout : Layout) (c : Config) : Bytes := bytesOf (c.toJson.render layout)

variable {fs fs' : FileSystem} {here path : Path}

theorem ofFileWritten {c : Config} (holds : fs.readBytes here path = .ok (written layout c)) :
    ofFile fs here path = .ok c := by
  simp only [ofFile, FileSystem.readTextOf holds, written, FileSystem.textOfBytes, ofTextWritten, Except.mapError]

theorem overrideUnset (c : Config) {environment : Environment}
    (unset : ∀ name ∈ [commandVariable, extensionVariable, timeoutVariable], environment.text? name = none) :
    c.override (.ofVariables environment) = .ok c := by
  have command := unset commandVariable (by simp)
  have extension := unset extensionVariable (by simp)
  have timeout := unset timeoutVariable (by simp)
  simp only [override, Overrides.ofVariables, command, extension, timeout, withCommand, withExtension, withTimeout,
    bind, Except.bind]

theorem writtenLoaded (layout : Layout) (c : Config) (here path : Path) (environment : Environment)
    (unset : ∀ name ∈ [commandVariable, extensionVariable, timeoutVariable], environment.text? name = none) :
    (∀ fs : FileSystem, fs.readBytes here path = .ok (written layout c) →
      load fs here (some path) (.ofVariables environment) = .ok c) ∧
    ∀ (fs fs' : FileSystem) now, (∀ T, fs.find here path = .ok T → fs.isFile T.node = true) →
      fs.writeFile here path (written layout c) now = .ok fs' →
      load fs' here (some path) (.ofVariables environment) = .ok c := by
  have loads (fs : FileSystem) (holds : fs.readBytes here path = .ok (written layout c)) :
      load fs here (some path) (.ofVariables environment) = .ok c := by
    simp only [load, ofFileWritten holds, bind, Except.bind, overrideUnset c unset]
  exact ⟨loads, fun fs fs' now file stored => loads fs' (FileSystem.readWritten file stored)⟩

def unusual : Config where
  projectExtension := "k\"\\\n\x01é"
  logExtension := ""
  logFileName := "\x7blog\x7d"
  sentinelFileName := "/"
  lockFileName := "\u2028"
  intermediateDirs := ["", "obj", "obj"]
  buildCommand := ⟨"", []⟩
  lockTimeout := ⟨0xFFFFFFFFFFFFFFFF, 999999999, by decide, by decide⟩
  logReadyTimeout := .zero

theorem unusualLoaded : ∃ fs',
    FileSystem.empty.writeFile ⟨"/"⟩ ⟨"/kiln.json"⟩ (written .lines unusual) 0 = .ok fs' ∧
    load fs' ⟨"/"⟩ (some ⟨"/kiln.json"⟩) (.ofVariables (.ofTexts [("HOME", "/")])) = .ok unusual := by
  have opened : FileSystem.empty.openFile ⟨"/"⟩ ⟨"/kiln.json"⟩ 0 =
      .ok (FileSystem.empty.create 0 "kiln.json" ⟨.file [], 0o644, 0⟩, 1) := by decide +kernel
  have nothing : (FileSystem.empty.find ⟨"/"⟩ ⟨"/kiln.json"⟩).toOption = none := by decide +kernel
  have file : ∀ T, FileSystem.empty.find ⟨"/"⟩ ⟨"/kiln.json"⟩ = .ok T → FileSystem.empty.isFile T.node = true := by
    intro T found
    rw [found] at nothing
    cases nothing
  have stored : FileSystem.empty.writeFile ⟨"/"⟩ ⟨"/kiln.json"⟩ (written .lines unusual) 0 =
      .ok ((FileSystem.empty.create 0 "kiln.json" ⟨.file [], 0o644, 0⟩).writeNode 1 (written .lines unusual) 0) := by
    rw [FileSystem.writeFile, opened]
    rfl
  exact ⟨_, stored, (writtenLoaded .lines unusual ⟨"/"⟩ ⟨"/kiln.json"⟩ [("HOME", "/")] (by decide)).2
    _ _ 0 file stored⟩

end Config
end BuildReuse
