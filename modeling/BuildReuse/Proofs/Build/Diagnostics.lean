import BuildReuse.Build.Tool
import BuildReuse.Proofs.Text.Lines

/-! The diagnostics of a failed run are the text of one stream, with the ends of its lines made
alike. Nothing else of it is lost, so they say something wherever a stream does. -/
namespace BuildReuse.ToolOutput

open Text (blank unbroken withoutLastFeed substitute returnFeed)

theorem diagnosticsOf (o : ToolOutput) :
    o.diagnostics.toList = Text.joinLines (Text.lines o.report) := String.toList_ofList

theorem reportBlank (o : ToolOutput) :
    blank o.report = true ↔ blank o.stdout.toList = true ∧ blank o.stderr.toList = true := by
  unfold report
  split
  · next quiet => simp [quiet]
  · next loud => simp [loud]

/-- The error stream counts unless it is blank. Its returns and feeds may go, every other character
comes out, in order; and of these, only a return right before a feed and the last feed go. -/
theorem diagnosticsWhole (o : ToolOutput) :
    (blank o.diagnostics.toList = true ↔ blank o.stdout.toList = true ∧ blank o.stderr.toList = true) ∧
    unbroken o.diagnostics.toList =
      unbroken (if blank o.stderr.toList = true then o.stdout.toList else o.stderr.toList) ∧
    o.diagnostics.toList = withoutLastFeed (substitute returnFeed ['\n']
      (if blank o.stderr.toList = true then o.stdout.toList else o.stderr.toList)) := by
  rw [diagnosticsOf]
  refine ⟨?_, ?_, ?_⟩
  · rw [Text.blankJoined, reportBlank]
  · exact Text.unbrokenJoined o.report
  · exact Text.joinedLines o.report

example : diagnostics ⟨some 1, "progress", "\ra\r\n\n\u2003b\r\r\n\r"⟩ = "\ra\n\n\u2003b\r\n\r" := by decide

example : diagnostics ⟨none, "done\r\n", "\u2028\r\n"⟩ = "done" := by decide

end BuildReuse.ToolOutput
