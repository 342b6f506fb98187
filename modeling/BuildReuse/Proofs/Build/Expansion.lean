import BuildReuse.Build.Tool
import BuildReuse.Proofs.Text.Substitution

/-! The arguments of a build tool. The project is put in first and the log afterwards, so what a
path brings along is looked at once more. The two marks are replaced at once exactly if the path
brings no mark of the log along. -/
namespace BuildReuse.ToolCommand

open Text (Piece Reads substitute count)

def marks : List (List Char) := [projectMark.toList, logMark.toList]

def projectText (request : ToolRequest) : List Char :=
  (request.projectFile.map fun p => p.text.toList).getD []

def halfway (request : ToolRequest) : Piece → List Char
  | .mark m => if m = projectMark.toList then projectText request else m
  | .plain c => [c]

def meaning (request : ToolRequest) : Piece → List Char
  | .mark m =>
    if m = projectMark.toList then projectText request
    else if m = logMark.toList then request.logFileName.toList else m
  | .plain c => [c]

def Kept (request : ToolRequest) (arg : String) : Prop :=
  request.projectFile.isSome = true ∨ ¬ projectMark.toList <:+: arg.toList

instance (request : ToolRequest) (arg : String) : Decidable (Kept request arg) := by
  unfold Kept
  infer_instance

structure Expands (request : ToolRequest) (arg text : String) (pieces : List Piece) : Prop where
  reads : Reads marks arg.toList pieces
  only : ∀ others, Reads marks arg.toList others → others = pieces
  inTurn : text.toList =
    substitute logMark.toList request.logFileName.toList (pieces.flatMap (halfway request))
  atOnce : text.toList = pieces.flatMap (meaning request) ↔ request.logFileName = logMark ∨
    count logMark.toList (pieces.flatMap (halfway request)) = count logMark.toList arg.toList
  unbraced : ∀ file, request.projectFile = some file → file.isAbsolute = true → '\x7b' ∉ file.text.toList →
    text.toList = pieces.flatMap (meaning request)

variable {request : ToolRequest} {arg : String} {text rest : List Char} {pieces : List Piece}

theorem projectMarkOpens : projectMark.toList = '\x7b' :: "project\x7d".toList := by decide

theorem logMarkOpens : logMark.toList = '\x7b' :: "log\x7d".toList := by decide

theorem projectOnce : '\x7b' ∉ "project\x7d".toList := by decide

theorem logOnce : '\x7b' ∉ "log\x7d".toList := by decide

theorem logAside (rest : List Char) : ¬ projectMark.toList <+: logMark.toList ++ rest := by
  simp [projectMark, logMark, List.cons_prefix_cons]

theorem projectAside (rest : List Char) : ¬ logMark.toList <+: projectMark.toList ++ rest := by
  simp [projectMark, logMark, List.cons_prefix_cons]

theorem marksFilled : ∀ m ∈ marks, m ≠ [] := by decide

theorem marksApart : ∀ m ∈ marks, ∀ n ∈ marks, m <+: n → m = n := by decide

theorem substituteOverLog {new : List Char} (rest : List Char) :
    substitute projectMark.toList new (logMark.toList ++ rest) =
      logMark.toList ++ substitute projectMark.toList new rest := by
  have aside := logAside rest
  rw [logMarkOpens, List.cons_append] at aside ⊢
  rw [Text.substituteOther aside, projectMarkOpens, Text.substituteBefore logOnce, List.cons_append]

theorem countOverProject (rest : List Char) :
    count logMark.toList (projectMark.toList ++ rest) = count logMark.toList rest := by
  have aside := projectAside rest
  rw [projectMarkOpens, List.cons_append] at aside ⊢
  rw [Text.countOther aside, logMarkOpens, Text.countBefore projectOnce]

theorem countLog (rest : List Char) :
    count logMark.toList (logMark.toList ++ rest) = count logMark.toList rest + 1 := by
  rw [logMarkOpens, Text.countFound logOnce]

theorem ofMarks {m : List Char} (known : m ∈ marks) : m = projectMark.toList ∨ m = logMark.toList := by
  simpa [marks] using known

theorem readsHalfway (request : ToolRequest) (reads : Reads marks text pieces) :
    substitute projectMark.toList (projectText request) text = pieces.flatMap (halfway request) := by
  induction reads with
  | done => rfl
  | @mark m rest pieces known onward ih =>
    rw [List.flatMap_cons, ← ih]
    rcases ofMarks known with rfl | rfl
    · rw [Text.substituteFound (marksFilled _ known), halfway, if_pos rfl]
    · rw [substituteOverLog, halfway, if_neg (by decide)]
  | @plain c rest pieces other onward ih =>
    rw [List.flatMap_cons, ← ih, Text.substituteOther (other _ List.mem_cons_self)]
    rfl

theorem readsCount (reads : Reads marks text pieces) :
    pieces.count (.mark logMark.toList) = count logMark.toList text := by
  induction reads with
  | done => rfl
  | @mark m rest pieces known onward ih =>
    rcases ofMarks known with rfl | rfl
    · rw [countOverProject, List.count_cons_of_ne (by decide), ih]
    · rw [countLog, List.count_cons_self, ih]
  | @plain c rest pieces other onward ih =>
    rw [Text.countOther (other _ (by simp [marks])), List.count_cons_of_ne (by simp), ih]

theorem meaningInstead (request : ToolRequest) :
    Text.instead logMark.toList request.logFileName.toList (halfway request) = meaning request := by
  have apart : logMark.toList ≠ projectMark.toList := by decide
  funext piece
  cases piece with
  | plain c => simp [Text.instead, halfway, meaning]
  | mark m =>
    by_cases log : m = logMark.toList
    · simp [Text.instead, meaning, log, apart]
    · simp [Text.instead, halfway, meaning, log]

theorem halfwayBegins {file : Path} (named : request.projectFile = some file) (absolute : file.isAbsolute = true)
    (reads : Reads marks text pieces) {part : List Char} (plain : ∀ c ∈ part, c ≠ '/' ∧ c ≠ '\x7b')
    (begins : part <+: pieces.flatMap (halfway request)) : part <+: text := by
  induction reads generalizing part with
  | done => exact begins
  | @mark m rest pieces known onward ih =>
    cases part with
    | nil => exact List.nil_prefix
    | cons c part =>
      obtain ⟨slash, brace⟩ := plain c List.mem_cons_self
      rcases ofMarks known with rfl | rfl
      · obtain ⟨path, slashed⟩ : ∃ path, file.text.toList = '/' :: path := by
          simpa [Path.isAbsolute, List.head?_eq_some_iff] using absolute
        rw [List.flatMap_cons, halfway, if_pos rfl, projectText, named, Option.map_some, Option.getD_some, slashed,
          List.cons_append, List.cons_prefix_cons] at begins
        exact absurd begins.1 slash
      · rw [List.flatMap_cons, halfway, if_neg (by decide), logMarkOpens, List.cons_append,
          List.cons_prefix_cons] at begins
        exact absurd begins.1 brace
  | @plain d rest pieces other onward ih =>
    cases part with
    | nil => exact List.nil_prefix
    | cons c part =>
      rw [List.flatMap_cons, halfway, List.singleton_append, List.cons_prefix_cons] at begins
      rw [List.cons_prefix_cons]
      exact ⟨begins.1, ih (fun c inside => plain c (List.mem_cons_of_mem _ inside)) begins.2⟩

theorem absoluteAtOnce {file : Path} (named : request.projectFile = some file) (absolute : file.isAbsolute = true)
    (unbraced : '\x7b' ∉ file.text.toList) (reads : Reads marks text pieces) :
    count logMark.toList (pieces.flatMap (halfway request)) = count logMark.toList text := by
  induction reads with
  | done => rfl
  | @mark m rest pieces known onward ih =>
    rcases ofMarks known with rfl | rfl
    · rw [List.flatMap_cons, halfway, if_pos rfl, projectText, named, Option.map_some, Option.getD_some,
        countOverProject, ← ih, logMarkOpens, Text.countBefore unbraced]
    · rw [List.flatMap_cons, halfway, if_neg (by decide), countLog, countLog, ih]
  | @plain c rest pieces other onward ih =>
    have other := other _ (show logMark.toList ∈ marks by simp [marks])
    have still : ¬ logMark.toList <+: c :: pieces.flatMap (halfway request) := by
      intro begins
      rw [logMarkOpens, List.cons_prefix_cons] at begins
      refine other ?_
      rw [logMarkOpens, List.cons_prefix_cons]
      exact ⟨begins.1, halfwayBegins named absolute onward (by simp) begins.2⟩
    rw [List.flatMap_cons, halfway, List.singleton_append, Text.countOther still, Text.countOther other, ih]

theorem expandKept (kept : Kept request arg) : expandArg request arg =
    some (String.ofList (substitute logMark.toList request.logFileName.toList
      (substitute projectMark.toList (projectText request) arg.toList))) := by
  cases mentioned : Text.occurs projectMark.toList arg.toList with
  | false => simp [expandArg, mentioned, Text.substituteAbsent mentioned]
  | true =>
    have some : request.projectFile.isSome = true :=
      kept.resolve_right (not_not_intro (Text.occursIff.mp mentioned))
    obtain ⟨p, file⟩ := Option.isSome_iff_exists.mp some
    simp [expandArg, mentioned, file, projectText]

theorem expandLeft (left : ¬ Kept request arg) : expandArg request arg = none := by
  simp only [Kept, not_or, Bool.not_eq_true, Option.isSome_eq_false_iff, Option.isNone_iff_eq_none, not_not] at left
  simp [expandArg, Text.occursIff.mpr left.2, left.1]

theorem argumentExpands (kept : Kept request arg) :
    ∃ text, expandArg request arg = some text ∧ ∃ pieces, Expands request arg text pieces := by
  obtain ⟨pieces, reads⟩ := Text.readsExist marksFilled arg.toList
  have inTurn := readsHalfway request reads
  have own : halfway request (.mark ('\x7b' :: "log\x7d".toList)) = '\x7b' :: "log\x7d".toList := by
    rw [halfway, if_neg (by decide)]
  have once := Text.substituteInstead logOnce own request.logFileName.toList pieces
  rw [← logMarkOpens, meaningInstead, readsCount reads, String.toList_inj] at once
  refine ⟨_, expandKept kept, pieces, reads, fun others => reads.unique marksFilled marksApart, ?_, ?_,
    fun file named absolute unbraced => ?_⟩ <;> rw [String.toList_ofList, inTurn]
  · exact once
  · exact once.mpr (.inr (absoluteAtOnce named absolute unbraced reads))

/-- The arguments that are kept come out one for one and in order. -/
theorem argumentsExpanded (c : ToolCommand) (request : ToolRequest) :
    List.Forall₂ (fun arg text => ∃ pieces, Expands request arg text pieces)
      (c.args.filter fun arg => Kept request arg) (c.expand request) := by
  unfold expand
  induction c.args with
  | nil => exact .nil
  | cons arg args ih =>
    by_cases kept : Kept request arg
    · obtain ⟨text, expanded, expands⟩ := argumentExpands kept
      rw [List.filter_cons_of_pos (by simpa using kept), List.filterMap_cons_some expanded]
      exact .cons expands ih
    · rw [List.filter_cons_of_neg (by simpa using kept), List.filterMap_cons_none (expandLeft kept)]
      exact ih

theorem bracedPathRewritten :
    let path : Path := ⟨"/w/\x7blog\x7d/app.kproj"⟩
    let request : ToolRequest := ⟨⟨"/w"⟩, some path, "full.buildlog"⟩
    Reads marks projectMark.toList [.mark projectMark.toList] ∧
      [Piece.mark projectMark.toList].flatMap (meaning request) = path.text.toList ∧
      expand ⟨"tool", [projectMark]⟩ request = ["/w/full.buildlog/app.kproj"] ∧
      "/w/full.buildlog/app.kproj" ≠ path.text := by
  intro path request
  have reads : Reads marks (projectMark.toList ++ []) [.mark projectMark.toList] := .mark (by decide) .done
  rw [List.append_nil] at reads
  exact ⟨reads, by decide, by decide, by decide⟩

end BuildReuse.ToolCommand
