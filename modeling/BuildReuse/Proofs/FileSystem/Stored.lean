import BuildReuse.Proofs.FileSystem.Walks
import BuildReuse.Proofs.Text.Utf8

/-! What was written to a file is read there. -/
namespace BuildReuse.FileSystem

variable {fs fs' : FileSystem} {here path : Path} {now : Int}

theorem textOfBytes (text : String) : textOf (bytesOf text) = .ok text := by
  rw [textOf, bytesOf, Utf8.decodeEncode]
  exact congrArg Except.ok String.ofList_toList

theorem readTextOf {bytes : Bytes} (content : fs.readBytes here path = .ok bytes) :
    fs.readText here path = textOf bytes := by
  simp only [readText, content, bind, Except.bind]

theorem openFileFinds {n : Nat} (opened : fs.openFile here path now = .ok (fs', n)) :
    ∃ T : Trail, fs'.find here path = .ok T ∧ T.node = n ∧
      (fs.find here path = .ok T ∧ fs' = fs ∨ fs'.isFile n = true) := by
  obtain ⟨-, leads⟩ := openFileLeads opened
  unfold openFile at opened
  split at opened
  case isTrue =>
    cases located : fs.locate here true path.withoutFinalSlash <;> simp [located, bind, Except.bind] at opened
  case isFalse =>
    cases located : fs.locate here false path with
    | error e => simp [located, bind, Except.bind] at opened
    | ok spot =>
      simp only [located, bind, Except.bind] at opened
      cases spot with
      | present trail =>
        simp only at opened
        split at opened
        · cases opened
        · cases opened
          have found := findLocate.mpr located
          exact ⟨trail, found, rfl, .inl ⟨found, rfl⟩⟩
      | absent d name =>
        simp only [Except.ok.injEq, Prod.mk.injEq] at opened
        obtain ⟨rfl, rfl⟩ := opened
        unfold FileSystem.leads at leads
        split at leads
        case h_2 => cases leads
        case h_1 T walked =>
          obtain ⟨es, at?, missing⟩ := walkAbsent _ _ _ (locateWalk located)
          have other : fs.nodes.size ≠ d.node := Nat.ne_of_gt (contentInside at?)
          have made := contentCreate at? name ⟨.file [], 0o644, now⟩ fs.nodes.size
          rw [if_neg other, if_pos rfl] at made
          exact ⟨T, findLocate.mpr (locateOf located (walksOf _ _ _ walked)), Option.some.inj leads,
            .inr (isFileIff.mpr ⟨_, made⟩)⟩

theorem readWritten {bytes : Bytes} (file : ∀ T, fs.find here path = .ok T → fs.isFile T.node = true)
    (written : fs.writeFile here path bytes now = .ok fs') : fs'.readBytes here path = .ok bytes := by
  cases opened : fs.openFile here path now with
  | error e => simp [writeFile, opened, bind, Except.bind] at written
  | ok result =>
    obtain ⟨fs₁, n⟩ := result
    simp only [writeFile, opened, bind, Except.bind, Except.ok.injEq] at written
    obtain ⟨T, found, rfl, origin⟩ := openFileFinds opened
    have isFile : fs₁.isFile T.node = true := by
      rcases origin with ⟨before, same⟩ | new
      · rw [same]
        exact file T before
      · exact new
    have content : fs'.content? T.node = some (.file bytes) := by
      rw [← written, contentWriteNode, if_pos ⟨rfl, isFile⟩]
    have still : fs'.find here path = .ok T := findGrown (written ▸ grownWriteNode ..) found
    simp only [readBytes, still, bind, Except.bind, readNode, content]

end BuildReuse.FileSystem
