import BuildReuse.Json.Record
import BuildReuse.Proofs.Json.List

/-! Written records are read back. Of a record that was cut off the reader says that the
text ends too early, whatever was cut: a bracket, a space, a name, a colon or a value. -/
namespace BuildReuse.Json

variable {α : Type}

namespace Field

theorem written {δ : Type} {reader : Reader α} {text : List Char} {value : α}
    (written : Written reader text value) (name : String) (set : δ → α → δ) (draft : δ) :
    Written ((field name reader set).read draft) text (set draft value) :=
  written.map (set draft)

end Field

namespace Record

variable {δ : Type}

inductive Fills (r : Record δ α) (layout : Layout) (depth : Nat) :
    List String → δ → List (String × Json) → δ → Prop where
  | done {seen draft} : Fills r layout depth seen draft [] draft
  | next {seen draft name json members f next last}
      (found : (r.fields.find? fun f => f.name == name) = some f) (fresh : seen.contains name = false)
      (written : Written (f.read draft) (print layout depth json) next)
      (onward : Fills r layout depth (name :: seen) next members last) :
      Fills r layout depth seen draft ((name, json) :: members) last

def memberText (layout : Layout) (depth : Nat) (name : String) (json : Json) : List Char :=
  name.toList.flatMap escape ++ '"' :: (layout.colon ++ print layout depth json)

theorem printMember (layout : Layout) (depth : Nat) (name : String) (json : Json)
    (members : List (String × Json)) : printMembers layout depth ((name, json) :: members) =
      ',' :: (layout.before depth ++ '"' ::
        (memberText layout depth name json ++ printMembers layout depth members)) := by
  simp only [printMembers, memberText, quoted, List.cons_append, List.append_assoc, List.nil_append]

theorem colonBlank (layout : Layout) : ∃ space, Blank space ∧ layout.colon = ':' :: space := by
  cases layout with
  | compact => exact ⟨[], nofun, rfl⟩
  | lines => exact ⟨[' '], fun c inside => List.mem_singleton.mp inside ▸ rfl, rfl⟩

variable {r : Record δ α} {layout : Layout} {depth : Nat} {seen : List String} {draft next last : δ}
  {name : String} {json : Json} {f : Field δ} {space part : List Char}

theorem readMemberValue (layout : Layout) (depth : Nat) (draft : δ) (json : Json)
    (found : (r.fields.find? fun f => f.name == name) = some f) (fresh : seen.contains name = false)
    (rest : List Char) : ∃ space, Blank space ∧
      r.readMember seen draft (memberText layout depth name json ++ rest) =
        (f.read draft (space ++ (print layout depth json ++ rest))).map fun (draft, rest) =>
          ((name :: seen, draft), rest) := by
  obtain ⟨space, blank, colon⟩ := colonBlank layout
  have passed : readColon (':' :: (space ++ (print layout depth json ++ rest))) =
      .ok (space ++ (print layout depth json ++ rest)) := rfl
  refine ⟨space, blank, ?_⟩
  rw [memberText, colon, List.append_assoc, List.cons_append, List.cons_append, List.cons_append,
    List.append_assoc, readMember, readQuotedWhole]
  simp only [bind, Except.bind, String.ofList_toList, found, fresh, passed]
  cases f.read draft (space ++ (print layout depth json ++ rest)) <;> rfl

theorem readMemberWhole (found : (r.fields.find? fun f => f.name == name) = some f)
    (fresh : seen.contains name = false) (written : Written (f.read draft) (print layout depth json) next)
    {rest : List Char} (stops : Stops rest) :
    r.readMember seen draft (memberText layout depth name json ++ rest) = .ok ((name :: seen, next), rest) := by
  obtain ⟨space, blank, value⟩ := readMemberValue layout depth draft json found fresh rest
  rw [value, written.behind blank stops]
  rfl

theorem readMemberCut (found : (r.fields.find? fun f => f.name == name) = some f)
    (fresh : seen.contains name = false) (written : Written (f.read draft) (print layout depth json) next)
    (cut : Cut part (memberText layout depth name json)) : Unfinished (r.readMember seen draft part) := by
  obtain ⟨space, blank, colon⟩ := colonBlank layout
  rw [memberText, colon, List.cons_append, List.append_cons] at cut
  rcases cut.ofAppend with inside | ⟨behind, rfl, beyond⟩
  · rw [readMember, readQuotedCut inside]
    exact .inl rfl
  · rw [← List.append_cons, readMember, readQuotedWhole]
    simp only [bind, Except.bind, String.ofList_toList, found, fresh]
    rcases beyond.ofCons with rfl | ⟨behind, rfl, later⟩
    · exact .inl rfl
    · have passed : readColon (':' :: behind) = .ok behind := rfl
      rcases written.cutBehind blank later with short | ⟨v, all⟩
      · simp only [passed, short]
        exact .inl rfl
      · simp only [passed, all]
        exact .inr ⟨_, rfl⟩

def readOn (r : Record δ α) (limit : List Char → Nat) (seen : List String) (draft : δ) (input : List Char) :
    Except Failure (α × List Char) := do
  let ((seen, draft), rest) ← r.readMember seen draft input
  r.readMembers (limit rest) seen draft rest

theorem readMembersNext {bound : Nat} {input rest : List Char} (opens : skipSpace input = '"' :: rest) :
    r.readMembers (bound + 1) seen draft (',' :: input) = r.readOn (fun _ => bound) seen draft rest := by
  rw [readMembers, skipSpaceSelf rfl]
  simp only [opens]
  rfl

theorem readObjectNext {input rest : List Char} (opens : skipSpace input = '"' :: rest) :
    r.readObject input = r.readOn (fun rest => rest.length + 1) [] r.draft rest := by
  rw [readObject, opens]
  rfl

theorem readMembersEnd {bound : Nat} {input : List Char} (nothing : skipSpace input = []) :
    r.readMembers (bound + 1) seen draft input = .error .truncated := by
  rw [readMembers, nothing]

theorem readOnWhole (found : (r.fields.find? fun f => f.name == name) = some f)
    (fresh : seen.contains name = false) (written : Written (f.read draft) (print layout depth json) next)
    {tail : List Char} (stops : Stops tail) (limit : List Char → Nat) :
    r.readOn limit seen draft (memberText layout depth name json ++ tail) =
      r.readMembers (limit tail) (name :: seen) next tail := by
  rw [readOn, readMemberWhole found fresh written stops]
  rfl

theorem readOnCut (found : (r.fields.find? fun f => f.name == name) = some f)
    (fresh : seen.contains name = false) (written : Written (f.read draft) (print layout depth json) next)
    {tail : List Char} (stops : Stops tail) {limit : List Char → Nat} (some : 0 < limit [])
    (later : ∀ behind, part = memberText layout depth name json ++ behind → Cut behind tail →
      r.readMembers (limit behind) (name :: seen) next behind = .error .truncated)
    (cut : Cut part (memberText layout depth name json ++ tail)) :
    r.readOn limit seen draft part = .error .truncated := by
  rcases cut.ofAppend with inside | ⟨behind, rfl, beyond⟩
  · rcases readMemberCut found fresh written inside with short | ⟨⟨names, draft⟩, all⟩
    · rw [readOn, short]
      rfl
    · obtain ⟨bound, same⟩ := Nat.exists_eq_succ_of_ne_zero (Nat.ne_of_gt some)
      rw [readOn, all]
      simp only [bind, Except.bind, same, readMembersEnd (show skipSpace [] = [] from rfl)]
  · rw [readOnWhole found fresh written (stopsCut stops beyond)]
    exact later behind rfl beyond

theorem quoteCut {text : List Char} (blank : Blank space) (cut : Cut part (space ++ '"' :: text)) :
    skipSpace part = [] ∨
      ∃ behind, part = space ++ '"' :: behind ∧ skipSpace part = '"' :: behind ∧ Cut behind text := by
  rcases cut.ofAppend with ⟨begins, -⟩ | ⟨rest, rfl, inside⟩
  · exact .inl (List.dropWhile_eq_nil_iff.mpr fun c inside => blank c (begins.subset inside))
  · rw [skipSpaceBlank blank]
    rcases inside.ofCons with rfl | ⟨behind, rfl, beyond⟩
    · exact .inl rfl
    · exact .inr ⟨behind, rfl, skipSpaceSelf rfl, beyond⟩

theorem stopsMembers (blank : Blank space) (members : List (String × Json)) (rest : List Char) :
    Stops (printMembers layout depth members ++ (space ++ '\x7d' :: rest)) := by
  cases members with
  | nil =>
    rw [printMembers, List.nil_append]
    exact stopsBlank blank (stopsCons rfl)
  | cons member members =>
    rw [printMembers]
    exact stopsCons rfl

variable {members : List (String × Json)} {value : α} {bound : Nat}

theorem closeWhole (complete : r.finish last = some value) (rest : List Char) :
    r.close last rest = .ok (value, rest) := by
  rw [close, complete]

theorem readMembersWhole (fills : Fills r layout depth seen draft members last)
    (complete : r.finish last = some value) (blank : Blank space) (enough : members.length < bound)
    (rest : List Char) :
    r.readMembers bound seen draft (printMembers layout depth members ++ (space ++ '\x7d' :: rest)) =
      .ok (value, rest) := by
  induction fills generalizing bound with
  | done =>
    obtain ⟨bound, rfl⟩ := Nat.exists_eq_succ_of_ne_zero (Nat.ne_of_gt (Nat.zero_lt_of_lt enough))
    rw [printMembers, List.nil_append, readMembers, skipSpaceBlank blank, skipSpaceSelf rfl]
    exact closeWhole complete rest
  | @next seen draft name json members f next last found fresh written onward ih =>
    obtain ⟨bound, rfl⟩ := Nat.exists_eq_succ_of_ne_zero (Nat.ne_of_gt (Nat.zero_lt_of_lt enough))
    have opens : skipSpace (layout.before depth ++ '"' :: (memberText layout depth name json ++
        (printMembers layout depth members ++ (space ++ '\x7d' :: rest)))) = '"' :: _ :=
      (skipSpaceBlank (beforeBlank layout depth) _).trans (skipSpaceSelf rfl)
    simp only [printMember, List.cons_append, List.append_assoc]
    rw [readMembersNext opens, readOnWhole found fresh written (stopsMembers blank members rest)]
    exact ih complete (Nat.lt_of_succ_lt_succ enough)

theorem readMembersCut (fills : Fills r layout depth seen draft members last) (blank : Blank space)
    (enough : part.length < bound)
    (cut : Cut part (printMembers layout depth members ++ (space ++ ['\x7d']))) :
    r.readMembers bound seen draft part = .error .truncated := by
  induction fills generalizing bound part with
  | done =>
    obtain ⟨bound, rfl⟩ := Nat.exists_eq_succ_of_ne_zero (Nat.ne_of_gt (Nat.zero_lt_of_lt enough))
    rw [printMembers, List.nil_append] at cut
    exact readMembersEnd (skipSpaceCut blank cut)
  | @next seen draft name json members f next last found fresh written onward ih =>
    obtain ⟨bound, rfl⟩ := Nat.exists_eq_succ_of_ne_zero (Nat.ne_of_gt (Nat.zero_lt_of_lt enough))
    simp only [printMember, List.cons_append, List.append_assoc] at cut
    rcases cut.ofCons with rfl | ⟨part, rfl, beyond⟩
    · exact readMembersEnd rfl
    have enough : part.length < bound := Nat.lt_of_succ_lt_succ enough
    rcases quoteCut (beforeBlank layout depth) beyond with nothing | ⟨behind, rfl, opens, last⟩
    · rw [readMembers, skipSpaceSelf rfl]
      simp only [nothing]
    · rw [readMembersNext opens]
      simp only [List.length_append, List.length_cons] at enough
      refine readOnCut found fresh written (stopsMembers blank members []) (by omega) ?_ last
      rintro rest rfl left
      rw [List.length_append] at enough
      exact ih (by omega) left

theorem lengthMembers (layout : Layout) (depth : Nat) (members : List (String × Json)) :
    members.length ≤ (printMembers layout depth members).length := by
  induction members with
  | nil => exact Nat.zero_le _
  | cons member members ih =>
    obtain ⟨name, json⟩ := member
    simp only [printMember, List.length_cons, List.length_append]
    omega

theorem printObject (layout : Layout) (depth : Nat) (name : String) (json : Json)
    (members : List (String × Json)) : print layout depth (.object ((name, json) :: members)) =
      '\x7b' :: (layout.before (depth + 1) ++ '"' :: (memberText layout (depth + 1) name json ++
        (printMembers layout (depth + 1) members ++ (layout.before depth ++ ['\x7d'])))) := by
  simp only [print, memberText, quoted, List.cons_append, List.append_assoc, List.nil_append]

theorem objectCut (fills : Fills r layout (depth + 1) [] r.draft members last)
    (cut : Cut part (print layout depth (.object members))) : r.read part = .error .truncated := by
  cases fills with
  | done =>
    obtain ⟨n, short, rfl⟩ := cut.taken
    match n, short with
    | 0, _ | 1, _ => rfl
  | @next _ _ name json members f next last found fresh written onward =>
    rw [printObject] at cut
    rcases cut.ofCons with rfl | ⟨part, rfl, beyond⟩
    · rfl
    have entered : r.read ('\x7b' :: part) = r.readObject part := rfl
    rw [entered]
    rcases quoteCut (beforeBlank layout (depth + 1)) beyond with nothing | ⟨behind, rfl, opens, last⟩
    · rw [readObject, nothing]
    · rw [readObjectNext opens]
      exact readOnCut found fresh written (stopsMembers (beforeBlank layout depth) members [])
        (Nat.zero_lt_succ _)
        (fun rest _ left => readMembersCut onward (beforeBlank layout depth) (Nat.lt_succ_self _) left) last

theorem objectWritten (fills : Fills r layout (depth + 1) [] r.draft members last)
    (complete : r.finish last = some value) :
    Written r.read (print layout depth (.object members)) value where
  opens := by cases fills <;> exact ⟨'\x7b', _, rfl, rfl, nofun⟩
  blank input := by rw [read, skipSpaceTwice]; rfl
  whole rest _ := by
    cases fills with
    | done => exact closeWhole complete rest
    | @next _ _ name json members f next last found fresh written onward =>
      have opens : skipSpace (layout.before (depth + 1) ++ '"' :: (memberText layout (depth + 1) name json ++
          (printMembers layout (depth + 1) members ++ (layout.before depth ++ '\x7d' :: rest)))) = '"' :: _ :=
        (skipSpaceBlank (beforeBlank layout (depth + 1)) _).trans (skipSpaceSelf rfl)
      rw [printObject]
      simp only [List.cons_append, List.append_assoc, List.nil_append]
      have entered (input) : r.read ('\x7b' :: input) = r.readObject input := rfl
      rw [entered, readObjectNext opens,
        readOnWhole found fresh written (stopsMembers (beforeBlank layout depth) members rest)]
      refine readMembersWhole onward complete (beforeBlank layout depth) ?_ rest
      have enough := lengthMembers layout (depth + 1) members
      simp only [List.length_append]
      omega
  cut _ inside := .inl (objectCut fills inside)

theorem objectRefused (found : (r.fields.find? fun f => f.name == name) = some f)
    (skips : ∀ input, f.read r.draft (skipSpace input) = f.read r.draft input) {e : Failure}
    (refused : ∀ rest, Stops rest → f.read r.draft (print layout (depth + 1) json ++ rest) = .error e) :
    r.read (print layout depth (.object ((name, json) :: members))) = .error e := by
  have opens : skipSpace (layout.before (depth + 1) ++ '"' :: (memberText layout (depth + 1) name json ++
      (printMembers layout (depth + 1) members ++ (layout.before depth ++ ['\x7d'])))) = '"' :: _ :=
    (skipSpaceBlank (beforeBlank layout (depth + 1)) _).trans (skipSpaceSelf rfl)
  have entered (input) : r.read ('\x7b' :: input) = r.readObject input := rfl
  have stops : Stops (printMembers layout (depth + 1) members ++ (layout.before depth ++ ['\x7d'])) :=
    stopsMembers (beforeBlank layout depth) members []
  obtain ⟨space, blank, value⟩ := readMemberValue layout (depth + 1) r.draft json found
    (show [].contains name = false from rfl) (printMembers layout (depth + 1) members ++ (layout.before depth ++ ['\x7d']))
  rw [printObject, entered, readObjectNext opens, readOn, value, ← skips, skipSpaceBlank blank, skips,
    refused _ stops]
  rfl

end Record

theorem readDocumentWhole {read : Reader α} {text : List Char} {value : α}
    (written : Written read text value) : readDocument read text = .ok value := by
  have all := written.whole [] stopsNil
  rw [List.append_nil] at all
  rw [readDocument, all]
  rfl

end BuildReuse.Json
