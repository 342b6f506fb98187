import BuildReuse.Proofs.Json.Written

/-! Written lists are read back. Of a list that was cut off the reader says that the text
ends too early, whatever was cut: a bracket, a space, a comma or an item. -/
namespace BuildReuse.Json

variable {α : Type}

theorem Written.seen {read : Reader α} {text : List Char} {value : α}
    (written : Written read text value) {space : List Char} (blank : Blank space) (rest : List Char) :
    ∃ c more, skipSpace (space ++ (text ++ rest)) = c :: more ∧ c ≠ ']' ∧ c :: more = text ++ rest := by
  obtain ⟨c, more, rfl, visible, opens⟩ := written.opens
  exact ⟨c, more ++ rest, by rw [skipSpaceBlank blank, List.cons_append, skipSpaceSelf visible], opens, rfl⟩

theorem Written.seenCut {read : Reader α} {text : List Char} {value : α}
    (written : Written read text value) {space part : List Char} (blank : Blank space)
    (cut : Cut part (space ++ text)) :
    skipSpace part = [] ∨ ∃ c more, skipSpace part = c :: more ∧ c ≠ ']' ∧ Unfinished (read (c :: more)) := by
  have unfinished := written.cutBehind blank cut
  rw [← written.blank] at unfinished
  rcases cut.ofAppend with ⟨begins, -⟩ | ⟨rest, rfl, inside⟩
  · exact .inl (List.dropWhile_eq_nil_iff.mpr fun c inside => blank c (begins.subset inside))
  · obtain ⟨c, more, rfl, visible, opens⟩ := written.opens
    rcases inside.ofCons with rfl | ⟨behind, rfl, -⟩
    · left
      rw [skipSpaceBlank blank]
      rfl
    · right
      rw [skipSpaceBlank blank, skipSpaceSelf visible] at unfinished ⊢
      exact ⟨c, behind, rfl, opens, unfinished⟩

theorem skipSpaceCut {space part : List Char} {c : Char} (blank : Blank space)
    (cut : Cut part (space ++ [c])) : skipSpace part = [] := by
  rcases cut.ofAppend with ⟨begins, -⟩ | ⟨rest, rfl, inside⟩
  · exact List.dropWhile_eq_nil_iff.mpr fun c inside => blank c (begins.subset inside)
  · rcases inside.ofCons with rfl | ⟨_, _, beyond⟩
    · rw [skipSpaceBlank blank]
      rfl
    · exact beyond.ofNil.elim

variable {item : Reader α} {write : α → Json} {layout : Layout} {depth bound : Nat}
  {c : Char} {input more : List Char}

def readSeveral (item : Reader α) (limit : List Char → Nat) : Reader (List α) := fun input => do
  let (x, rest) ← item input
  let (xs, rest) ← readMore item (limit rest) rest
  .ok (x :: xs, rest)

theorem readMoreItem (seen : skipSpace input = c :: more) (opens : c ≠ ']') :
    readMore item (bound + 1) (',' :: input) = readSeveral item (fun _ => bound) (c :: more) := by
  rw [readMore, skipSpaceSelf rfl]
  simp only [seen]
  split
  case h_1 none => cases none
  case h_2 closed => exact (opens (List.cons.inj closed).1).elim
  case h_3 => rfl

theorem readListItem (seen : skipSpace input = c :: more) (opens : c ≠ ']') :
    readList item ('[' :: input) = readSeveral item (fun rest => rest.length + 1) (c :: more) := by
  rw [readList, skipSpaceSelf rfl]
  simp only [seen]
  split
  case h_1 none => cases none
  case h_2 closed => exact (opens (List.cons.inj closed).1).elim
  case h_3 => rfl

theorem stopsItems (layout : Layout) (depth : Nat) {space : List Char} (blank : Blank space)
    (items : List Json) (rest : List Char) :
    Stops (printItems layout depth items ++ (space ++ ']' :: rest)) := by
  cases items with
  | nil =>
    rw [printItems, List.nil_append]
    exact stopsBlank blank (stopsCons rfl)
  | cons item items =>
    rw [printItems]
    exact stopsCons rfl

theorem readMoreWhole (each : ∀ x, Written item (print layout depth (write x)) x)
    {space : List Char} (blank : Blank space) {xs : List α} (enough : xs.length < bound) (rest : List Char) :
    readMore item bound (printItems layout depth (xs.map write) ++ (space ++ ']' :: rest)) =
      .ok (xs, rest) := by
  induction xs generalizing bound with
  | nil =>
    obtain ⟨bound, rfl⟩ := Nat.exists_eq_succ_of_ne_zero (Nat.ne_of_gt enough)
    rw [List.map_nil, printItems, List.nil_append, readMore, skipSpaceBlank blank, skipSpaceSelf rfl]
    rfl
  | cons x xs ih =>
    obtain ⟨bound, rfl⟩ := Nat.exists_eq_succ_of_ne_zero (Nat.ne_of_gt (Nat.zero_lt_of_lt enough))
    have next := ih (Nat.lt_of_succ_lt_succ enough)
    have stops := stopsItems layout depth blank (xs.map write) rest
    obtain ⟨c, more, seen, opens, same⟩ := (each x).seen (beforeBlank layout depth)
      (printItems layout depth (xs.map write) ++ (space ++ ']' :: rest))
    simp only [List.map_cons, printItems, List.cons_append, List.append_assoc]
    rw [readMoreItem seen opens, same, readSeveral, (each x).whole _ stops]
    simp only [bind, Except.bind, next]

theorem readMoreEnd (space : skipSpace input = []) : readMore item (bound + 1) input = .error .truncated := by
  rw [readMore, space]

theorem readSeveralCut {text tail space part : List Char} {x : α} (written : Written item text x)
    (blank : Blank space) (stops : Stops tail) (limit : List Char → Nat) (some : 0 < limit [])
    (later : ∀ behind, part = space ++ text ++ behind → Cut behind tail →
      readMore item (limit behind) behind = .error .truncated)
    (cut : Cut part (space ++ text ++ tail)) :
    skipSpace part = [] ∨ ∃ c more, skipSpace part = c :: more ∧ c ≠ ']' ∧
      readSeveral item limit (c :: more) = .error .truncated := by
  rcases cut.ofAppend with inside | ⟨behind, rfl, beyond⟩
  · rcases written.seenCut blank inside with nothing | ⟨c, more, seen, opens, short | ⟨v, all⟩⟩
    · exact .inl nothing
    · refine .inr ⟨c, more, seen, opens, ?_⟩
      rw [readSeveral, short]
      rfl
    · refine .inr ⟨c, more, seen, opens, ?_⟩
      obtain ⟨bound, same⟩ := Nat.exists_eq_succ_of_ne_zero (Nat.ne_of_gt some)
      rw [readSeveral, all]
      simp only [bind, Except.bind, same, readMoreEnd (show skipSpace [] = [] from rfl)]
  · obtain ⟨c, more, seen, opens, same⟩ := written.seen blank behind
    refine .inr ⟨c, more, by rw [List.append_assoc, seen], opens, ?_⟩
    rw [readSeveral, same, written.whole _ (stopsCut stops beyond)]
    simp only [bind, Except.bind, later behind rfl beyond]

theorem readMoreCut (each : ∀ x, Written item (print layout depth (write x)) x)
    {space : List Char} (blank : Blank space) {xs : List α} {part : List Char} (enough : part.length < bound)
    (cut : Cut part (printItems layout depth (xs.map write) ++ (space ++ [']']))) :
    readMore item bound part = .error .truncated := by
  induction xs generalizing bound part with
  | nil =>
    obtain ⟨bound, rfl⟩ := Nat.exists_eq_succ_of_ne_zero (Nat.ne_of_gt (Nat.zero_lt_of_lt enough))
    rw [List.map_nil, printItems, List.nil_append] at cut
    exact readMoreEnd (skipSpaceCut blank cut)
  | cons x xs ih =>
    obtain ⟨bound, rfl⟩ := Nat.exists_eq_succ_of_ne_zero (Nat.ne_of_gt (Nat.zero_lt_of_lt enough))
    simp only [List.map_cons, printItems, List.cons_append, List.append_assoc] at cut
    rcases cut.ofCons with rfl | ⟨part, rfl, beyond⟩
    · exact readMoreEnd rfl
    have enough : part.length < bound := Nat.lt_of_succ_lt_succ enough
    have later (behind) (whole : part = layout.before depth ++ print layout depth (write x) ++ behind)
        (last : Cut behind (printItems layout depth (xs.map write) ++ (space ++ [']']))) :
        readMore item bound behind = .error .truncated := by
      refine ih ?_ last
      simp only [whole, List.length_append] at enough
      omega
    rw [← List.append_assoc] at beyond
    rcases readSeveralCut (each x) (beforeBlank layout depth) (stopsItems layout depth blank (xs.map write) [])
      (fun _ => bound) (Nat.zero_lt_of_lt enough) later beyond with nothing | ⟨c, more, seen, opens, short⟩
    · rw [readMore, skipSpaceSelf rfl]
      simp only [nothing]
    · rw [readMoreItem seen opens, short]

variable (layout depth)

theorem printList (j : Json) (js : List Json) : print layout depth (.list (j :: js)) =
    '[' :: (layout.before (depth + 1) ++ (print layout (depth + 1) j ++
      (printItems layout (depth + 1) js ++ (layout.before depth ++ [']'])))) := by
  simp only [print, List.cons_append, List.append_assoc]

theorem lengthItems (items : List Json) : items.length ≤ (printItems layout depth items).length := by
  induction items with
  | nil => exact Nat.zero_le _
  | cons item items ih =>
    simp only [printItems, List.length_cons, List.length_append]
    omega

theorem listWritten (each : ∀ depth x, Written item (print layout depth (write x)) x) (xs : List α) :
    Written (readList item) (print layout depth (.list (xs.map write))) xs where
  opens := by
    cases xs with
    | nil => exact ⟨'[', _, rfl, rfl, nofun⟩
    | cons x xs => exact ⟨'[', _, rfl, rfl, nofun⟩
  blank input := by rw [readList, skipSpaceTwice]; rfl
  whole rest _ := by
    cases xs with
    | nil => rfl
    | cons x xs =>
      obtain ⟨c, more, seen, opens, same⟩ := (each (depth + 1) x).seen (beforeBlank layout (depth + 1))
        (printItems layout (depth + 1) (xs.map write) ++ (layout.before depth ++ ']' :: rest))
      have stops := stopsItems layout (depth + 1) (beforeBlank layout depth) (xs.map write) rest
      rw [List.map_cons, printList]
      simp only [List.cons_append, List.append_assoc, List.nil_append]
      rw [readListItem seen opens, readSeveral, same, (each (depth + 1) x).whole _ stops]
      simp only [bind, Except.bind]
      rw [readMoreWhole (each (depth + 1)) (beforeBlank layout depth)]
      have enough := lengthItems layout (depth + 1) (xs.map write)
      simp only [List.length_map, List.length_append] at enough ⊢
      omega
  cut part inside := by
    left
    cases xs with
    | nil =>
      obtain ⟨n, short, rfl⟩ := inside.taken
      match n, short with
      | 0, _ | 1, _ => rfl
    | cons x xs =>
      rw [List.map_cons, printList, ← List.append_assoc (layout.before _)] at inside
      rcases inside.ofCons with rfl | ⟨part, rfl, beyond⟩
      · rfl
      have later (behind) (_ : part =
          layout.before (depth + 1) ++ print layout (depth + 1) (write x) ++ behind) (last : Cut behind
          (printItems layout (depth + 1) (xs.map write) ++ (layout.before depth ++ [']']))) :
          readMore item (behind.length + 1) behind = .error .truncated :=
        readMoreCut (each (depth + 1)) (beforeBlank layout depth) (Nat.lt_succ_self _) last
      rcases readSeveralCut (each (depth + 1) x) (beforeBlank layout (depth + 1))
        (stopsItems layout (depth + 1) (beforeBlank layout depth) (xs.map write) [])
        (fun rest => rest.length + 1) (Nat.zero_lt_succ _) later beyond with nothing | ⟨c, more, seen, opens, short⟩
      · rw [readList, skipSpaceSelf rfl]
        simp only [nothing]
      · rw [readListItem seen opens, short]

end BuildReuse.Json
