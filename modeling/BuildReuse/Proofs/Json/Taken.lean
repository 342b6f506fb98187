import BuildReuse.Json.Record
import BuildReuse.Proofs.Json.Members

/-! What a record takes from the members of an object: each known member by its own reader, and
of the others nothing. -/
namespace BuildReuse.Json

variable {α β δ : Type} {input more rest : List Char}

namespace Field

@[simp] theorem fieldName (name : String) (reader : Reader β) (set : δ → β → δ) : (field name reader set).name = name := rfl

theorem delimits {reader : Reader β} (delimits : Delimits reader) (name : String) (set : δ → β → δ) (draft : δ) :
    Delimits ((field name reader set).read draft) := by
  intro input value rest read
  obtain ⟨⟨v, behind⟩, own, whole⟩ := mapCases read
  cases whole
  exact delimits own

end Field

namespace Record

variable {r : Record δ α} {seen seen' : List String} {draft next last : δ} {value : α}

inductive Takes (r : Record δ α) : List String → δ → List Member → δ → Prop where
  | done {seen : List String} {draft : δ} : Takes r seen draft [] draft
  | known {seen : List String} {draft next last : δ} {m f members} (found : (r.fields.find? fun f => f.name == m.name) = some f)
      (fresh : seen.contains m.name = false) (read : f.read draft m.value = .ok (next, m.behind))
      (onward : Takes r (m.name :: seen) next members last) : Takes r seen draft (m :: members) last
  | other {seen : List String} {draft last : δ} {m members} (unknown : (r.fields.find? fun f => f.name == m.name) = none)
      (onward : Takes r seen draft members last) : Takes r seen draft (m :: members) last

def Delimited (r : Record δ α) : Prop := ∀ f ∈ r.fields, ∀ draft, Delimits (f.read draft)

theorem readMemberTakes (delimited : r.Delimited)
    (read : r.readMember seen draft input = .ok ((seen', next), rest)) :
    ∃ m, Stands input m ∧ m.behind = rest ∧ ∀ {members last},
      Takes r seen' next members last → Takes r seen draft (m :: members) last := by
  obtain ⟨⟨cs, after⟩, named, read⟩ := bindCases read
  simp only at read
  split at read
  case h_1 f found =>
    split at read
    case isTrue => cases read
    case isFalse fresh =>
      obtain ⟨value, colon, read⟩ := bindCases read
      obtain ⟨⟨next, behind⟩, own, whole⟩ := bindCases read
      cases whole
      have passed := skipValueIff.mpr (delimited f (List.mem_of_find?_eq_some found) draft own)
      exact ⟨_, .intro named colon passed, rfl, fun onward =>
        .known (m := ⟨String.ofList cs, value, behind⟩) found (eq_false_of_ne_true fresh) own onward⟩
  case h_2 unknown =>
    obtain ⟨value, colon, read⟩ := bindCases read
    obtain ⟨behind, passed, whole⟩ := bindCases read
    cases whole
    exact ⟨_, .intro named colon passed, rfl, fun onward => .other unknown onward⟩

theorem closeCases (closed : r.close draft input = .ok (value, rest)) : r.finish draft = some value ∧ input = rest := by
  rw [close] at closed
  split at closed
  case h_1 finished =>
    cases closed
    exact ⟨finished, rfl⟩
  case h_2 => cases closed

theorem readMembersTakes (delimited : r.Delimited) {bound : Nat}
    (read : r.readMembers bound seen draft input = .ok (value, rest)) :
    ∃ members last, Members input members rest ∧ Takes r seen draft members last ∧ r.finish last = some value := by
  induction bound generalizing seen draft input with
  | zero => cases read
  | succ bound ih =>
    rw [readMembers] at read
    split at read
    case h_1 => cases read
    case h_2 closed =>
      obtain ⟨finished, rfl⟩ := closeCases read
      exact ⟨[], draft, .close closed, .done, finished⟩
    case h_3 more comma =>
      split at read
      case h_1 => cases read
      case h_2 quoted opens =>
        obtain ⟨⟨⟨seen', next⟩, behind⟩, member, onward⟩ := bindCases read
        obtain ⟨m, stands, rfl, takes⟩ := readMemberTakes delimited member
        obtain ⟨members, last, given, taken, finished⟩ := ih onward
        exact ⟨m :: members, last, .next comma opens stands given, takes taken, finished⟩
      case h_3 => cases read
    case h_4 => cases read

theorem readObjectTakes (delimited : r.Delimited) (opens : skipSpace input = '\x7b' :: more)
    (read : r.readObject more = .ok (value, rest)) :
    ∃ members last, Object input members rest ∧ Takes r [] r.draft members last ∧ r.finish last = some value := by
  rw [readObject] at read
  split at read
  case h_1 => cases read
  case h_2 closed =>
    obtain ⟨finished, rfl⟩ := closeCases read
    exact ⟨[], r.draft, .empty opens closed, .done, finished⟩
  case h_3 quoted named =>
    obtain ⟨⟨⟨seen', next⟩, behind⟩, member, onward⟩ := bindCases read
    obtain ⟨m, stands, rfl, takes⟩ := readMemberTakes delimited member
    obtain ⟨members, last, given, taken, finished⟩ := readMembersTakes delimited onward
    exact ⟨m :: members, last, .filled opens named stands given, takes taken, finished⟩
  case h_4 => cases read

theorem readTakes (delimited : r.Delimited) (opens : skipSpace input = '\x7b' :: more)
    (read : r.read input = .ok (value, rest)) :
    ∃ members last, Object input members rest ∧ Takes r [] r.draft members last ∧ r.finish last = some value := by
  simp only [Record.read, opens] at read
  exact readObjectTakes delimited opens read

theorem elementsDelimit {fields : List (Field δ)} (delimited : ∀ f ∈ fields, ∀ draft, Delimits (f.read draft))
    (read : r.readElements fields draft input = .ok (value, rest)) : Pass true [.list] input rest := by
  induction fields generalizing draft input with
  | nil =>
    rw [readElements] at read
    split at read
    case h_1 => cases read
    case h_2 seen =>
      obtain ⟨_, rfl⟩ := closeCases read
      exact .close seen .done
    case h_3 => cases read
  | cons f fields ih =>
    rw [readElements] at read
    split at read
    case h_1 => cases read
    case h_2 seen =>
      obtain ⟨_, rfl⟩ := closeCases read
      exact .close seen .done
    case h_3 more seen =>
      split at read
      case h_1 => cases read
      case h_2 => cases read
      case h_3 =>
        obtain ⟨⟨next, behind⟩, first, onward⟩ := bindCases read
        have others := ih (fun f inside => delimited f (.tail _ inside)) onward
        exact .comma seen rfl ((delimited f (.head _) draft first).spaced.within others)
    case h_4 => cases read

theorem sequenceDelimits (delimited : r.Delimited) (opens : skipSpace input = '[' :: more)
    (read : r.readSequence more = .ok (value, rest)) : Pass false [] input rest := by
  have seen : skipSpace input = Frame.list.opener :: more := opens
  rw [readSequence] at read
  split at read
  case h_1 =>
    rw [readElements] at read
    split at read
    case h_1 => cases read
    case h_2 closed =>
      obtain ⟨_, rfl⟩ := closeCases read
      exact .empty seen closed .done
    case h_3 => cases read
  case h_2 f fields own =>
    split at read
    case h_1 => cases read
    case h_2 closed =>
      obtain ⟨_, rfl⟩ := closeCases read
      exact .empty seen closed .done
    case h_3 given opens =>
      obtain ⟨⟨next, behind⟩, first, onward⟩ := bindCases read
      have others := elementsDelimit (fun f inside => delimited f (own ▸ .tail _ inside)) onward
      exact .filled seen given opens rfl ((delimited f (own ▸ .head _) r.draft first).spaced.within others)

theorem delimits (delimited : r.Delimited) : Delimits r.read := by
  intro input value rest read
  rw [Record.read] at read
  split at read
  case h_1 opens =>
    obtain ⟨members, last, object, _⟩ := readObjectTakes delimited opens read
    exact object.pass
  case h_2 opens => exact sequenceDelimits delimited opens read
  case h_3 => cases read

end Record

def Field.Keeps (f : Field δ) (get : δ → β) : Prop :=
  ∀ ⦃draft input next rest⦄, f.read draft input = .ok (next, rest) → get next = get draft

def Field.Sets (f : Field δ) (get : δ → β) (reader : Reader β) : Prop :=
  ∀ ⦃draft input next rest⦄, f.read draft input = .ok (next, rest) → reader input = .ok (get next, rest)

theorem Field.keeps {γ : Type} {get : δ → β} {set : δ → γ → δ} (apart : ∀ draft v, get (set draft v) = get draft)
    (name : String) (reader : Reader γ) : (field name reader set).Keeps get := by
  intro draft input next rest read
  obtain ⟨⟨v, behind⟩, _, whole⟩ := mapCases read
  cases whole
  exact apart draft v

theorem Field.sets {get : δ → β} {set : δ → β → δ} (own : ∀ draft v, get (set draft v) = v) (name : String)
    (reader : Reader β) : (field name reader set).Sets get reader := by
  intro draft input next rest read
  obtain ⟨⟨v, behind⟩, held, whole⟩ := mapCases read
  cases whole
  rw [held, own]

structure Given (members : List Member) (name : String) (read : Reader β) (default value : β) : Prop where
  present : ∀ m ∈ members, m.name = name → read m.value = .ok (value, m.behind)
  absent : (∀ m ∈ members, m.name ≠ name) → value = default

namespace Given

variable {members : List Member} {m : Member} {name : String} {read : Reader β} {default value : β}

theorem nothing : Given [] name read default default := ⟨nofun, fun _ => rfl⟩

theorem own (same : m.name = name) (held : read m.value = .ok (value, m.behind))
    (once : ∀ m ∈ members, m.name ≠ name) : Given (m :: members) name read default value where
  present := List.forall_mem_cons.mpr ⟨fun _ => held, fun m inside same => absurd same (once m inside)⟩
  absent none := absurd same (none m (.head _))

theorem foreign (other : m.name ≠ name) (given : Given members name read default value) :
    Given (m :: members) name read default value where
  present := List.forall_mem_cons.mpr ⟨fun same => absurd same other, given.present⟩
  absent none := given.absent fun m inside => none m (.tail _ inside)

end Given

namespace Record

variable {r : Record δ α} {seen : List String} {draft last : δ} {members : List Member}
  {f : Field δ} {get : δ → β} {reader : Reader β} {name : String}

theorem Takes.once (takes : Takes r seen draft members last)
    (own : (r.fields.find? fun f => f.name == name) = some f) (before : seen.contains name = true) :
    ∀ m ∈ members, m.name ≠ name := by
  induction takes with
  | done => nofun
  | known _ fresh _ _ ih =>
    refine List.forall_mem_cons.mpr ⟨?_, ih (by rw [List.contains_cons, before, Bool.or_true])⟩
    rintro rfl
    exact absurd before (ne_true_of_eq_false fresh)
  | other unknown _ ih =>
    refine List.forall_mem_cons.mpr ⟨?_, ih before⟩
    rintro rfl
    cases unknown.symm.trans own

theorem Takes.given (takes : Takes r seen draft members last)
    (own : (r.fields.find? fun f => f.name == name) = some f) (sets : f.Sets get reader)
    (others : ∀ f ∈ r.fields, f.name = name ∨ f.Keeps get) : Given members name reader (get draft) (get last) := by
  induction takes with
  | done => exact .nothing
  | @known seen draft next last m g members found fresh read onward ih =>
    by_cases same : m.name = name
    · subst same
      cases found.symm.trans own
      have once := onward.once own (by simp)
      exact .own rfl (by rw [ih.absent once, sets read]) once
    · have named : g.name = m.name := by simpa using List.find?_some found
      have kept := (others g (List.mem_of_find?_eq_some found)).resolve_left (named ▸ same) read
      exact .foreign same (kept ▸ ih)
  | other unknown _ ih =>
    refine .foreign ?_ ih
    rintro rfl
    cases unknown.symm.trans own

end Record
end BuildReuse.Json
