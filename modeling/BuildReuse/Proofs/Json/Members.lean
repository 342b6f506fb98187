import BuildReuse.Proofs.Json.Skipping

/-! The members of an object, told apart without a look at what is wanted of them. What a reader
takes as a text, a list or an object ends where it would end if nobody wanted it. -/
namespace BuildReuse.Json

variable {α β : Type} {input more rest final : List Char}

def Delimits (read : Reader α) : Prop :=
  ∀ ⦃input value rest⦄, read input = .ok (value, rest) → Pass false [] input rest

theorem mapCases {f : α → β} {x : Except Failure α} {y : β} (told : x.map f = .ok y) : ∃ a, x = .ok a ∧ f a = y := by
  cases x with
  | error e => cases told
  | ok a => exact ⟨a, rfl, Except.ok.inj told⟩

theorem Pass.filled {frame : Frame} {frames : List Frame} {next : List Char}
    (seen : skipSpace input = frame.opener :: more) (given : skipSpace more ≠ [])
    (opens : ∀ tail, skipSpace more ≠ frame.closer :: tail) (named : skipName frame more = .ok next)
    (onward : Pass false (frame :: frames) next final) : Pass false frames input final := by
  obtain ⟨c, tail, filled⟩ := List.exists_cons_of_ne_nil given
  exact .enter seen filled (fun same => opens tail (same ▸ filled)) named onward

theorem prependCases {c : Char} {cs : List Char} {read : Except Failure (List Char × List Char)}
    (told : prepend c read = .ok (cs, rest)) : ∃ tail, read = .ok (tail, rest) := by
  obtain ⟨⟨tail, behind⟩, same, whole⟩ := mapCases told
  cases whole
  exact ⟨tail, same⟩

theorem readQuotedSkips {cs : List Char} (read : readQuoted input = .ok (cs, rest)) :
    skipQuoted input = .ok rest := by
  fun_induction readQuoted input generalizing cs
  case case2 =>
    cases read
    rfl
  case case9 first _ _ _ _ _ _ _ _ second _ ih =>
    obtain ⟨tail, behind⟩ := prependCases read
    simp [skipQuoted, first, second, ih behind]
  case case13 number _ _ ih =>
    obtain ⟨tail, behind⟩ := prependCases read
    simp [skipQuoted, number, ih behind]
  case case15 short ih =>
    obtain ⟨tail, behind⟩ := prependCases read
    simp [skipQuoted, short, ih behind]
  case case18 unquoted unended numbered cut escaped above ih =>
    obtain ⟨tail, behind⟩ := prependCases read
    rw [skipQuoted, if_neg above, ih behind] <;> assumption
  all_goals cases read

theorem textDelimits : Delimits readText := by
  intro input value rest read
  revert read
  fun_cases readText input
  case case1 quoted seen =>
    intro read
    obtain ⟨⟨cs, behind⟩, quoted, whole⟩ := mapCases read
    cases whole
    refine .scalar (fun frame rest => ?_) ?_ .done
    · cases frame <;> simp [seen, Frame.opener]
    · rw [seen, skipScalar, readQuotedSkips quoted]
  case case2 => rintro ⟨⟩

theorem moreDelimits {item : Reader α} (delimits : Delimits item) {bound : Nat} {xs : List α}
    (read : readMore item bound input = .ok (xs, rest)) : Pass true [.list] input rest := by
  induction bound generalizing input xs with
  | zero => cases read
  | succ bound ih =>
    rw [readMore] at read
    split at read
    case h_1 => cases read
    case h_2 seen =>
      cases read
      exact .close seen .done
    case h_3 more seen =>
      split at read
      case h_1 => cases read
      case h_2 => cases read
      case h_3 =>
        obtain ⟨⟨x, behind⟩, first, onward⟩ := bindCases read
        obtain ⟨⟨xs, behind⟩, others, whole⟩ := bindCases onward
        cases whole
        exact .comma seen rfl ((delimits first).spaced.within (ih others))
    case h_4 => cases read

theorem listDelimits {item : Reader α} (delimits : Delimits item) : Delimits (readList item) := by
  intro input value rest read
  rw [readList] at read
  split at read
  case h_1 more seen =>
    split at read
    case h_1 => cases read
    case h_2 closed =>
      cases read
      exact .empty (show _ = Frame.list.opener :: _ from seen) closed .done
    case h_3 given opens =>
      obtain ⟨⟨x, behind⟩, first, onward⟩ := bindCases read
      obtain ⟨⟨xs, behind⟩, others, whole⟩ := bindCases onward
      cases whole
      exact .filled (show _ = Frame.list.opener :: _ from seen) given opens rfl
        ((delimits first).spaced.within (moreDelimits delimits others))
  case h_2 => cases read

structure Member where
  name : String
  value : List Char
  behind : List Char
  deriving DecidableEq, Repr

inductive Stands : List Char → Member → Prop where
  | intro {input cs after value behind : List Char} (named : readQuoted input = .ok (cs, after))
      (colon : readColon after = .ok value) (passed : skipValue value = .ok behind) :
      Stands input ⟨String.ofList cs, value, behind⟩

inductive Members : List Char → List Member → List Char → Prop where
  | close {input rest : List Char} (seen : skipSpace input = '\x7d' :: rest) : Members input [] rest
  | next {input more quoted m members} {rest : List Char} (seen : skipSpace input = ',' :: more)
      (opens : skipSpace more = '"' :: quoted) (stands : Stands quoted m)
      (onward : Members m.behind members rest) : Members input (m :: members) rest

inductive Object : List Char → List Member → List Char → Prop where
  | empty {input more rest : List Char} (seen : skipSpace input = '\x7b' :: more) (closed : skipSpace more = '\x7d' :: rest) :
      Object input [] rest
  | filled {input more quoted m members} {rest : List Char} (seen : skipSpace input = '\x7b' :: more)
      (opens : skipSpace more = '"' :: quoted) (stands : Stands quoted m)
      (onward : Members m.behind members rest) : Object input (m :: members) rest

variable {m m' : Member} {members members' : List Member} {rest' : List Char}

theorem Stands.unique (stands : Stands input m) (other : Stands input m') : m = m' := by
  cases stands with
  | intro named colon passed =>
    cases other with
    | intro named' colon' passed' =>
      cases named.symm.trans named'
      cases colon.symm.trans colon'
      cases passed.symm.trans passed'
      rfl

theorem Members.unique (first : Members input members rest) (second : Members input members' rest') :
    members = members' ∧ rest = rest' := by
  induction first generalizing members' rest' with
  | close seen =>
    cases second with
    | close seen' => cases seen.symm.trans seen'; exact ⟨rfl, rfl⟩
    | next seen' => cases seen.symm.trans seen'
  | next seen opens stands _ ih =>
    cases second with
    | close seen' => cases seen.symm.trans seen'
    | next seen' opens' stands' onward' =>
      cases seen.symm.trans seen'
      cases opens.symm.trans opens'
      cases stands.unique stands'
      obtain ⟨rfl, rfl⟩ := ih onward'
      exact ⟨rfl, rfl⟩

theorem Object.unique (first : Object input members rest) (second : Object input members' rest') :
    members = members' ∧ rest = rest' := by
  cases first with
  | empty seen closed =>
    cases second with
    | empty seen' closed' =>
      cases seen.symm.trans seen'
      cases closed.symm.trans closed'
      exact ⟨rfl, rfl⟩
    | filled seen' opens' =>
      cases seen.symm.trans seen'
      cases closed.symm.trans opens'
  | filled seen opens stands onward =>
    cases second with
    | empty seen' closed' =>
      cases seen.symm.trans seen'
      cases opens.symm.trans closed'
    | filled seen' opens' stands' onward' =>
      cases seen.symm.trans seen'
      cases opens.symm.trans opens'
      cases stands.unique stands'
      obtain ⟨rfl, rfl⟩ := onward.unique onward'
      exact ⟨rfl, rfl⟩

theorem Object.opens (given : Object input members rest) : ∃ more, skipSpace input = '\x7b' :: more := by
  cases given with
  | empty seen => exact ⟨_, seen⟩
  | filled seen => exact ⟨_, seen⟩

theorem Stands.named (stands : Stands input m) (opens : skipSpace more = '"' :: input) :
    skipName .object more = .ok m.value := by
  cases stands with
  | intro named colon passed => simp [skipName, opens, readQuotedSkips named, bind, Except.bind, colon]

theorem Stands.passed (stands : Stands input m) : Pass false [] m.value m.behind := by
  cases stands with
  | intro named colon passed => exact skipValueIff.mp passed

theorem Members.pass (given : Members input members rest) : Pass true [.object] input rest := by
  induction given with
  | close seen => exact .close seen .done
  | next seen opens stands _ ih => exact .comma seen (stands.named opens) (stands.passed.within ih)

theorem Object.pass (given : Object input members rest) : Pass false [] input rest := by
  cases given with
  | empty seen closed => exact .empty (show _ = Frame.object.opener :: _ from seen) closed .done
  | filled seen opens stands onward =>
    exact .filled (show _ = Frame.object.opener :: _ from seen) (by simp [opens]) (by simp [opens, Frame.closer])
      (stands.named opens) (stands.passed.within onward.pass)

end BuildReuse.Json
