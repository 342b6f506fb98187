import BuildReuse.Stage.Basic
import Mathlib.Tactic.Common

/-! Stages with their callers, one atomic action at a time. An action is what one
activity does without a look at the others: a caller meets its stage or takes an
outcome, a run gets one phase further. Every order of actions is a play, so also
every order of turns, by one thread or by many. The events of a play tell what
no later state shows: who joined which run, and who received what from it. -/
namespace BuildReuse.Stage

variable {σ V E : Type}

inductive Recipient where
  | caller (k : Nat)
  | run (r : Nat)
  deriving DecidableEq

inductive Event (V E : Type) where
  | joined (who : Recipient) (stage run : Nat)
  | received (who : Recipient) (stage run : Nat) (outcome : Except E V)
  | entered (run : Nat) (input : Option V)
  | ended (run : Nat) (outcome : Except E V)

structure Play (σ V E : Type) where
  state : σ
  forest : Forest σ V E
  callers : List (Option Waiter)

namespace Play

def start (specs : List (Spec σ V E)) (s : σ) : Play σ V E := ⟨s, .ofSpecs specs, []⟩

def endOf (run : Nat) (outcome : Option (Except E V)) : List (Event V E) :=
  (outcome.map fun o => Event.ended run o).toList

theorem onlyReceipt {who who' : Recipient} {i j r r' k : Nat} {o o' : Except E V} {input out}
    (event : .received who i r o ∈ .received who' j r' o' :: .entered k input :: endOf k out) :
    who = who' ∧ i = j ∧ r = r' ∧ o = o' := by
  simpa [endOf] using event

inductive Step (specs : List (Spec σ V E)) : Play σ V E → List (Event V E) → Play σ V E → Prop where
  | others (p : Play σ V E) (s : σ) : Step specs p [] { p with state := s }
  | call (p : Play σ V E) (i : Nat) (known : i < specs.length) :
      Step specs p [] { p with callers := p.callers ++ [some ⟨i, none⟩] }
  | drop (p : Play σ V E) (k : Nat) : Step specs p [] { p with callers := p.callers.set k none }
  | meetValue {p : Play σ V E} {k i r v}
      (waits : p.callers[k]? = some (some ⟨i, none⟩)) (done : p.forest.status i = .completed r v) :
      Step specs p [.received (.caller k) i r (.ok v)] { p with callers := p.callers.set k none }
  | meetRun {p : Play σ V E} {k i r f}
      (waits : p.callers[k]? = some (some ⟨i, none⟩)) (joins : p.forest.join i = (.run r, f)) :
      Step specs p [.joined (.caller k) i r]
        { p with forest := f, callers := p.callers.set k (some ⟨i, some r⟩) }
  | answer {p : Play σ V E} {k i r o}
      (waits : p.callers[k]? = some (some ⟨i, some r⟩))
      (atEnd : p.forest.runs[r]? = some ⟨i, .finished o⟩) :
      Step specs p [.received (.caller k) i r o]
        { p with forest := p.forest.settle i r o, callers := p.callers.set k none }
  | enter {p : Play σ V E} {r i spec out s f}
      (fresh : p.forest.runs[r]? = some ⟨i, .fresh⟩) (spec? : specs[i]? = some spec)
      (root : spec.source = none)
      (turn : Forest.enterBody spec i r none p.state p.forest = (out, s, f)) :
      Step specs p (.entered r none :: endOf r out) { p with state := s, forest := f }
  | take {p : Play σ V E} {r i spec q src v out s f}
      (fresh : p.forest.runs[r]? = some ⟨i, .fresh⟩) (spec? : specs[i]? = some spec)
      (source : spec.source = some q) (earlier : q < i)
      (done : p.forest.status q = .completed src v)
      (turn : Forest.enterBody spec i r (some v) p.state p.forest = (out, s, f)) :
      Step specs p (.received (.run r) q src (.ok v) :: .entered r (some v) :: endOf r out)
        { p with state := s, forest := f }
  | await {p : Play σ V E} {r i spec q src f}
      (fresh : p.forest.runs[r]? = some ⟨i, .fresh⟩) (spec? : specs[i]? = some spec)
      (source : spec.source = some q) (earlier : q < i)
      (joins : p.forest.join q = (.run src, f)) :
      Step specs p [.joined (.run r) q src] { p with forest := f.setPhase r (.waiting src) }
  | fail {p : Play σ V E} {r i spec q src e}
      (waits : p.forest.runs[r]? = some ⟨i, .waiting src⟩) (spec? : specs[i]? = some spec)
      (source : spec.source = some q) (earlier : q < i)
      (atEnd : p.forest.runs[src]? = some ⟨q, .finished (.error e)⟩) :
      Step specs p [.received (.run r) q src (.error e), .ended r (.error e)]
        { p with forest := (p.forest.settle q src (.error e)).setPhase r (.finished (.error e)) }
  | feed {p : Play σ V E} {r i spec q src v out s f}
      (waits : p.forest.runs[r]? = some ⟨i, .waiting src⟩) (spec? : specs[i]? = some spec)
      (source : spec.source = some q) (earlier : q < i)
      (atEnd : p.forest.runs[src]? = some ⟨q, .finished (.ok v)⟩)
      (turn : Forest.enterBody spec i r (some v) p.state (p.forest.settle q src (.ok v)) = (out, s, f)) :
      Step specs p (.received (.run r) q src (.ok v) :: .entered r (some v) :: endOf r out)
        { p with state := s, forest := f }
  | work {p : Play σ V E} {r i body out s f}
      (busy : p.forest.runs[r]? = some ⟨i, .running body⟩)
      (turn : Forest.runBody Task.poll r body p.state p.forest = (out, s, f)) :
      Step specs p (endOf r out) { p with state := s, forest := f }

inductive Steps (specs : List (Spec σ V E)) : Play σ V E → List (Event V E) → Play σ V E → Prop where
  | refl (p : Play σ V E) : Steps specs p [] p
  | tail {p q r : Play σ V E} {before events : List (Event V E)}
      (first : Steps specs p before q) (last : Step specs q events r) :
      Steps specs p (before ++ events) r

theorem Steps.single {specs : List (Spec σ V E)} {p q : Play σ V E} {events}
    (h : Step specs p events q) : Steps specs p events q := by
  simpa using Steps.tail (.refl p) h

theorem Steps.trans {specs : List (Spec σ V E)} {p q r : Play σ V E} {before after}
    (h : Steps specs p before q) (k : Steps specs q after r) : Steps specs p (before ++ after) r := by
  induction k with
  | refl => simpa using h
  | tail _ last ih => simpa [List.append_assoc] using Steps.tail ih last

def Reaches (specs : List (Spec σ V E)) (s : σ) (trace : List (Event V E)) (p : Play σ V E) : Prop :=
  Steps specs (start specs s) trace p

end Play
end BuildReuse.Stage
