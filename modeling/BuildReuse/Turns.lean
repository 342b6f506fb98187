import BuildReuse.Machine

/-! Taking turns. Activities over one state are polled round by round, in order;
when none of them can move, time passes to the next moment at which one may, or
at which somebody else does something. -/

namespace BuildReuse

structure Turns (W A R : Type) where
  poll : A → W → (R ⊕ A) × W
  movable : W → A → Bool
  alarm? : W → A → Option Nat

namespace Turns

variable {W A R : Type}

def pending : List (R ⊕ A) → List A
  | [] => []
  | .inl _ :: rest => pending rest
  | .inr a :: rest => a :: pending rest

def round (t : Turns W A R) : List (R ⊕ A) → W → List (R ⊕ A) × W
  | [], w => ([], w)
  | .inl r :: rest, w =>
    let (rest, w) := round t rest w
    (.inl r :: rest, w)
  | .inr a :: rest, w =>
    let (slot, w) := t.poll a w
    let (rest, w) := round t rest w
    (slot :: rest, w)

def earliest (times : List (Option Nat)) : Option Nat := (times.filterMap id).min?

def drive [Timed W] (t : Turns W A R) (limit : Option Nat) :
    Nat → List (R ⊕ A) → W → List (R ⊕ A) × W
  | 0, slots, w => (slots, w)
  | rounds + 1, slots, w =>
    let (slots, w) := t.round slots w
    let waiting := pending slots
    if waiting.isEmpty then (slots, w)
    else if waiting.any (t.movable w) then drive t limit rounds slots w
    else
      match earliest (Timed.next? w :: waiting.map (t.alarm? w)), limit with
      | none, none => (slots, w)
      | none, some last => (slots, Timed.advance last w)
      | some time, none => drive t limit rounds slots (Timed.advance time w)
      | some time, some last =>
        if last < time then (slots, Timed.advance last w)
        else drive t limit rounds slots (Timed.advance time w)

def manyRounds : Nat := 10000000

def ofTask {σ α : Type} : Turns σ (Task σ α) α where
  poll t s :=
    match t.poll s with
    | (s, .done a) => (.inl a, s)
    | (s, t) => (.inr t, s)
  movable s t := t.movable s
  alarm? _ t := t.alarm?

end Turns

def Task.drive {σ α : Type} [Timed σ] (limit : Option Nat) (t : Task σ α) (s : σ) :
    Option α × σ :=
  match Turns.ofTask.drive limit Turns.manyRounds [.inr t] s with
  | ([.inl a], s) => (some a, s)
  | ([.inr t], s) => (none, t.abandon s)
  | (_, s) => (none, s)

end BuildReuse
