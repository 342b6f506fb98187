import BuildReuse.Task

/-! Stages: values that are computed on demand, at most once with success. A
stage without a value is empty, or one run of its computation is under way that
all its callers share. A successful run completes the stage for good; a failed
one leaves it empty, so that the next caller tries again. A stage may take the
value of an earlier stage as its input. -/

namespace BuildReuse.Stage

structure Spec (σ V E : Type) where
  source : Option Nat
  body : Option V → Task σ (Except E V)

inductive Status (V : Type) where
  | empty
  | inFlight (run : Nat)
  | completed (run : Nat) (value : V)

inductive Phase (σ V E : Type) where
  | fresh
  | waiting (sourceRun : Nat)
  | running (body : Task σ (Except E V))
  | finished (outcome : Except E V)

structure Run (σ V E : Type) where
  stage : Nat
  phase : Phase σ V E

structure State (V : Type) where
  status : Status V
  runs : Nat
  calls : Nat

abbrev Outcome (V E : Type) := Except E (Nat × V)

structure Forest (σ V E : Type) where
  stages : Array (State V)
  runs : Array (Run σ V E)

structure Waiter where
  stage : Nat
  run : Option Nat
  deriving DecidableEq, Repr

namespace Forest

variable {σ V E : Type}

def ofSpecs (specs : List (Spec σ V E)) : Forest σ V E :=
  ⟨(specs.map fun _ => ⟨.empty, 0, 0⟩).toArray, #[]⟩

def status (f : Forest σ V E) (i : Nat) : Status V :=
  match f.stages[i]? with
  | some s => s.status
  | none => .empty

def runsOf (f : Forest σ V E) (i : Nat) : Nat := ((f.stages[i]?).map State.runs).getD 0

def callsOf (f : Forest σ V E) (i : Nat) : Nat := ((f.stages[i]?).map State.calls).getD 0

def peek (f : Forest σ V E) (i : Nat) : Option (Nat × V) :=
  match f.status i with
  | .completed run v => some (run, v)
  | _ => none

def setPhase (f : Forest σ V E) (run : Nat) (phase : Phase σ V E) : Forest σ V E :=
  { f with runs := f.runs.modify run fun r => { r with phase := phase } }

def start (f : Forest σ V E) (i : Nat) : Forest σ V E :=
  { stages := f.stages.modify i fun s =>
      { s with status := .inFlight f.runs.size, runs := s.runs + 1 }
    runs := f.runs.push ⟨i, .fresh⟩ }

inductive Joined (V : Type) where
  | value (run : Nat) (value : V)
  | run (run : Nat)

def join (f : Forest σ V E) (i : Nat) : Joined V × Forest σ V E :=
  match f.status i with
  | .completed run v => (.value run v, f)
  | .inFlight run => (.run run, f)
  | .empty => (.run f.runs.size, f.start i)

/-- Takes note of the outcome of a run, unless the stage has moved on to another
run since. -/
def settle (f : Forest σ V E) (i run : Nat) (outcome : Except E V) : Forest σ V E :=
  match f.status i with
  | .inFlight current =>
    if current = run then
      { f with stages := f.stages.modify i fun s =>
        { s with status := match outcome with
          | .ok v => .completed run v
          | .error _ => .empty } }
    else f
  | _ => f

def runBody (turn : σ → Task σ (Except E V) → σ × Task σ (Except E V)) (run : Nat)
    (body : Task σ (Except E V)) (s : σ) (f : Forest σ V E) :
    Option (Except E V) × σ × Forest σ V E :=
  match turn s body with
  | (s, .done outcome) => (some outcome, s, f.setPhase run (.finished outcome))
  | (s, body) => (none, s, f.setPhase run (.running body))

def enterBody (spec : Spec σ V E) (i run : Nat) (input : Option V) (s : σ) (f : Forest σ V E) :
    Option (Except E V) × σ × Forest σ V E :=
  runBody Task.run run (spec.body input) s
    { f with stages := f.stages.modify i fun st => { st with calls := st.calls + 1 } }

/-- A turn of a run of stage `i`. A run that needs the value of the source joins a
run of the source and takes its turns; when that run ends, it notes the outcome
like any other caller. -/
def pollRun (specs : List (Spec σ V E)) (i run : Nat) (s : σ) (f : Forest σ V E) :
    Option (Except E V) × σ × Forest σ V E :=
  match specs[i]?, (f.runs[run]?).map Run.phase with
  | some spec, some phase =>
    match phase with
    | .finished outcome => (some outcome, s, f)
    | .running body => runBody Task.poll run body s f
    | .fresh =>
      match spec.source with
      | none => enterBody spec i run none s f
      | some p =>
        if _ : p < i then
          match f.join p with
          | (.value _ v, f) => enterBody spec i run (some v) s f
          | (.run sourceRun, f) =>
            awaitSource spec i run p sourceRun
              (pollRun specs p sourceRun s (f.setPhase run (.waiting sourceRun)))
        else (none, s, f)
    | .waiting sourceRun =>
      match spec.source with
      | none => (none, s, f)
      | some p =>
        if _ : p < i then awaitSource spec i run p sourceRun (pollRun specs p sourceRun s f)
        else (none, s, f)
  | _, _ => (none, s, f)
termination_by i
where
  awaitSource (spec : Spec σ V E) (i run p sourceRun : Nat) :
      Option (Except E V) × σ × Forest σ V E → Option (Except E V) × σ × Forest σ V E
    | (none, s, f) => (none, s, f)
    | (some (.error e), s, f) =>
      (some (.error e), s, (f.settle p sourceRun (.error e)).setPhase run (.finished (.error e)))
    | (some (.ok v), s, f) => enterBody spec i run (some v) s (f.settle p sourceRun (.ok v))

def poll (specs : List (Spec σ V E)) (w : Waiter) (s : σ) (f : Forest σ V E) :
    (Outcome V E ⊕ Waiter) × σ × Forest σ V E :=
  match w.run with
  | some run => wait run s f
  | none =>
    match f.join w.stage with
    | (.value run v, f) => (.inl (.ok (run, v)), s, f)
    | (.run run, f) => wait run s f
where
  wait (run : Nat) (s : σ) (f : Forest σ V E) : (Outcome V E ⊕ Waiter) × σ × Forest σ V E :=
    match pollRun specs w.stage run s f with
    | (none, s, f) => (.inr ⟨w.stage, some run⟩, s, f)
    | (some outcome, s, f) =>
      (.inl (outcome.map fun v => (run, v)), s, f.settle w.stage run outcome)

def obstacle? (specs : List (Spec σ V E)) (f : Forest σ V E) (i run : Nat) :
    Option (Task σ (Except E V)) :=
  match (specs[i]?).bind Spec.source, (f.runs[run]?).map Run.phase with
  | _, some (.running body) => some body
  | some p, some (.waiting sourceRun) => if _ : p < i then obstacle? specs f p sourceRun else none
  | _, _ => none
termination_by i

def movable (specs : List (Spec σ V E)) (f : Forest σ V E) (s : σ) (w : Waiter) : Bool :=
  match w.run.bind (obstacle? specs f w.stage) with
  | some body => body.movable s
  | none => true

def alarm? (specs : List (Spec σ V E)) (f : Forest σ V E) (w : Waiter) : Option Nat :=
  (w.run.bind (obstacle? specs f w.stage)).bind Task.alarm?

def abandon (f : Forest σ V E) (s : σ) : σ :=
  f.runs.toList.foldl (fun s r =>
    match r.phase with
    | .running body => body.abandon s
    | _ => s) s

def Status.text : Status V → String
  | .empty => "empty"
  | .inFlight _ => "in-flight"
  | .completed .. => "completed"

def describe (f : Forest σ V E) (i : Nat) : String :=
  s!"state: \"{Status.text (f.status i)}\", runs: {f.runsOf i}"

end Forest
end BuildReuse.Stage
