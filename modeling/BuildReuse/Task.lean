/-! Tasks that several callers run by turns over one shared state. A task reads
and replaces the state, or suspends: for one turn, or until the state fulfils a
condition. A suspended task knows how to tidy the state if it is abandoned
there. -/

namespace BuildReuse

/-- What a suspended task waits for. `alarm` is the time at which the condition
may come true by itself, if time can make it true. -/
inductive Wake (σ : Type) where
  | turn
  | condition (ready : σ → Bool) (alarm : Option Nat)

inductive Task (σ α : Type) where
  | done (value : α)
  | look (next : σ → Task σ α)
  | put (state : σ) (rest : Task σ α)
  | suspend (wake : Wake σ) (tidy : σ → σ) (rest : Task σ α)

namespace Task

variable {σ α β ε : Type}

def bind : Task σ α → (α → Task σ β) → Task σ β
  | done a, f => f a
  | look next, f => look fun s => (next s).bind f
  | put s rest, f => put s (rest.bind f)
  | suspend wake tidy rest, f => suspend wake tidy (rest.bind f)

instance : Monad (Task σ) where
  pure := done
  bind := bind

theorem bindDone (t : Task σ α) : t.bind done = t := by
  induction t with
  | done a => rfl
  | look next ih => simp [bind, ih]
  | put s rest ih => simp [bind, ih]
  | suspend wake tidy rest ih => simp [bind, ih]

theorem bindBind {γ : Type} (t : Task σ α) (f : α → Task σ β) (g : β → Task σ γ) :
    (t.bind f).bind g = t.bind fun a => (f a).bind g := by
  induction t with
  | done a => rfl
  | look next ih => simp [bind, ih]
  | put s rest ih => simp [bind, ih]
  | suspend wake tidy rest ih => simp [bind, ih]

instance : LawfulMonad (Task σ) :=
  LawfulMonad.mk' (Task σ) bindDone (fun _ _ => rfl) bindBind

def get (f : σ → α) : Task σ α := look fun s => done (f s)

def update (f : σ → α × σ) : Task σ α :=
  look fun s => let r := f s; put r.2 (done r.1)

def modify (f : σ → σ) : Task σ Unit := look fun s => put (f s) (done ())

def yield : Task σ Unit := suspend .turn id (done ())

def waitFor (ready : σ → Bool) (alarm : Option Nat) : Task σ Unit :=
  suspend (.condition ready alarm) id (done ())

def ensuring (fin : σ → σ) : Task σ α → Task σ α
  | done a => look fun s => put (fin s) (done a)
  | look next => look fun s => (next s).ensuring fin
  | put s rest => put s (rest.ensuring fin)
  | suspend wake tidy rest => suspend wake (fun s => fin (tidy s)) (rest.ensuring fin)

/-- Runs `undo` on the state if the task fails or is abandoned. -/
def orUndo (undo : σ → σ) : Task σ (Except ε α) → Task σ (Except ε α)
  | done (.ok a) => done (.ok a)
  | done (.error e) => look fun s => put (undo s) (done (.error e))
  | look next => look fun s => (next s).orUndo undo
  | put s rest => put s (rest.orUndo undo)
  | suspend wake tidy rest => suspend wake (fun s => undo (tidy s)) (rest.orUndo undo)

def run (s : σ) : Task σ α → σ × Task σ α
  | done a => (s, done a)
  | look next => run s (next s)
  | put s rest => run s rest
  | suspend .turn tidy rest => (s, suspend .turn tidy rest)
  | suspend (.condition ready alarm) tidy rest =>
    if ready s then run s rest else (s, suspend (.condition ready alarm) tidy rest)

def poll (s : σ) : Task σ α → σ × Task σ α
  | suspend .turn _ rest => run s rest
  | t => run s t

def abandon (s : σ) : Task σ α → σ
  | suspend _ tidy _ => tidy s
  | _ => s

def value? : Task σ α → Option α
  | done a => some a
  | _ => none

def wake? : Task σ α → Option (Wake σ)
  | suspend wake _ _ => some wake
  | _ => none

def movable (s : σ) : Task σ α → Bool
  | suspend (.condition ready _) _ _ => ready s
  | _ => true

def alarm? : Task σ α → Option Nat
  | suspend (.condition _ alarm) _ _ => alarm
  | _ => none

end Task

abbrev Job (σ ε α : Type) := ExceptT ε (Task σ) α

namespace Job

variable {σ ε ε' α : Type}

def lift (t : Task σ α) : Job σ ε α := ExceptT.lift t

def get (f : σ → α) : Job σ ε α := lift (Task.get f)

def update (f : σ → α × σ) : Job σ ε α := lift (Task.update f)

def waitFor (ready : σ → Bool) (alarm : Option Nat) : Job σ ε Unit := lift (Task.waitFor ready alarm)

def yield : Job σ ε Unit := lift Task.yield

def attempt (f : σ → Except ε α × σ) : Job σ ε α := ExceptT.mk (Task.update f)

def check (f : σ → Except ε α) : Job σ ε α := ExceptT.mk (Task.get f)

def change (f : σ → Except ε σ) : Job σ ε Unit :=
  ExceptT.mk (Task.update fun s => match f s with
    | .ok s => (.ok (), s)
    | .error e => (.error e, s))

def ensuring (fin : σ → σ) (job : Job σ ε α) : Job σ ε α := ExceptT.mk (Task.ensuring fin job.run)

def orUndo (undo : σ → σ) (job : Job σ ε α) : Job σ ε α := ExceptT.mk (Task.orUndo undo job.run)

def mapError (f : ε → ε') (job : Job σ ε α) : Job σ ε' α :=
  ExceptT.mk (Task.bind job.run fun r => .done (r.mapError f))

end Job
end BuildReuse
