import BuildReuse.Proofs.Lock.Acquire
import Mathlib.Logic.Relation

/-! Attempts side by side. Any number of programs and registries try to lock directories, one atomic
action at a time and in any order; attempts fail, run out of time, are dropped while they wait, and
guards are given back. What others may do to the machine in between is a parameter. -/
namespace BuildReuse.Lock

open BuildReuse.Task (Acts)
open Relation (ReflTransGen)

inductive Standing where
  | called
  | resolved (directory : Path) (task : Task Machine (Except LockError Guard))
  | waiting (directory : Path) (ticket : Nat) (task : Task Machine (Except LockError Guard))
  | holding (directory : Path) (guard : Guard)
  | returning (directory : Path) (ticket : Nat)
  | gone

def Standing.after (directory : Path) (ticket : Nat) : Task Machine (Except LockError Guard) → Standing
  | .done (.ok g) => .holding directory g
  | .done (.error _) => .gone
  | t => .waiting directory ticket t

theorem Standing.afterUnfinished (directory : Path) (ticket : Nat) {t : Task Machine (Except LockError Guard)}
    (unfinished : t.value? = none) : Standing.after directory ticket t = .waiting directory ticket t := by
  cases t with
  | done r => cases unfinished
  | look next => rfl
  | put s rest => rfl
  | suspend wake tidy rest => rfl

structure Attempt where
  caller : Caller
  registry : Nat
  directory : Path
  fileName : String
  command : String
  timeout : Duration
  standing : Standing

def Attempt.task (a : Attempt) : Task Machine (Except LockError Guard) :=
  (acquire a.caller a.registry a.directory a.fileName a.command a.timeout).run

structure Scene where
  machine : Machine
  attempts : List Attempt

namespace Scene

inductive Step (others : Machine → Machine → Prop) : Scene → Scene → Prop where
  | others (s : Scene) (m : Machine) (apart : others s.machine m) : Step others s { s with machine := m }
  | call (s : Scene) (a : Attempt) (new : a.standing = .called) :
      Step others s { s with attempts := s.attempts ++ [a] }
  | begin {s : Scene} {k a m t} (at? : s.attempts[k]? = some a) (new : a.standing = .called)
      (acts : a.task.act s.machine = some (m, t)) :
      Step others s ⟨m, s.attempts.set k
        { a with standing := .resolved (lockDirectory a.caller a.directory s.machine) t }⟩
  | ask {s : Scene} {k a directory t m t'} (at? : s.attempts[k]? = some a)
      (knows : a.standing = .resolved directory t) (acts : t.act s.machine = some (m, t')) :
      Step others s ⟨m, s.attempts.set k
        { a with standing := .after directory (enqueue a.registry directory s.machine).1 t' }⟩
  | act {s : Scene} {k a directory ticket t m t'} (at? : s.attempts[k]? = some a)
      (waits : a.standing = .waiting directory ticket t) (acts : t.act s.machine = some (m, t')) :
      Step others s ⟨m, s.attempts.set k { a with standing := .after directory ticket t' }⟩
  | forget {s : Scene} {k a} (at? : s.attempts[k]? = some a) (new : a.standing = .called) :
      Step others s { s with attempts := s.attempts.set k { a with standing := .gone } }
  | cancel {s : Scene} {k a directory ticket t wake} (at? : s.attempts[k]? = some a)
      (waits : a.standing = .waiting directory ticket t) (sleeps : t.wake? = some wake) :
      Step others s ⟨t.abandon s.machine, s.attempts.set k { a with standing := .gone }⟩
  | unlock {s : Scene} {k a directory g} (at? : s.attempts[k]? = some a)
      (holds : a.standing = .holding directory g) :
      Step others s ⟨close g.handle s.machine,
        s.attempts.set k { a with standing := .returning directory g.ticket }⟩
  | giveBack {s : Scene} {k a directory ticket} (at? : s.attempts[k]? = some a)
      (returns : a.standing = .returning directory ticket) :
      Step others s ⟨leave ticket s.machine, s.attempts.set k { a with standing := .gone }⟩

abbrev Steps (others : Machine → Machine → Prop) : Scene → Scene → Prop := ReflTransGen (Step others)

variable {others : Machine → Machine → Prop} {s : Scene} {k : Nat} {a : Attempt} {directory : Path} {ticket : Nat}
  {t : Task Machine (Except LockError Guard)}

theorem slotOfSet {attempts : List Attempt} {j : Nat} {b : Attempt} (there : (attempts.set k a)[j]? = some b) :
    j = k ∧ b = a ∨ j ≠ k ∧ attempts[j]? = some b := by
  by_cases same : j = k
  · rw [same] at there ⊢
    have inside : k < attempts.length := List.length_set ▸ (List.getElem?_eq_some_iff.mp there).1
    rw [List.getElem?_set_self inside] at there
    exact .inl ⟨rfl, (Option.some.inj there).symm⟩
  · rw [List.getElem?_set_ne (Ne.symm same)] at there
    exact .inr ⟨same, there⟩

theorem slotOfCall {attempts : List Attempt} {b : Attempt} (there : (attempts ++ [a])[k]? = some b) :
    attempts[k]? = some b ∨ attempts.length ≤ k ∧ b = a := by
  rw [List.getElem?_append] at there
  split at there
  · exact .inl there
  · rename_i outside
    exact .inr ⟨Nat.le_of_not_lt outside, List.mem_singleton.mp (List.mem_of_getElem? there)⟩

def turned (s : Scene) (k : Nat) (a : Attempt) (directory : Path) (ticket : Nat)
    (t : Task Machine (Except LockError Guard)) : Scene :=
  ⟨(t.poll s.machine).1, s.attempts.set k { a with standing := .after directory ticket (t.poll s.machine).2 }⟩

def begun (s : Scene) (k : Nat) (a : Attempt) : Scene :=
  let directory := lockDirectory a.caller a.directory s.machine
  s.turned k a directory (enqueue a.registry directory s.machine).1 a.task

theorem begunAt (inside : k < s.attempts.length) (a : Attempt)
    (found : lockDirectory a.caller a.directory s.machine = directory) : ∃ ticket, (s.begun k a).attempts[k]? =
      some { a with standing := .after directory ticket (a.task.poll s.machine).2 } := by
  subst found
  exact ⟨_, List.getElem?_set_self inside⟩

theorem actsSteps {attempts : List Attempt} (inside : k < attempts.length) (a : Attempt) (directory : Path)
    (ticket : Nat) {m m' : Machine} {t t'} (acts : Acts m t m' t') :
    Steps others ⟨m, attempts.set k { a with standing := .after directory ticket t }⟩
      ⟨m', attempts.set k { a with standing := .after directory ticket t' }⟩ := by
  induction acts with
  | refl => exact .refl
  | @head m m₁ m₂ t t₁ t₂ first rest ih =>
    let now : Attempt := { a with standing := .after directory ticket t }
    have step : Step others ⟨m, attempts.set k now⟩
        ⟨m₁, (attempts.set k now).set k { now with standing := .after directory ticket t₁ }⟩ :=
      .act (List.getElem?_set_self inside) (Standing.afterUnfinished _ _ (Task.actUnfinished first)) first
    rw [List.set_set] at step
    exact .head step ih

theorem turnSteps (at? : s.attempts[k]? = some a) (waits : a.standing = .waiting directory ticket t)
    (unfinished : t.value? = none) : Steps others s (s.turned k a directory ticket t) := by
  obtain ⟨inside, here⟩ := List.getElem?_eq_some_iff.mp at?
  have same : s.attempts.set k { a with standing := .after directory ticket t } = s.attempts := by
    rw [Standing.afterUnfinished directory ticket unfinished, ← waits, ← here, List.set_getElem_self]
  have steps : Steps others ⟨s.machine, s.attempts.set k { a with standing := .after directory ticket t }⟩
      (s.turned k a directory ticket t) :=
    actsSteps inside a directory ticket (Task.pollActs t s.machine)
  rwa [same] at steps

theorem begunSteps (at? : s.attempts[k]? = some a) (new : a.standing = .called) :
    Steps others s (s.begun k a) := by
  have inside : k < s.attempts.length := (List.getElem?_eq_some_iff.mp at?).1
  let directory := lockDirectory a.caller a.directory s.machine
  obtain ⟨t, first, t', second, whole⟩ : ∃ t, a.task.act s.machine = some (s.machine, t) ∧
      ∃ t', t.act s.machine = some ((enqueue a.registry directory s.machine).2, t') ∧
        a.task.poll s.machine = t'.poll (enqueue a.registry directory s.machine).2 :=
    ⟨_, rfl, _, rfl, rfl⟩
  let a₁ : Attempt := { a with standing := .resolved directory t }
  let a₂ : Attempt := { a with standing := .after directory (enqueue a.registry directory s.machine).1 t' }
  have begins : Step others s ⟨s.machine, s.attempts.set k a₁⟩ := .begin at? new first
  have asks : Step others ⟨s.machine, s.attempts.set k a₁⟩ ⟨_, (s.attempts.set k a₁).set k a₂⟩ :=
    .ask (a := a₁) (List.getElem?_set_self inside) rfl second
  rw [List.set_set] at asks
  have rest : Steps others ⟨(enqueue a.registry directory s.machine).2, s.attempts.set k a₂⟩ (s.begun k a) := by
    rw [begun, turned, whole]
    exact actsSteps inside a directory _ (Task.pollActs t' _)
  exact .head begins (.head asks rest)

theorem releaseSteps {g : Guard} (at? : s.attempts[k]? = some a) (holds : a.standing = .holding directory g) :
    Steps others s ⟨release g s.machine, s.attempts.set k { a with standing := .gone }⟩ := by
  have inside : k < s.attempts.length := (List.getElem?_eq_some_iff.mp at?).1
  let a₁ : Attempt := { a with standing := .returning directory g.ticket }
  have unlocks : Step others s ⟨close g.handle s.machine, s.attempts.set k a₁⟩ := .unlock at? holds
  have leaves : Step others ⟨close g.handle s.machine, s.attempts.set k a₁⟩
      ⟨release g s.machine, (s.attempts.set k a₁).set k { a with standing := .gone }⟩ :=
    .giveBack (a := a₁) (List.getElem?_set_self inside) rfl
  rw [List.set_set] at leaves
  exact .head unlocks (.single leaves)

end Scene

def emptyMachine : Machine := ⟨.empty, .empty, 0, 0, [], []⟩

end BuildReuse.Lock
