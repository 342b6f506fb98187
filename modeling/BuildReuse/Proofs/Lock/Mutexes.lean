import BuildReuse.Lock.Table
import Mathlib.Data.List.Pairwise
import Mathlib.Logic.Function.Basic
import Mathlib.Tactic.Common

/-! The mutexes of a registry, and who needs them. Whoever holds the lock of a directory or
waits for it has a place in the queue of its mutex, and for as long the registry has an entry
for the directory, always the same one. Other entries are forgotten when somebody asks for a
mutex. -/
namespace BuildReuse

structure Stake where
  registry : Nat
  directory : Path
  ticket : Nat
  deriving DecidableEq, Repr

namespace MutexEntry

def IsFor (e : MutexEntry) (registry : Nat) (directory : Path) : Prop :=
  e.registry = registry ∧ e.directory.same directory = true

def Apart (e e' : MutexEntry) : Prop := ¬ e.IsFor e'.registry e'.directory

instance : Std.Symm Apart where
  symm _ _ apart own := apart ⟨own.1.symm, (Path.sameComm ..).trans own.2⟩

variable {e e' : MutexEntry} {registry : Nat} {directory directory' : Path}

theorem IsFor.move (own : e.IsFor registry directory) (same : directory.same directory' = true) :
    e.IsFor registry directory' := ⟨own.1, Path.sameTrans own.2 same⟩

theorem IsFor.both {registry' : Nat} (own : e.IsFor registry directory) (own' : e.IsFor registry' directory') :
    registry = registry' ∧ directory.same directory' = true :=
  ⟨own.1.symm.trans own'.1, Path.sameTrans ((Path.sameComm ..).trans own.2) own'.2⟩

end MutexEntry

namespace LockTable

def kept (t : LockTable) (registry : Nat) (directory : Path) : List MutexEntry :=
  t.entries.filter fun e => e.registry != registry || e.directory.same directory || t.inUse e.mutex

def mutex? (t : LockTable) (ticket : Nat) : Option Nat := (t.waiter? ticket).map Waiter.mutex

inductive Asked (t : LockTable) (registry : Nat) (directory : Path) : Nat × LockTable → Prop where
  | found {e : MutexEntry} (within : e ∈ t.kept registry directory) (own : e.IsFor registry directory) :
      Asked t registry directory (e.mutex, { t with entries := t.kept registry directory })
  | made (none : ∀ e ∈ t.entries, ¬ e.IsFor registry directory) :
      Asked t registry directory (t.fresh, { t with
        entries := t.kept registry directory ++ [⟨registry, directory, t.fresh⟩], fresh := t.fresh + 1 })

def Seat (t : LockTable) (p : Stake) (w : Waiter) : Prop :=
  w.ticket = p.ticket ∧ ∃ e ∈ t.entries, e.IsFor p.registry p.directory ∧ e.mutex = w.mutex

structure Serves (t : LockTable) (stakes : Nat → Option Stake) : Prop where
  tickets : ∀ w ∈ t.queue, w.ticket < t.fresh
  mutexes : ∀ e ∈ t.entries, e.mutex < t.fresh
  distinct : ∀ e ∈ t.entries, ∀ e' ∈ t.entries, e.mutex = e'.mutex → e = e'
  keys : t.entries.Pairwise MutexEntry.Apart
  seated : ∀ k p, stakes k = some p → ∃ w ∈ t.queue, t.Seat p w
  staked : ∀ w ∈ t.queue, ∃ k p, stakes k = some p ∧ t.Seat p w
  own : ∀ j k p q, stakes j = some p → stakes k = some q → p.ticket = q.ticket → j = k

structure SameQueues (t t' : LockTable) : Prop where
  entries : t'.entries = t.entries
  queue : t'.queue = t.queue
  fresh : t.fresh ≤ t'.fresh

variable {t t' : LockTable} {stakes : Nat → Option Stake} {registry : Nat} {directory : Path}
  {j k : Nat} {p q : Stake} {w : Waiter} {e e' : MutexEntry}

theorem inUseIff {mutex : Nat} : t.inUse mutex = true ↔ ∃ w ∈ t.queue, w.mutex = mutex := by
  simp [inUse]

theorem keptIff : e ∈ t.kept registry directory ↔
    e ∈ t.entries ∧ (e.registry = registry → e.directory.same directory = true ∨ t.inUse e.mutex = true) := by
  rw [kept, List.mem_filter]
  by_cases own : e.registry = registry <;> simp [own]

theorem mutexForAsked (t : LockTable) (registry : Nat) (directory : Path) :
    Asked t registry directory (t.mutexFor registry directory) := by
  unfold mutexFor
  simp only
  split
  · rename_i e found
    have own := List.find?_some found
    simp only [Bool.and_eq_true, beq_iff_eq] at own
    exact .found (List.mem_of_find?_eq_some found) own
  · rename_i missing
    refine .made fun e within own => ?_
    have left : e ∈ t.kept registry directory := keptIff.mpr ⟨within, fun _ => .inl own.2⟩
    have no := List.find?_eq_none.mp missing e left
    simp [own.1, own.2] at no

section
variable {asked : Nat × LockTable}

theorem Asked.queue (asks : t.Asked registry directory asked) : asked.2.queue = t.queue := by
  cases asks <;> rfl

theorem Asked.entry (asks : t.Asked registry directory asked) :
    ∃ e ∈ asked.2.entries, e.IsFor registry directory ∧ e.mutex = asked.1 := by
  cases asks with
  | found within own => exact ⟨_, within, own, rfl⟩
  | made none => exact ⟨_, List.mem_append_right _ (List.mem_singleton.mpr rfl), ⟨rfl, Path.sameRefl _⟩, rfl⟩

theorem Asked.keeps (asks : t.Asked registry directory asked) (within : e ∈ t.entries)
    (busy : t.inUse e.mutex = true) : e ∈ asked.2.entries := by
  have left : e ∈ t.kept registry directory := keptIff.mpr ⟨within, fun _ => .inr busy⟩
  cases asks with
  | found => exact left
  | made => exact List.mem_append_left _ left

theorem Asked.others (asks : t.Asked registry directory asked) :
    asked.2.entries.filter (fun e => e.registry != registry) = t.entries.filter fun e => e.registry != registry := by
  have others : (t.kept registry directory).filter (fun e => e.registry != registry) =
      t.entries.filter fun e => e.registry != registry := by
    rw [kept, List.filter_filter]
    exact List.filter_congr fun e _ => by cases e.registry != registry <;> simp
  cases asks with
  | found => exact others
  | made => simpa [List.filter_append] using others

theorem Asked.seat (asks : t.Asked registry directory asked) (waits : w ∈ t.queue) (seat : t.Seat p w) :
    asked.2.Seat p w := by
  obtain ⟨ticket, e, within, own, mutex⟩ := seat
  exact ⟨ticket, e, asks.keeps within (inUseIff.mpr ⟨w, waits, mutex.symm⟩), own, mutex⟩

end

namespace Serves

theorem entry (serves : t.Serves stakes) (within : e ∈ t.entries) (within' : e' ∈ t.entries)
    (own : e.IsFor registry directory) (own' : e'.IsFor registry directory) : e = e' := by
  by_contra differ
  refine serves.keys.forall within within' differ ⟨own.1.trans own'.1.symm, ?_⟩
  exact Path.sameTrans own.2 ((Path.sameComm ..).trans own'.2)

theorem waiter (serves : t.Serves stakes) (has : stakes k = some p) (waits : w ∈ t.queue) (seat : t.Seat p w) :
    t.waiter? p.ticket = some w := by
  cases first : t.waiter? p.ticket with
  | none => exact absurd seat.1 (by simpa using List.find?_eq_none.mp first w waits)
  | some w' =>
    have ticket : w'.ticket = p.ticket := by simpa using List.find?_some first
    obtain ⟨k', p', has', seat'⟩ := serves.staked w' (List.mem_of_find?_eq_some first)
    obtain rfl : k' = k := serves.own _ _ _ _ has' has (seat'.1.symm.trans ticket)
    cases has.symm.trans has'
    obtain ⟨e, within, own, mutex⟩ := seat.2
    obtain ⟨e', within', own', mutex'⟩ := seat'.2
    rw [serves.entry within within' own own'] at mutex
    obtain ⟨n, k⟩ := w
    obtain ⟨n', k'⟩ := w'
    cases seat.1
    cases ticket
    cases mutex
    cases mutex'
    rfl

theorem mutex (serves : t.Serves stakes) (has : stakes k = some p) :
    ∃ e ∈ t.entries, e.IsFor p.registry p.directory ∧ t.mutex? p.ticket = some e.mutex := by
  obtain ⟨w, waits, seat⟩ := serves.seated k p has
  obtain ⟨e, within, own, mutex⟩ := seat.2
  refine ⟨e, within, own, ?_⟩
  rw [mutex?, serves.waiter has waits seat, Option.map_some, mutex]

theorem sharedIff (serves : t.Serves stakes) (has : stakes j = some p) (has' : stakes k = some q) :
    t.mutex? p.ticket = t.mutex? q.ticket ↔ p.registry = q.registry ∧ p.directory.same q.directory = true := by
  obtain ⟨e, within, own, mutex⟩ := serves.mutex has
  obtain ⟨e', within', own', mutex'⟩ := serves.mutex has'
  rw [mutex, mutex', Option.some_inj]
  constructor
  · intro same
    rw [serves.distinct e within e' within' same] at own
    exact own.both own'
  · rintro ⟨registry, directory⟩
    rw [serves.entry within within' ((registry ▸ own).move directory) own']

theorem asked (serves : t.Serves stakes) {asked : Nat × LockTable} (asks : t.Asked registry directory asked) :
    asked.2.Serves stakes := by
  have seated : ∀ k p, stakes k = some p → ∃ w ∈ asked.2.queue, asked.2.Seat p w := by
    intro k p has
    obtain ⟨w, waits, seat⟩ := serves.seated k p has
    exact ⟨w, asks.queue ▸ waits, asks.seat waits seat⟩
  have staked : ∀ w ∈ asked.2.queue, ∃ k p, stakes k = some p ∧ asked.2.Seat p w := by
    intro w waits
    rw [asks.queue] at waits
    obtain ⟨k, p, has, seat⟩ := serves.staked w waits
    exact ⟨k, p, has, asks.seat waits seat⟩
  have within {e : MutexEntry} (left : e ∈ t.kept registry directory) : e ∈ t.entries := (keptIff.mp left).1
  have keys : (t.kept registry directory).Pairwise MutexEntry.Apart := serves.keys.filter _
  cases asks with
  | found =>
    exact ⟨serves.tickets, fun e left => serves.mutexes e (within left),
      fun e left e' left' => serves.distinct e (within left) e' (within left'), keys, seated, staked, serves.own⟩
  | made none =>
    have older {e : MutexEntry} (left : e ∈ t.kept registry directory) : e.mutex < t.fresh :=
      serves.mutexes e (within left)
    refine ⟨fun w waits => Nat.lt_succ_of_lt (serves.tickets w waits), ?mutexes, ?distinct, ?keys, seated, staked,
      serves.own⟩
    case mutexes =>
      intro e left
      rcases List.mem_append.mp left with old | new
      · exact Nat.lt_succ_of_lt (older old)
      · cases List.mem_singleton.mp new
        exact Nat.lt_succ_self _
    case distinct =>
      intro e left e' left' same
      rcases List.mem_append.mp left with old | new <;> rcases List.mem_append.mp left' with old' | new'
      · exact serves.distinct e (within old) e' (within old') same
      · cases List.mem_singleton.mp new'
        exact absurd same (Nat.ne_of_lt (older old))
      · cases List.mem_singleton.mp new
        exact absurd same.symm (Nat.ne_of_lt (older old'))
      · rw [List.mem_singleton.mp new, List.mem_singleton.mp new']
    case keys =>
      refine List.pairwise_append.mpr ⟨keys, List.pairwise_singleton .., fun e old e' new => ?_⟩
      cases List.mem_singleton.mp new
      exact none e (within old)

theorem askedKeys (serves : t.Serves stakes) {asked : Nat × LockTable} (asks : t.Asked registry directory asked)
    (directory' : Path) : (∃ e ∈ asked.2.entries, e.IsFor registry directory') ↔
      directory.same directory' = true ∨
        ∃ k p, stakes k = some p ∧ p.registry = registry ∧ p.directory.same directory' = true := by
  constructor
  · rintro ⟨e, left, own⟩
    have old (left : e ∈ t.kept registry directory) : directory.same directory' = true ∨
        ∃ k p, stakes k = some p ∧ p.registry = registry ∧ p.directory.same directory' = true := by
      obtain ⟨within, needed⟩ := keptIff.mp left
      rcases needed own.1 with same | busy
      · exact .inl (MutexEntry.IsFor.both ⟨own.1, same⟩ own).2
      · obtain ⟨w, waits, mutex⟩ := inUseIff.mp busy
        obtain ⟨k, p, has, -, e', within', own', mutex'⟩ := serves.staked w waits
        obtain rfl := serves.distinct e' within' e within (mutex'.trans mutex)
        exact .inr ⟨k, p, has, own'.both own⟩
    cases asks with
    | found => exact old left
    | made =>
      rcases List.mem_append.mp left with left | new
      · exact old left
      · cases List.mem_singleton.mp new
        exact .inl own.2
  · rintro (same | ⟨k, p, has, rfl, same⟩)
    · obtain ⟨e, within, own, -⟩ := asks.entry
      exact ⟨e, within, own.move same⟩
    · obtain ⟨e, within, own, -⟩ := (serves.asked asks).mutex has
      exact ⟨e, within, own.move same⟩

theorem askedMutex (serves : t.Serves stakes) {asked : Nat × LockTable} (asks : t.Asked p.registry directory asked)
    (has : stakes k = some p) (same : p.directory.same directory = true) : t.mutex? p.ticket = some asked.1 := by
  obtain ⟨e, within, own, mutex⟩ := (serves.asked asks).mutex has
  obtain ⟨e', within', own', given⟩ := asks.entry
  obtain rfl := (serves.asked asks).entry within within' (own.move same) own'
  rwa [given, mutex?, waiter?, asks.queue] at mutex

theorem same (serves : t.Serves stakes) (same : SameQueues t t') : t'.Serves stakes := by
  obtain ⟨entries, queue, fresh⟩ := same
  have seat {p w} (seat : t.Seat p w) : t'.Seat p w := by
    rw [Seat, entries]
    exact seat
  constructor
  case tickets => exact fun w waits => Nat.lt_of_lt_of_le (serves.tickets w (queue ▸ waits)) fresh
  case mutexes => exact fun e within => Nat.lt_of_lt_of_le (serves.mutexes e (entries ▸ within)) fresh
  case distinct => simpa only [entries] using serves.distinct
  case keys => simpa only [entries] using serves.keys
  case seated =>
    intro k p has
    obtain ⟨w, waits, sits⟩ := serves.seated k p has
    exact ⟨w, queue ▸ waits, seat sits⟩
  case staked =>
    intro w waits
    obtain ⟨k, p, has, sits⟩ := serves.staked w (queue ▸ waits)
    exact ⟨k, p, has, seat sits⟩
  case own => exact serves.own

theorem ticketBelow (serves : t.Serves stakes) (has : stakes k = some p) : p.ticket < t.fresh := by
  obtain ⟨w, waits, ticket, -⟩ := serves.seated k p has
  exact ticket ▸ serves.tickets w waits

theorem joined (serves : t.Serves stakes) (idle : stakes k = none) (within : e ∈ t.entries)
    (own : e.IsFor registry directory) :
    Serves { t with queue := t.queue ++ [⟨t.fresh, e.mutex⟩], fresh := t.fresh + 1 }
      (Function.update stakes k (some ⟨registry, directory, t.fresh⟩)) := by
  have other {j p} (has : stakes j = some p) : j ≠ k := by
    rintro rfl
    cases idle.symm.trans has
  constructor
  case tickets =>
    intro w waits
    rcases List.mem_append.mp waits with old | new
    · exact Nat.lt_succ_of_lt (serves.tickets w old)
    · cases List.mem_singleton.mp new
      exact Nat.lt_succ_self _
  case mutexes => exact fun e within => Nat.lt_succ_of_lt (serves.mutexes e within)
  case distinct => exact serves.distinct
  case keys => exact serves.keys
  case seated =>
    intro j p has
    by_cases mine : j = k
    · rw [mine, Function.update_self] at has
      cases has
      exact ⟨_, List.mem_append_right _ (List.mem_singleton.mpr rfl), rfl, e, within, own, rfl⟩
    · rw [Function.update_of_ne mine] at has
      obtain ⟨w, waits, seat⟩ := serves.seated j p has
      exact ⟨w, List.mem_append_left _ waits, seat⟩
  case staked =>
    intro w waits
    rcases List.mem_append.mp waits with old | new
    · obtain ⟨j, p, has, seat⟩ := serves.staked w old
      exact ⟨j, p, (Function.update_of_ne (other has) ..).trans has, seat⟩
    · cases List.mem_singleton.mp new
      exact ⟨k, _, Function.update_self .., rfl, e, within, own, rfl⟩
  case own =>
    intro i j p q has has' same
    by_cases mine : i = k <;> by_cases mine' : j = k
    · rw [mine, mine']
    · rw [mine, Function.update_self] at has
      rw [Function.update_of_ne mine'] at has'
      cases has
      exact absurd same.symm (Nat.ne_of_lt (serves.ticketBelow has'))
    · rw [mine', Function.update_self] at has'
      rw [Function.update_of_ne mine] at has
      cases has'
      exact absurd same (Nat.ne_of_lt (serves.ticketBelow has))
    · rw [Function.update_of_ne mine] at has
      rw [Function.update_of_ne mine'] at has'
      exact serves.own i j p q has has' same

theorem enqueue (serves : t.Serves stakes) (idle : stakes k = none) (registry : Nat) (directory : Path) :
    (t.enqueue registry directory).2.Serves
      (Function.update stakes k (some ⟨registry, directory, (t.enqueue registry directory).1⟩)) := by
  have asks := mutexForAsked t registry directory
  unfold LockTable.enqueue
  generalize t.mutexFor registry directory = asked at asks
  obtain ⟨mutex, t'⟩ := asked
  obtain ⟨e, within, own, rfl⟩ := asks.entry
  exact (serves.asked asks).joined idle within own

theorem enqueueMutex (serves : t.Serves stakes) (idle : stakes k = none) (registry : Nat) (directory : Path) :
    (t.enqueue registry directory).2.mutex? (t.enqueue registry directory).1 =
      some (t.mutexFor registry directory).1 := by
  have joins := serves.enqueue idle registry directory
  obtain ⟨e, within, own, mutex⟩ := joins.mutex (Function.update_self ..)
  obtain ⟨e', within', own', given⟩ := (mutexForAsked t registry directory).entry
  rw [mutex, joins.entry within within' own own', given]

theorem leave (serves : t.Serves stakes) (has : stakes k = some p) :
    (t.leave p.ticket).Serves (Function.update stakes k none) := by
  have stays {j q} (has' : Function.update stakes k none j = some q) : j ≠ k ∧ stakes j = some q := by
    have other : j ≠ k := by
      rintro rfl
      rw [Function.update_self] at has'
      cases has'
    exact ⟨other, (Function.update_of_ne other ..).symm.trans has'⟩
  constructor
  case tickets => exact fun w waits => serves.tickets w (List.mem_filter.mp waits).1
  case mutexes => exact serves.mutexes
  case distinct => exact serves.distinct
  case keys => exact serves.keys
  case seated =>
    intro j q has'
    obtain ⟨other, has'⟩ := stays has'
    obtain ⟨w, waits, seat⟩ := serves.seated j q has'
    refine ⟨w, List.mem_filter.mpr ⟨waits, ?_⟩, seat⟩
    rw [seat.1, bne_iff_ne]
    exact fun same => other (serves.own j k q p has' has same)
  case staked =>
    intro w waits
    obtain ⟨waits, leftOver⟩ := List.mem_filter.mp waits
    obtain ⟨j, q, has', seat⟩ := serves.staked w waits
    have other : j ≠ k := by
      rintro rfl
      cases has.symm.trans has'
      simp [seat.1] at leftOver
    exact ⟨j, q, (Function.update_of_ne other ..).trans has', seat⟩
  case own => exact fun i j p q has has' => serves.own i j p q (stays has).2 (stays has').2

end Serves
end LockTable
end BuildReuse
