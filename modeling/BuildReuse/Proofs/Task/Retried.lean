import BuildReuse.Proofs.Task.Deadline
import BuildReuse.Proofs.Task.Turning
import Mathlib.Algebra.Order.Floor.Div

/-! Repeated attempts as the loop that they are meant to be: a call is followed by another only if
it failed for a passing reason before the deadline, and only after a rest. The runs of the
attempts are exactly those of this loop, and time leaves it no more rounds than it has intervals. -/
namespace BuildReuse.Task

variable {σ ε α : Type} [Timed σ]

structure Recorded (rely : σ → σ → Prop) (op : σ → Except ε α × σ) (calls : σ → List (Except ε α)) : Prop where
  refl : ∀ s, rely s s
  trans : ∀ s₁ s₂ s₃, rely s₁ s₂ → rely s₂ s₃ → rely s₁ s₃
  deadline : ∀ (s : σ) timeout time, Timed.deadline? s timeout = some time →
    time = Timed.clock s + timeout.totalNanos
  forward : ∀ s s', rely s s' → Timed.clock s ≤ Timed.clock s'
  lasts : ∀ s, Timed.clock s ≤ Timed.clock (op s).2
  told : ∀ s, calls (op s).2 = calls s ++ [(op s).1]
  apart : ∀ s s', rely s s' → calls s' = calls s

inductive Round (rely : σ → σ → Prop) (op : σ → Except ε α × σ) (retryable : ε → Bool) (deadline : Nat) :
    σ → ε → σ → Prop where
  | rested {s s₁ s₂ s' e} (before : rely s s₁) (fails : (op s₁).1 = .error e) (passing : retryable e = true)
      (after : rely (op s₁).2 s₂) (early : Timed.clock s₂ < deadline) (rests : rely s₂ s')
      (late : Timed.clock s₂ + Retry.interval ≤ Timed.clock s') : Round rely op retryable deadline s e s'

inductive Rounds (rely : σ → σ → Prop) (op : σ → Except ε α × σ) (retryable : ε → Bool) (deadline : Nat) :
    σ → List ε → σ → Prop where
  | nil {s} : Rounds rely op retryable deadline s [] s
  | cons {s s₁ s' e earlier} (round : Round rely op retryable deadline s e s₁)
      (more : Rounds rely op retryable deadline s₁ earlier s') :
      Rounds rely op retryable deadline s (e :: earlier) s'

inductive Last (rely : σ → σ → Prop) (op : σ → Except ε α × σ) (retryable : ε → Bool) (deadline : Nat) :
    σ → Except ε α → σ → Prop where
  | succeeds {s s₁ a} (before : rely s s₁) (succeeds : (op s₁).1 = .ok a) :
      Last rely op retryable deadline s (.ok a) (op s₁).2
  | fails {s s₁ s' e} (before : rely s s₁) (fails : (op s₁).1 = .error e) (after : rely (op s₁).2 s')
      (final : retryable e = true → deadline ≤ Timed.clock s') :
      Last rely op retryable deadline s (.error e) s'

inductive Loops (rely : σ → σ → Prop) (op : σ → Except ε α × σ) (retryable : ε → Bool) (timeout : Duration) :
    σ → Except (RetryError ε) α → σ → Prop where
  | noDeadline {s s'} (begun : rely s s') (beyond : Timed.deadline? s' timeout = none) :
      Loops rely op retryable timeout s (.error .noDeadline) s'
  | concluded {s start s₁ s' deadline earlier r} (begun : rely s start)
      (ends : Timed.deadline? start timeout = some deadline)
      (rounds : Rounds rely op retryable deadline start earlier s₁) (last : Last rely op retryable deadline s₁ r s') :
      Loops rely op retryable timeout s (r.mapError .failed) s'

variable {rely : σ → σ → Prop} {op : σ → Except ε α × σ} {calls : σ → List (Except ε α)}
  {retryable : ε → Bool} {deadline : Nat} {s s₁ s' : σ} {e : ε} {earlier : List ε} {r : Except ε α}

theorem sleepRests (trans : ∀ s₁ s₂ s₃, rely s₁ s₂ → rely s₂ s₃ → rely s₁ s₃)
    (forward : ∀ s s', rely s s' → Timed.clock s ≤ Timed.clock s') {nanos : Nat} {u : Unit}
    (sleeps : Ends rely s (Task.sleep nanos) (some u) s') :
    rely s s' ∧ Timed.clock s + nanos ≤ Timed.clock s' := by
  cases sleeps with
  | look others rest =>
    cases rest with
    | resume more ready rest =>
      cases rest
      simp only [Wake.Ready, decide_eq_true_eq] at ready
      have begun := forward _ _ others
      exact ⟨trans _ _ _ others more, by omega⟩

theorem Rounds.passing (rounds : Rounds rely op retryable deadline s earlier s') :
    ∀ e ∈ earlier, retryable e = true := by
  induction rounds with
  | nil => nofun
  | cons round more ih =>
    cases round with
    | rested before fails passing => exact List.forall_mem_cons.mpr ⟨passing, ih⟩

theorem Last.past (last : Last rely op retryable deadline s r s') :
    ∀ e, r = .error e → retryable e = true → deadline ≤ Timed.clock s' := by
  cases last with
  | succeeds => nofun
  | fails before fails after final => rintro e' ⟨⟩ passing; exact final passing

section

variable (recorded : Recorded rely op calls)
include recorded

namespace Round

theorem told (round : Round rely op retryable deadline s e s') : calls s' = calls s ++ [.error e] := by
  cases round with
  | rested before fails passing after early rests late =>
    rw [recorded.apart _ _ rests, recorded.apart _ _ after, recorded.told, recorded.apart _ _ before, fails]

theorem early (round : Round rely op retryable deadline s e s') : Timed.clock s < deadline := by
  cases round with
  | rested before fails passing after early rests late =>
    have called := Nat.le_trans (recorded.forward _ _ before) (recorded.lasts _)
    exact Nat.lt_of_le_of_lt (Nat.le_trans called (recorded.forward _ _ after)) early

theorem lasts (round : Round rely op retryable deadline s e s') :
    Timed.clock s + Retry.interval ≤ Timed.clock s' := by
  cases round with
  | rested before fails passing after early rests late =>
    have called := Nat.le_trans (recorded.forward _ _ before) (recorded.lasts _)
    exact Nat.le_trans (Nat.add_le_add_right (Nat.le_trans called (recorded.forward _ _ after)) _) late

end Round

namespace Rounds

theorem told (rounds : Rounds rely op retryable deadline s earlier s') :
    calls s' = calls s ++ earlier.map .error := by
  induction rounds with
  | nil => rw [List.map_nil, List.append_nil]
  | cons round more ih => rw [ih, round.told recorded, List.append_assoc, List.map_cons, List.singleton_append]

theorem fit (rounds : Rounds rely op retryable deadline s earlier s') :
    earlier = [] ∨ Timed.clock s + earlier.length * Retry.interval < deadline + Retry.interval := by
  induction rounds with
  | nil => exact .inl rfl
  | cons round more ih =>
    have early := round.early recorded
    have lasts := round.lasts recorded
    right
    rw [List.length_cons, Nat.succ_mul]
    rcases ih with rfl | fit
    · rw [List.length_nil]
      omega
    · omega

theorem bounded {timeout : Duration} (ends : Timed.deadline? s timeout = some deadline)
    (rounds : Rounds rely op retryable deadline s earlier s') :
    earlier.length ≤ timeout.totalNanos ⌈/⌉ Retry.interval := by
  rcases rounds.fit recorded with rfl | fit
  · exact Nat.zero_le _
  · rw [recorded.deadline s timeout deadline ends] at fit
    rw [Nat.ceilDiv_eq_add_pred_div]
    exact (Nat.le_div_iff_mul_le (by decide)).mpr (by omega)

theorem toEnds (rounds : Rounds rely op retryable deadline s earlier s₁)
    (last : Last rely op retryable deadline s₁ r s') : ∀ {since}, since ≤ Timed.clock s →
      Ends rely s (Retry.attemptUntil deadline retryable (Task.update op) since) (some r) s' := by
  induction rounds with
  | nil =>
    intro since come
    cases last with
    | succeeds before succeeds => exact .attemptSucceeds (succeeds ▸ .look before (.put .done))
    | fails before fails after final => exact .attemptFails (fails ▸ .look before (.put .done)) after final
  | cons round more ih =>
    intro since come
    cases round with
    | @rested s₁ s₂ _ _ before fails passing after early rests late =>
      have called := Nat.le_trans (recorded.forward _ _ before) (recorded.lasts s₁)
      have read := Nat.le_trans called (recorded.forward _ _ after)
      exact .attemptAgain (fails ▸ .look before (.put .done)) after passing (Nat.le_trans come read) early
        (.sleeps recorded.refl rests late) (ih last late)

theorem ofEnds {since : Nat} (come : since ≤ Timed.clock s)
    (ends : Ends rely s (Retry.attemptUntil deadline retryable (Task.update op) since) (some r) s') :
    ∃ earlier s₁, Rounds rely op retryable deadline s earlier s₁ ∧ Last rely op retryable deadline s₁ r s' := by
  induction since using Retry.rounds deadline generalizing s with
  | round since ih =>
    rw [Retry.attemptUntil] at ends
    rcases ends.bind with ⟨outcome, s₁, called, rest⟩ | ⟨no, -⟩
    case inr => cases no
    obtain ⟨s₁, before, same, rfl⟩ := called.update
    cases same
    cases outcome : (op s₁).1 with
    | ok a =>
      rw [outcome] at rest
      cases rest
      exact ⟨[], s, .nil, .succeeds before outcome⟩
    | error e =>
      rw [outcome] at rest
      cases rest with
      | @look _ s₂ _ _ _ after rest =>
        have called := Nat.le_trans (recorded.forward _ _ before) (recorded.lasts s₁)
        have read := Nat.le_trans come (Nat.le_trans called (recorded.forward _ _ after))
        dsimp only at rest
        rw [Nat.max_eq_right read] at rest
        split at rest
        case isTrue early =>
          rcases rest.bind with ⟨_, s₃, sleeps, rest⟩ | ⟨no, -⟩
          case inr => cases no
          obtain ⟨rests, late⟩ := sleepRests recorded.trans recorded.forward sleeps
          obtain ⟨earlier, s₄, rounds, last⟩ := ih _ read early.2 late rest
          exact ⟨e :: earlier, s₄, .cons (.rested before outcome early.1 after early.2 rests late) rounds, last⟩
        case isFalse past =>
          cases rest
          exact ⟨[], s, .nil, .fails before outcome after fun passing =>
            Nat.le_of_not_lt fun early => past ⟨passing, early⟩⟩

end Rounds

theorem Last.told (last : Last rely op retryable deadline s r s') : calls s' = calls s ++ [r] := by
  cases last with
  | succeeds before succeeds => rw [recorded.told, recorded.apart _ _ before, succeeds]
  | fails before fails after final => rw [recorded.apart _ _ after, recorded.told, recorded.apart _ _ before, fails]

variable {timeout : Duration} {result : Except (RetryError ε) α}

theorem endsIffLoops : Ends rely s (whenAvailable timeout retryable (Task.update op)).run (some result) s' ↔
    Loops rely op retryable timeout s result s' := by
  constructor
  · intro ends
    rcases ends.bind with ⟨deadline?, start, reads, rest⟩ | ⟨no, -⟩
    case inr => cases no
    obtain ⟨begun, same⟩ := reads.get
    cases same
    cases time : Timed.deadline? start timeout with
    | none =>
      rw [time] at rest
      cases rest
      exact .noDeadline begun time
    | some deadline =>
      rw [time] at rest
      rcases Ends.bind rest with ⟨r, s₁, tries, rest⟩ | ⟨no, -⟩
      case inr => cases no
      cases rest
      obtain ⟨earlier, s₂, rounds, last⟩ := Rounds.ofEnds recorded (Nat.zero_le _) tries
      exact .concluded begun time rounds last
  · intro loops
    have reads {start : σ} (begun : rely s start) :
        Ends rely s (Task.get fun s => Timed.deadline? s timeout) (some (Timed.deadline? start timeout)) start :=
      .look begun .done
    cases loops with
    | noDeadline begun beyond => exact (beyond ▸ reads begun).andThen .done
    | concluded begun time rounds last =>
      exact (time ▸ reads begun).andThen ((rounds.toEnds recorded last (Nat.zero_le _)).andThen .done)

end

structure Concluded (rely : σ → σ → Prop) (retryable : ε → Bool) (calls : σ → List (Except ε α))
    (timeout : Duration) (s : σ) (earlier : List ε) (last : Except ε α) (s' : σ) : Prop where
  calls : calls s' = calls s ++ earlier.map .error ++ [last]
  passing : ∀ e ∈ earlier, retryable e = true
  past : ∃ start, rely s start ∧ ∀ e, last = .error e → retryable e = true →
    Timed.clock start + timeout.totalNanos ≤ Timed.clock s'
  count : earlier.length + 1 ≤ timeout.totalNanos ⌈/⌉ Retry.interval + 1
  once : timeout.totalNanos = 0 → earlier = []

inductive Retried (rely : σ → σ → Prop) (retryable : ε → Bool) (calls : σ → List (Except ε α))
    (timeout : Duration) (s : σ) : Except (RetryError ε) α → σ → Prop where
  | noDeadline {start s'} (begun : rely s start) (beyond : Timed.deadline? start timeout = none)
      (uncalled : calls s' = calls s) : Retried rely retryable calls timeout s (.error .noDeadline) s'
  | concluded {earlier last s'} (concluded : Concluded rely retryable calls timeout s earlier last s') :
      Retried rely retryable calls timeout s (last.mapError .failed) s'

section

variable {timeout : Duration} {last : Except ε α} {result : Except (RetryError ε) α}
  (recorded : Recorded rely op calls)
include recorded

theorem Concluded.later (concluded : Concluded rely retryable calls timeout s earlier last s₁)
    (others : rely s₁ s') : Concluded rely retryable calls timeout s earlier last s' where
  calls := (recorded.apart _ _ others).trans concluded.calls
  passing := concluded.passing
  past := by
    obtain ⟨start, before, past⟩ := concluded.past
    exact ⟨start, before, fun e fails passing =>
      Nat.le_trans (past e fails passing) (recorded.forward _ _ others)⟩
  count := concluded.count
  once := concluded.once

theorem Retried.later (retried : Retried rely retryable calls timeout s result s₁) (others : rely s₁ s') :
    Retried rely retryable calls timeout s result s' := by
  cases retried with
  | noDeadline begun beyond uncalled =>
    exact .noDeadline begun beyond ((recorded.apart _ _ others).trans uncalled)
  | concluded concluded => exact .concluded (concluded.later recorded others)

theorem Loops.retried (loops : Loops rely op retryable timeout s result s') :
    Retried rely retryable calls timeout s result s' := by
  cases loops with
  | noDeadline begun beyond => exact .noDeadline begun beyond (recorded.apart _ _ begun)
  | @concluded start _ _ deadline earlier r begun ends rounds last =>
    have count := rounds.bounded recorded ends
    refine .concluded ⟨?_, rounds.passing, ⟨start, begun, ?_⟩, Nat.succ_le_succ count, fun zero => ?_⟩
    · rw [last.told recorded, rounds.told recorded, recorded.apart _ _ begun]
    · rw [← recorded.deadline start timeout deadline ends]
      exact last.past
    · rw [zero, zero_ceilDiv] at count
      exact List.length_eq_zero_iff.mp (Nat.le_zero.mp count)

end

/-- Attempts that others do not disturb are a loop that calls again only while it has failed for a
passing reason before the deadline. It cannot go round without end, and the attempts come to their
end wherever time goes on. -/
theorem attemptsConclude (recorded : Recorded rely op calls) (retryable : ε → Bool) (timeout : Duration) (s : σ) :
    (∀ r s', Ends rely s (whenAvailable timeout retryable (Task.update op)).run (some r) s' ↔
      Loops rely op retryable timeout s r s') ∧
    (∀ r s', Loops rely op retryable timeout s r s' → Retried rely retryable calls timeout s r s') ∧
    (∀ start deadline earlier s', Timed.deadline? start timeout = some deadline →
      Rounds rely op retryable deadline start earlier s' →
        earlier.length ≤ timeout.totalNanos ⌈/⌉ Retry.interval) ∧
    ∀ turning : Turning rely s (whenAvailable timeout retryable (Task.update op)).run,
      ∃ n r, turning.tasks n = done r ∧ Retried rely retryable calls timeout s r (turning.states n) := by
  refine ⟨fun r s' => endsIffLoops recorded, fun r s' loops => loops.retried recorded,
    fun start deadline earlier s' ends rounds => rounds.bounded recorded ends, fun turning => ?_⟩
  have timely : Timely (whenAvailable timeout retryable (Task.update op)).run :=
    (Timely.update op).whenAvailable timeout retryable
  obtain ⟨n, r, ended⟩ := turning.ends timely
  cases n with
  | zero =>
    rw [turning.firstTask] at ended
    cases ended
  | succ n =>
    have place : 0 + n + 1 = n + 1 := by omega
    obtain ⟨s', turned, behind⟩ := turning.turned recorded.trans n (place.symm ▸ ended)
    rw [turning.firstState, turning.firstTask] at turned
    rw [place] at behind
    have loops := (endsIffLoops recorded).mp (turned.ends recorded.refl recorded.trans)
    exact ⟨n + 1, r, ended, (loops.retried recorded).later recorded behind⟩

structure Trial where
  clock : Nat
  calls : List (Except Bool Nat)

namespace Trial

instance : Timed Trial where
  clock := Trial.clock
  deadline? s timeout := some (s.clock + timeout.totalNanos)
  next? _ := none
  advance time s := { s with clock := max s.clock time }

def besides (s s' : Trial) : Prop := s'.calls = s.calls ∧ s.clock ≤ s'.clock

def call (s : Trial) : Except Bool Nat × Trial :=
  let r := if s.calls.length < 2 then .error true else .ok 7
  (r, ⟨s.clock + 20000000, s.calls ++ [r]⟩)

theorem recorded : Recorded besides call Trial.calls where
  refl _ := ⟨rfl, Nat.le_refl _⟩
  trans _ _ _ first second := ⟨second.1.trans first.1, Nat.le_trans first.2 second.2⟩
  deadline _ _ _ ends := (Option.some.inj ends).symm
  forward _ _ others := others.2
  lasts _ := Nat.le_add_right _ _
  told _ := rfl
  apart _ _ others := others.1

def turns : Nat → Trial × Task Trial (Except (RetryError Bool) Nat)
  | 0 => (⟨0, []⟩, (whenAvailable (.ofMillis 5000) id (Task.update call)).run)
  | n + 1 =>
    let (s, t) := poll (turns n).1 (turns n).2
    ({ s with clock := max s.clock ((n + 1) * 60000000) }, t)

def turning : Turning besides ⟨0, []⟩ (whenAvailable (.ofMillis 5000) id (Task.update call)).run where
  states n := (turns n).1
  tasks n := (turns n).2
  firstState := rfl
  firstTask := rfl
  turn _ := rfl
  others _ := ⟨rfl, Nat.le_max_left _ _⟩
  time time := by
    refine ⟨time + 1, fun m late => ?_⟩
    cases m with
    | zero => cases late
    | succ m =>
      have behind : time ≤ (m + 1) * 60000000 := by omega
      exact Nat.le_trans behind (Nat.le_max_right _ _)

end Trial

theorem thirdCallSucceeds :
    (Trial.turning.tasks 5).value? = some (.ok 7) ∧
    (Trial.turning.states 5).calls = [.error true, .error true, .ok 7] ∧
    ∃ n r, Trial.turning.tasks n = done r ∧
      Retried Trial.besides id Trial.calls (.ofMillis 5000) ⟨0, []⟩ r (Trial.turning.states n) :=
  ⟨rfl, rfl, (attemptsConclude Trial.recorded id (.ofMillis 5000) ⟨0, []⟩).2.2.2 Trial.turning⟩

end BuildReuse.Task
