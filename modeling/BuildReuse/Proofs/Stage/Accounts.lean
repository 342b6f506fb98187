import BuildReuse.Proofs.Stage.Chain
import Mathlib.Algebra.BigOperators.Group.Finset.Piecewise
import Mathlib.Data.Finset.Card

/-! The books of a stage. Every run that was started has failed, or it is the one that the
stage is in flight with or was completed by; a body is entered at most once a run, behind a
source only once the source's value has come; and a caller that leaves is missed by nobody. -/
namespace BuildReuse.Stage

open Forest

variable {σ V E : Type}

def Phase.failed : Phase σ V E → Bool
  | .finished (.error _) => true
  | _ => false

def Status.standing : Status V → Nat
  | .empty => 0
  | _ => 1

def Event.enters (r : Nat) : Event V E → Bool
  | .entered run _ => run == r
  | _ => false

def Event.tells (r : Nat) : Event V E → Bool
  | .received _ _ run _ => run == r
  | _ => false

def entries (trace : List (Event V E)) (r : Nat) : Nat := trace.countP (Event.enters r)

theorem entriesAppend (before after : List (Event V E)) (r : Nat) :
    entries (before ++ after) r = entries before r + entries after r := List.countP_append

theorem Place.Onward.before {a b : Place} (h : a.Onward b) (notYet : b ≠ .done) : a ≠ .done := by
  rintro rfl
  rcases h with same | free | done
  · exact notYet same
  · cases free
  · exact notYet done

namespace Forest

def runsAt (f : Forest σ V E) (i : Nat) : Finset Nat :=
  {r ∈ Finset.range f.runs.size | (f.runs[r]?).any fun run => run.stage == i}

def failedAt (f : Forest σ V E) (i : Nat) : Finset Nat :=
  {r ∈ f.runsAt i | (f.runs[r]?).any fun run => run.phase.failed}

theorem memRunsAt {f : Forest σ V E} {i r : Nat} :
    r ∈ f.runsAt i ↔ ∃ ph, f.runs[r]? = some ⟨i, ph⟩ := by
  simp only [runsAt, Finset.mem_filter, Finset.mem_range]
  constructor
  · rintro ⟨inside, own⟩
    rw [Array.getElem?_eq_getElem inside] at own ⊢
    have same : f.runs[r].stage = i := by simpa using own
    exact ⟨f.runs[r].phase, by rw [← same]⟩
  · rintro ⟨ph, at?⟩
    exact ⟨(Array.getElem?_eq_some_iff.mp at?).1, by simp [at?]⟩

theorem memFailedAt {f : Forest σ V E} {i r : Nat} :
    r ∈ f.failedAt i ↔ ∃ e, f.runs[r]? = some ⟨i, .finished (.error e)⟩ := by
  simp only [failedAt, Finset.mem_filter, memRunsAt]
  constructor
  · rintro ⟨⟨ph, at?⟩, failed⟩
    rw [at?] at failed
    match ph, failed with
    | .finished (.error e), _ => exact ⟨e, at?⟩
  · rintro ⟨e, at?⟩
    exact ⟨⟨_, at?⟩, by simp [at?, Phase.failed]⟩

theorem runsAtCongr {f f' : Forest σ V E} {i : Nat}
    (same : ∀ r : Nat, (f'.runs[r]?).map Run.stage = (f.runs[r]?).map Run.stage) :
    f'.runsAt i = f.runsAt i := by
  have known (g : Forest σ V E) (r : Nat) :
      r ∈ g.runsAt i ↔ (g.runs[r]?).map Run.stage = some i := by
    rw [memRunsAt, Option.map_eq_some_iff]
    constructor
    · rintro ⟨ph, at?⟩
      exact ⟨_, at?, rfl⟩
    · rintro ⟨⟨j, ph⟩, at?, rfl⟩
      exact ⟨ph, at?⟩
  ext r
  rw [known, known, same]

theorem runsAtSettle (f : Forest σ V E) (i r j : Nat) (o : Except E V) :
    (f.settle i r o).runsAt j = f.runsAt j := runsAtCongr fun _ => by rw [runsSettle]

theorem runsAtRephased {f f' : Forest σ V E} {r : Nat} {ph : Phase σ V E} (j : Nat)
    (runs : ∀ k : Nat, f'.runs[k]? = (f.setPhase r ph).runs[k]?) : f'.runsAt j = f.runsAt j := by
  refine runsAtCongr fun k => ?_
  rw [runs, runsSetPhase]
  split
  · rw [Option.map_map]
    rfl
  · rfl

theorem runsAtStart (f : Forest σ V E) (i j : Nat) :
    (f.start i).runsAt j = if j = i then insert f.runs.size (f.runsAt j) else f.runsAt j := by
  ext r
  have member : r ∈ (f.start i).runsAt j ↔ (r = f.runs.size ∧ i = j) ∨ r ∈ f.runsAt j := by
    simp only [memRunsAt, runsStart]
    by_cases new : r = f.runs.size
    · subst new
      simp
    · simp [new]
  rw [member]
  by_cases own : j = i
  · simp [own]
  · simp [own, Ne.symm own]

theorem newRunsAt (f : Forest σ V E) (i : Nat) : f.runs.size ∉ f.runsAt i := by
  simp [memRunsAt]

theorem modifyKeeps {stages : Array (State V)} {change : State V → State V} {count : State V → Nat}
    (keeps : ∀ s, count (change s) = count s) (i j : Nat) :
    ((stages.modify i change)[j]?).map count = (stages[j]?).map count := by
  rw [Array.getElem?_modify]
  split
  · rw [Option.map_map, show count ∘ change = count from funext keeps]
  · rfl

theorem countsSettle (f : Forest σ V E) (i r j : Nat) (o : Except E V) :
    (f.settle i r o).runsOf j = f.runsOf j ∧ (f.settle i r o).callsOf j = f.callsOf j := by
  unfold settle
  split
  · split
    · constructor
      · rw [runsOf, modifyKeeps, runsOf]
        exact fun _ => rfl
      · rw [callsOf, modifyKeeps, callsOf]
        exact fun _ => rfl
    · exact ⟨rfl, rfl⟩
  · exact ⟨rfl, rfl⟩

theorem runsOfStart {f : Forest σ V E} {i : Nat} (known : i < f.stages.size) (j : Nat) :
    (f.start i).runsOf j = f.runsOf j + if j = i then 1 else 0 := by
  simp only [runsOf, start, Array.getElem?_modify]
  split
  · rename_i own
    subst own
    rw [if_pos rfl, Array.getElem?_eq_getElem known]
    rfl
  · rename_i other
    rw [if_neg (Ne.symm other), Nat.add_zero]

theorem callsOfStart (f : Forest σ V E) (i j : Nat) : (f.start i).callsOf j = f.callsOf j := by
  rw [callsOf, start, modifyKeeps, callsOf]
  exact fun _ => rfl

theorem runsOfEntered {spec : Spec σ V E} {i run input s s' out} {f f' : Forest σ V E}
    (h : enterBody spec i run input s f = (out, s', f')) (j : Nat) : f'.runsOf j = f.runsOf j := by
  rw [runsOf, runBodyStages h, modifyKeeps, runsOf]
  exact fun _ => rfl

theorem callsOfEntered {spec : Spec σ V E} {i run input s s' out} {f f' : Forest σ V E}
    (known : i < f.stages.size) (h : enterBody spec i run input s f = (out, s', f')) (j : Nat) :
    f'.callsOf j = f.callsOf j + if j = i then 1 else 0 := by
  simp only [callsOf, runBodyStages h, Array.getElem?_modify]
  split
  · rename_i own
    subst own
    rw [if_pos rfl, Array.getElem?_eq_getElem known]
    rfl
  · rename_i other
    rw [if_neg (Ne.symm other), Nat.add_zero]

end Forest

structure Counted (trace : List (Event V E)) (f : Forest σ V E) : Prop where
  runs : ∀ i, f.runsOf i = (f.runsAt i).card
  calls : ∀ i, f.callsOf i = ∑ r ∈ f.runsAt i, entries trace r

namespace Counted

variable {trace : List (Event V E)} {f f' : Forest σ V E}

theorem congr (h : Counted trace f) {trace' : List (Event V E)} (quiet : ∀ r, entries trace' r = entries trace r)
    (runs : ∀ i, f'.runsOf i = f.runsOf i) (calls : ∀ i, f'.callsOf i = f.callsOf i)
    (at? : ∀ i, f'.runsAt i = f.runsAt i) : Counted trace' f' := by
  refine ⟨fun i => ?_, fun i => ?_⟩
  · rw [runs, at?, h.runs]
  · simp only [calls, at?, h.calls, quiet]

theorem settled (h : Counted trace f) (i r : Nat) (o : Except E V) : Counted trace (f.settle i r o) :=
  h.congr (fun _ => rfl) (fun j => (countsSettle f i r j o).1) (fun j => (countsSettle f i r j o).2)
    fun j => runsAtSettle f i r j o

theorem rephased (h : Counted trace f) {r : Nat} {ph : Phase σ V E} (stages : f'.stages = f.stages)
    (runs : ∀ k : Nat, f'.runs[k]? = (f.setPhase r ph).runs[k]?) : Counted trace f' :=
  h.congr (fun _ => rfl) (fun j => by rw [runsOf, stages, runsOf]) (fun j => by rw [callsOf, stages, callsOf])
    fun j => runsAtRephased j runs

theorem joined (h : Counted trace f) {i r : Nat} (known : i < f.stages.size)
    (joins : f.join i = (.run r, f')) (new : entries trace f.runs.size = 0) : Counted trace f' := by
  rcases joinRun joins with ⟨-, rfl⟩ | ⟨-, -, rfl⟩
  · exact h
  · refine ⟨fun j => ?_, fun j => ?_⟩
    · rw [runsOfStart known, runsAtStart, h.runs]
      split
      · rw [Finset.card_insert_of_notMem (newRunsAt f j)]
      · rfl
    · rw [callsOfStart, runsAtStart, h.calls]
      split
      · rw [Finset.sum_insert (newRunsAt f j), new, Nat.zero_add]
      · rfl

theorem entered (h : Counted trace f) {spec : Spec σ V E} {i r input s s' out ph} {events : List (Event V E)}
    (at? : f.runs[r]? = some ⟨i, ph⟩) (known : i < f.stages.size)
    (turn : enterBody spec i r input s f = (out, s', f'))
    (once : ∀ k, entries events k = if k = r then 1 else 0) : Counted (trace ++ events) f' := by
  obtain ⟨-, -, _, runs, -⟩ := enterBodyTurn turn
  have same (j : Nat) : f'.runsAt j = f.runsAt j := runsAtRephased j runs
  have own (j : Nat) : r ∈ f.runsAt j ↔ j = i := by
    rw [memRunsAt]
    constructor
    · rintro ⟨ph', at'⟩
      cases at?.symm.trans at'
      rfl
    · rintro rfl
      exact ⟨ph, at?⟩
  refine ⟨fun j => ?_, fun j => ?_⟩
  · rw [runsOfEntered turn, same, h.runs]
  · simp only [callsOfEntered known turn, same, h.calls, entriesAppend, once, Finset.sum_add_distrib,
      Finset.sum_ite_eq', own]

theorem quiet (h : Counted trace f) {events : List (Event V E)} (none : ∀ r, entries events r = 0) :
    Counted (trace ++ events) f :=
  h.congr (fun r => by rw [entriesAppend, none, Nat.add_zero]) (fun _ => rfl) (fun _ => rfl) fun _ => rfl

end Counted

namespace Play

variable {specs : List (Spec σ V E)} {p p' : Play σ V E} {trace events : List (Event V E)}

theorem entriesEnd (r k : Nat) (out : Option (Except E V)) : entries (endOf r out) k = 0 := by
  cases out <;> rfl

theorem entriesEntered (r k : Nat) (input : Option V) (out : Option (Except E V)) :
    entries (.entered r input :: endOf r out) k = if k = r then 1 else 0 := by
  have last := entriesEnd (V := V) r k out
  unfold entries at last ⊢
  rw [List.countP_cons, last, Nat.zero_add]
  by_cases own : k = r
  · simp [Event.enters, own]
  · simp [Event.enters, own, Ne.symm own]

theorem enteredIff {r : Nat} (once : Stage.entries trace r ≤ 1) :
    Stage.entries trace r = 1 ↔ ∃ input, .entered r input ∈ trace := by
  have some? : Stage.entries trace r = 1 ↔ 0 < Stage.entries trace r := by omega
  rw [some?, Stage.entries, List.countP_pos_iff]
  constructor
  · rintro ⟨e, event, enters⟩
    cases e with
    | entered run input =>
      obtain rfl : run = r := by simpa [Event.enters] using enters
      exact ⟨input, event⟩
    | joined who i run => cases enters
    | received who i run o => cases enters
    | ended run o => cases enters
  · rintro ⟨input, event⟩
    exact ⟨_, event, by simp [Event.enters]⟩

theorem tellsEnd (r k : Nat) (out : Option (Except E V)) : (endOf r out).any (Event.tells k) = false := by
  cases out <;> rfl

theorem Step.entries (h : Step specs p events p') (r : Nat) :
    entries events r = 0 ∨
      entries events r = 1 ∧ p.place (.run r) ≠ .done ∧ p'.place (.run r) = .done := by
  have once {k i : Nat} {ph₀ : Phase σ V E} {f f' : Forest σ V E} {out s} (at? : f.runs[k]? = some ⟨i, ph₀⟩)
      (isOpen : ph₀.place ≠ .done) (turn : BodyTurn f k out f') (settled : f.runs = p.forest.runs)
      (counted : Stage.entries events r = if r = k then 1 else 0) :
      Stage.entries events r = 0 ∨ Stage.entries events r = 1 ∧ p.place (.run r) ≠ .done ∧
        place ⟨s, f', p.callers⟩ (.run r) = .done := by
    rw [counted]
    split
    · rename_i own
      subst own
      refine .inr ⟨rfl, ?_, ?_⟩
      · rwa [placeRun (settled ▸ at?)]
      · rw [placeTurned (s := p.state) at? turn, if_pos rfl]
    · exact .inl rfl
  cases h with
  | others s => exact .inl rfl
  | call i known => exact .inl rfl
  | drop k => exact .inl rfl
  | meetValue waits done => exact .inl rfl
  | meetRun waits joins => exact .inl rfl
  | answer waits atEnd => exact .inl rfl
  | enter fresh spec? root turn => exact once fresh nofun (enterBodyTurn turn) rfl (entriesEntered ..)
  | take fresh spec? source earlier done turn =>
    exact once fresh nofun (enterBodyTurn turn) rfl (entriesEntered ..)
  | await fresh spec? source earlier joins => exact .inl rfl
  | fail waits spec? source earlier atEnd => exact .inl rfl
  | @feed k i spec q src v out s f waits spec? source earlier atEnd turn =>
    have there := waits
    rw [← runsSettle p.forest q src (.ok v)] at there
    exact once there nofun (enterBodyTurn turn) (runsSettle ..) (entriesEntered ..)
  | work busy turn => exact .inl (entriesEnd ..)

def EnteredOnce (trace : List (Event V E)) (p : Play σ V E) : Prop :=
  ∀ r, Stage.entries trace r ≤ 1 ∧ (p.place (.run r) ≠ .done → Stage.entries trace r = 0)

theorem Step.enteredOnce (h : Step specs p events p') (once : EnteredOnce trace p) :
    EnteredOnce (trace ++ events) p' := by
  intro r
  obtain ⟨atMost, none⟩ := once r
  rw [entriesAppend]
  rcases h.entries r with no | ⟨one, before, after⟩
  · rw [no, Nat.add_zero]
    exact ⟨atMost, fun notYet => none ((h.onward _).before notYet)⟩
  · rw [one, none before]
    exact ⟨Nat.le_refl 1, fun notYet => (notYet after).elim⟩

theorem Step.counted (h : Step specs p events p') (ready : Ready specs p) (once : EnteredOnce trace p)
    (counted : Counted trace p.forest) : Counted (trace ++ events) p'.forest := by
  have sound := ready.sound
  have inside {i : Nat} (known : i < specs.length) : i < p.forest.stages.size := sound.size ▸ known
  have unborn : Stage.entries trace p.forest.runs.size = 0 := by
    refine (once _).2 ?_
    simp [place]
  have nobody (r : Nat) : Stage.entries ([] : List (Event V E)) r = 0 := rfl
  cases h with
  | others s => exact counted.quiet nobody
  | call i known => exact counted.quiet nobody
  | drop k => exact counted.quiet nobody
  | meetValue waits done => exact counted.quiet nobody
  | meetRun waits joins => exact (counted.joined (inside (ready.known waits)) joins unborn).quiet nobody
  | answer waits atEnd => exact (counted.settled ..).quiet nobody
  | enter fresh spec? root turn =>
    exact counted.entered fresh (inside (sound.known fresh)) turn fun k => entriesEntered ..
  | take fresh spec? source earlier done turn =>
    exact counted.entered fresh (inside (sound.known fresh)) turn fun k => entriesEntered ..
  | @await r i spec q src f fresh spec? source earlier joins =>
    have joined := counted.joined (inside (Nat.lt_trans earlier (sound.known fresh))) joins unborn
    have waiting : Counted trace (f.setPhase r (.waiting src)) := joined.rephased rfl fun _ => rfl
    exact waiting.quiet nobody
  | @fail r i spec q src e waits spec? source earlier atEnd =>
    have failed : Counted trace ((p.forest.settle q src (.error e)).setPhase r (.finished (.error e))) :=
      (counted.settled q src (.error e)).rephased rfl fun _ => rfl
    exact failed.quiet nobody
  | @feed r i spec q src v out s f waits spec? source earlier atEnd turn =>
    have there := waits
    rw [← runsSettle p.forest q src (.ok v)] at there
    have known := inside (sound.known waits)
    exact (counted.settled q src (.ok v)).entered there (by rwa [sizeSettle]) turn fun k => entriesEntered ..
  | @work r i body out s f busy turn =>
    obtain ⟨-, -, ph, runs, -⟩ := runBodyTurn turn
    exact (counted.rephased (runBodyStages turn) runs).quiet fun k => entriesEnd ..

theorem Reaches.counted {s : σ} (h : Reaches specs s trace p) :
    EnteredOnce trace p ∧ Counted trace p.forest := by
  induction h with
  | refl =>
    have empty (i : Nat) : (Forest.ofSpecs specs).runsAt i = ∅ := by simp [runsAt, Forest.ofSpecs]
    refine ⟨fun r => ⟨Nat.zero_le _, fun _ => rfl⟩, fun i => ?_, fun i => ?_⟩
    · rw [start, empty]
      simp only [runsOf, Forest.ofSpecs, List.getElem?_toArray, List.getElem?_map]
      cases specs[i]? <;> rfl
    · rw [start, empty]
      simp only [callsOf, Forest.ofSpecs, List.getElem?_toArray, List.getElem?_map]
      cases specs[i]? <;> rfl
  | tail first last ih =>
    obtain ⟨once, counted⟩ := ih
    exact ⟨last.enteredOnce once, last.counted (Steps.ready first (readyStart specs s)) once counted⟩

theorem Step.flies (h : Step specs p events p') (ready : Ready specs p) {r i : Nat} {ph}
    (at? : p.forest.runs[r]? = some ⟨i, ph⟩) :
    p'.forest.status i = .inFlight r ↔
      p.forest.status i = .inFlight r ∧ events.any (Event.tells r) = false := by
  have joins {q src : Nat} {f : Forest σ V E} (known : q < specs.length) (joins : p.forest.join q = (.run src, f)) :
      f.status i = .inFlight r ↔ p.forest.status i = .inFlight r := by
    rcases joinRun joins with ⟨-, rfl⟩ | ⟨empty, -, rfl⟩
    · rfl
    · rw [statusStart (ready.sound.size ▸ known)]
      split
      · rename_i own
        have old : r ≠ p.forest.runs.size := by
          rintro rfl
          simp at at?
        simp [own, empty, old.symm]
      · rfl
  have learnt {q src : Nat} {o : Except E V} {f : Forest σ V E}
      (atEnd : p.forest.runs[src]? = some ⟨q, .finished o⟩)
      (now : f.status i = (p.forest.settle q src o).status i) :
      f.status i = .inFlight r ↔ p.forest.status i = .inFlight r ∧ (src == r) = false := by
    rw [now]
    by_cases own : p.forest.status q = .inFlight src
    · rw [statusSettleOwn o own]
      split
      · rename_i same
        rw [same, own, Status.inFlight.injEq, beq_eq_false_iff_ne]
        cases o <;> simp [Status.after]
      · rename_i other
        refine ⟨fun flying => ⟨flying, ?_⟩, fun both => both.1⟩
        rw [beq_eq_false_iff_ne]
        rintro rfl
        cases atEnd.symm.trans at?
        exact other rfl
    · rw [statusSettleOther o own]
      refine ⟨fun flying => ⟨flying, ?_⟩, fun both => both.1⟩
      rw [beq_eq_false_iff_ne]
      rintro rfl
      cases atEnd.symm.trans at?
      exact own flying
  have kept {q src : Nat} {v : V} {o : Except E V} (done : p.forest.status q = .completed src v) :
      p.forest.status i = (p.forest.settle q src o).status i := by
    rw [settleCompleted done]
  cases h with
  | others s => simp
  | call j known => simp
  | drop k => simp
  | meetValue waits done =>
    simpa [Event.tells] using learnt (ready.sound.completed done) (kept done)
  | meetRun waits joined => simpa [Event.tells] using joins (ready.known waits) joined
  | answer waits atEnd => simpa [Event.tells] using learnt atEnd rfl
  | enter fresh spec? root turn =>
    rw [(enterBodyTurn turn).status]
    simp [Event.tells, tellsEnd]
  | take fresh spec? source earlier done turn =>
    have now := learnt (ready.sound.completed done) (((enterBodyTurn turn).status i).trans (kept done))
    simpa [Event.tells, tellsEnd] using now
  | await fresh spec? source earlier joined =>
    rw [statusSetPhase]
    simpa [Event.tells] using joins (Nat.lt_trans earlier (ready.sound.known fresh)) joined
  | fail waits spec? source earlier atEnd =>
    rw [statusSetPhase]
    simpa [Event.tells] using learnt atEnd rfl
  | feed waits spec? source earlier atEnd turn =>
    simpa [Event.tells, tellsEnd] using learnt atEnd ((enterBodyTurn turn).status i)
  | work busy turn =>
    rw [(runBodyTurn turn).status]
    simp [tellsEnd]

theorem untoldOf {r : Nat} (nobody : ∀ who i o, Event.received who i r o ∉ events) :
    events.any (Event.tells r) = false := by
  rw [List.any_eq_false]
  intro e event tells
  cases e with
  | received who i run o =>
    obtain rfl : run = r := by simpa [Event.tells] using tells
    exact nobody who i o event
  | joined who i run => cases tells
  | entered run input => cases tells
  | ended run o => cases tells

theorem Reaches.flies {s : σ} (h : Reaches specs s trace p) : ∀ ⦃r i : Nat⦄ ⦃ph⦄,
    p.forest.runs[r]? = some ⟨i, ph⟩ →
      (p.forest.status i = .inFlight r ↔ trace.any (Event.tells r) = false) := by
  induction h with
  | refl => nofun
  | @tail p p' before events first last ih =>
    intro r i ph at?
    have ready := Reaches.ready first
    rw [List.any_append, Bool.or_eq_false_iff]
    by_cases old : r < p.forest.runs.size
    · obtain ⟨⟨j, ph'⟩, was⟩ : ∃ run, p.forest.runs[r]? = some run := ⟨_, Array.getElem?_eq_getElem old⟩
      obtain ⟨ph'', is, -⟩ := last.grows was
      cases at?.symm.trans is
      rw [last.flies ready was, ih was]
    · have new := Nat.le_of_not_lt old
      obtain ⟨-, rfl⟩ := last.adds new at?
      have unborn : p.forest.runs[r]? = none := Array.getElem?_eq_none new
      refine iff_of_true ((last.ready ready).sound.unfinished at? trivial) ⟨untoldOf ?_, untoldOf ?_⟩
      · intro who j o event
        cases unborn.symm.trans ((Reaches.told first).received event).2
      · intro who j o event
        cases unborn.symm.trans (last.receives ready event).2.2

theorem Steps.flies (h : Steps specs p events p') (ready : Ready specs p) {i r : Nat}
    (flying : p.forest.status i = .inFlight r) (untold : events.any (Event.tells r) = false) :
    p'.forest.status i = .inFlight r ∧ p'.forest.runsAt i = p.forest.runsAt i := by
  induction h with
  | refl => exact ⟨flying, rfl⟩
  | @tail q p' before events first last ih =>
    rw [List.any_append, Bool.or_eq_false_iff] at untold
    obtain ⟨still, same⟩ := ih untold.1
    have ready' := first.ready ready
    obtain ⟨ph, at?⟩ := ready'.sound.inFlight still
    refine ⟨(last.flies ready' at?).mpr ⟨still, untold.2⟩, ?_⟩
    rw [← same]
    ext k
    simp only [memRunsAt]
    constructor
    · rintro ⟨ph', is⟩
      by_cases old : k < q.forest.runs.size
      · obtain ⟨⟨j, ph''⟩, was⟩ : ∃ run, q.forest.runs[k]? = some run := ⟨_, Array.getElem?_eq_getElem old⟩
        obtain ⟨ph₁, is', -⟩ := last.grows was
        cases is.symm.trans is'
        exact ⟨ph'', was⟩
      · cases still.symm.trans (last.begins (Nat.le_of_not_lt old) is)
    · rintro ⟨ph', was⟩
      obtain ⟨ph'', is, -⟩ := last.grows was
      exact ⟨ph'', is⟩

theorem Step.fed (h : Step specs p events p') :
    (∀ r v, .entered r (some v) ∈ events ↔ ∃ q src, .received (.run r) q src (.ok v) ∈ events) ∧
      ∀ ⦃r q src o⦄, .received (.run r) q src o ∈ events →
        ∃ (i : Nat) (ph : _) (spec : _), p.forest.runs[r]? = some ⟨i, ph⟩ ∧ specs[i]? = some spec ∧
          spec.source = some q := by
  have takes {k i q src : Nat} {v : V} {spec ph out} (at? : p.forest.runs[k]? = some ⟨i, ph⟩)
      (spec? : specs[i]? = some spec) (source : spec.source = some q)
      (own : events = .received (.run k) q src (.ok v) :: .entered k (some v) :: endOf k out) :
      (∀ r v, .entered r (some v) ∈ events ↔ ∃ q src, .received (.run r) q src (.ok v) ∈ events) ∧
        ∀ ⦃r q src o⦄, .received (.run r) q src o ∈ events →
          ∃ (i : Nat) (ph : _) (spec : _), p.forest.runs[r]? = some ⟨i, ph⟩ ∧ specs[i]? = some spec ∧
            spec.source = some q := by
    subst own
    refine ⟨fun r w => ?_, fun r q' src' o event => ?_⟩
    · simp [endOf]
    · obtain ⟨same, rfl, -, -⟩ := onlyReceipt event
      cases same
      exact ⟨i, ph, spec, at?, spec?, source⟩
  cases h with
  | others s => simp
  | call i known => simp
  | drop k => simp
  | meetValue waits done => simp
  | meetRun waits joins => simp
  | answer waits atEnd => simp
  | enter fresh spec? root turn => simp [endOf]
  | take fresh spec? source earlier done turn => exact takes fresh spec? source rfl
  | await fresh spec? source earlier joins => simp
  | @fail k i spec q src e waits spec? source earlier atEnd =>
    refine ⟨fun r v => by simp, fun r q' src' o event => ?_⟩
    simp only [List.mem_cons, Event.received.injEq, Recipient.run.injEq, List.not_mem_nil, reduceCtorEq,
      or_false] at event
    obtain ⟨rfl, rfl, -, -⟩ := event
    exact ⟨i, _, spec, waits, spec?, source⟩
  | feed waits spec? source earlier atEnd turn => exact takes waits spec? source rfl
  | work busy turn => simp [endOf]

theorem Reaches.asked {s : σ} (h : Reaches specs s trace p) :
    (∀ r v, .entered r (some v) ∈ trace ↔ ∃ q src, .received (.run r) q src (.ok v) ∈ trace) ∧
      ∀ ⦃r q src o⦄, .received (.run r) q src o ∈ trace →
        ∃ (i : Nat) (ph : _) (spec : _), p.forest.runs[r]? = some ⟨i, ph⟩ ∧ specs[i]? = some spec ∧
          spec.source = some q := by
  induction h with
  | refl => simp
  | @tail p p' before events first last ih =>
    obtain ⟨paired, asks⟩ := ih
    obtain ⟨paired', asks'⟩ := last.fed
    refine ⟨fun r v => ?_, fun r q src o event => ?_⟩
    · simp only [List.mem_append, paired, paired', exists_or]
    · obtain ⟨i, ph, spec, at?, rest⟩ : ∃ (i : Nat) (ph : _) (spec : _),
          p.forest.runs[r]? = some ⟨i, ph⟩ ∧ specs[i]? = some spec ∧ spec.source = some q :=
        (List.mem_append.mp event).elim (asks ·) (asks' ·)
      obtain ⟨ph', at', -⟩ := last.grows at?
      exact ⟨i, ph', spec, at', rest⟩

def seat (p : Play σ V E) (k : Nat) (w : Waiter) : Play σ V E :=
  { p with callers := p.callers.set k (some w) }

theorem Step.seated (h : Step specs p events p') {k : Nat} (gone : p.callers[k]? = some none) (w : Waiter) :
    p'.callers[k]? = some none ∧ Steps specs (p.seat k w) events (p'.seat k w) := by
  have others {j : Nat} {w' : Waiter} (waits : p.callers[j]? = some (some w')) : k ≠ j := by
    rintro rfl
    cases gone.symm.trans waits
  have still {j : Nat} {w' : Waiter} (waits : p.callers[j]? = some (some w')) :
      (p.seat k w).callers[j]? = some (some w') := by
    rwa [seat, List.getElem?_set_ne (others waits)]
  have moved {j : Nat} {slot : Option Waiter} {s : σ} {f : Forest σ V E} {events} (other : k ≠ j)
      (step : Step specs (p.seat k w) events ⟨s, f, (p.seat k w).callers.set j slot⟩) :
      (p.callers.set j slot)[k]? = some none ∧
        Steps specs (p.seat k w) events (seat ⟨s, f, p.callers.set j slot⟩ k w) := by
    have same : seat ⟨s, f, p.callers.set j slot⟩ k w = ⟨s, f, (p.seat k w).callers.set j slot⟩ :=
      congrArg (Play.mk s f) (List.set_comm _ _ other.symm)
    exact ⟨by rwa [List.getElem?_set_ne other.symm], same ▸ .single step⟩
  cases h with
  | others s => exact ⟨gone, .single (.others ..)⟩
  | call i known =>
    have inside : k < p.callers.length := (List.getElem?_eq_some_iff.mp gone).1
    have same : seat { p with callers := p.callers ++ [some ⟨i, none⟩] } k w =
        { p.seat k w with callers := (p.seat k w).callers ++ [some ⟨i, none⟩] } :=
      congrArg (Play.mk p.state p.forest) (List.set_append_left _ _ inside)
    exact ⟨by rwa [List.getElem?_append_left inside], same ▸ .single (.call (p.seat k w) i known)⟩
  | drop j =>
    by_cases own : k = j
    · subst own
      have same : seat { p with callers := p.callers.set k none } k w = p.seat k w :=
        congrArg (Play.mk p.state p.forest) (List.set_set ..)
      have inside : k < p.callers.length := (List.getElem?_eq_some_iff.mp gone).1
      exact ⟨List.getElem?_set_self inside, same ▸ .refl _⟩
    · exact moved own (.drop (p.seat k w) j)
  | meetValue waits done => exact moved (others waits) (.meetValue (still waits) done)
  | meetRun waits joins => exact moved (others waits) (.meetRun (still waits) joins)
  | answer waits atEnd => exact moved (others waits) (.answer (still waits) atEnd)
  | enter fresh spec? root turn => exact ⟨gone, .single (.enter fresh spec? root turn)⟩
  | take fresh spec? source earlier done turn =>
    exact ⟨gone, .single (.take fresh spec? source earlier done turn)⟩
  | await fresh spec? source earlier joins =>
    exact ⟨gone, .single (.await fresh spec? source earlier joins)⟩
  | fail waits spec? source earlier atEnd =>
    exact ⟨gone, .single (.fail waits spec? source earlier atEnd)⟩
  | feed waits spec? source earlier atEnd turn =>
    exact ⟨gone, .single (.feed waits spec? source earlier atEnd turn)⟩
  | work busy turn => exact ⟨gone, .single (.work busy turn)⟩

theorem Steps.seated (h : Steps specs p events p') {k : Nat} (gone : p.callers[k]? = some none) (w : Waiter) :
    p'.callers[k]? = some none ∧ Steps specs (p.seat k w) events (p'.seat k w) := by
  induction h with
  | refl => exact ⟨gone, .refl _⟩
  | tail first last ih =>
    obtain ⟨gone', before⟩ := ih
    obtain ⟨gone'', after⟩ := last.seated gone' w
    exact ⟨gone'', before.trans after⟩

end Play

theorem Sound.failedOrStanding {specs : List (Spec σ V E)} {f : Forest σ V E} (h : Sound specs f) {i r : Nat} {ph}
    (at? : f.runs[r]? = some ⟨i, ph⟩) :
    (∃ e, ph = .finished (.error e)) ∨ f.status i = .inFlight r ∨ ∃ v, f.status i = .completed r v := by
  cases ph with
  | finished o =>
    cases o with
    | error e => exact .inl ⟨e, rfl⟩
    | ok v => exact .inr ((h.succeeded at?).imp_right fun done => ⟨v, done⟩)
  | fresh => exact .inr (.inl (h.unfinished at? trivial))
  | waiting src => exact .inr (.inl (h.unfinished at? trivial))
  | running body => exact .inr (.inl (h.unfinished at? trivial))

theorem Sound.balance {specs : List (Spec σ V E)} {f : Forest σ V E} (h : Sound specs f) {i : Nat}
    {past : Finset Nat} (failed : ∀ r, r ∈ past ↔ r ∈ f.failedAt i ∧ f.status i ≠ .inFlight r) :
    (f.runsAt i).card = past.card + (f.status i).standing := by
  have behind {r : Nat} (own : r ∈ past) : r ∈ f.runsAt i := by
    obtain ⟨e, at?⟩ := memFailedAt.mp ((failed r).mp own).1
    exact memRunsAt.mpr ⟨_, at?⟩
  have alone {now : Nat} {ph} (at? : f.runs[now]? = some ⟨i, ph⟩) (present : now ∉ past)
      (named : ∀ r, (f.status i = .inFlight r ∨ ∃ v, f.status i = .completed r v) → r = now) :
      (f.runsAt i).card = past.card + 1 := by
    rw [← Finset.card_insert_of_notMem present]
    congr 1
    ext r
    rw [Finset.mem_insert, memRunsAt]
    constructor
    · rintro ⟨ph', at'⟩
      rcases h.failedOrStanding at' with ⟨e, rfl⟩ | standing
      · by_cases same : r = now
        · exact .inl same
        · refine .inr ((failed r).mpr ⟨memFailedAt.mpr ⟨e, at'⟩, fun flying => same (named r (.inl flying))⟩)
      · exact .inl (named r standing)
    · rintro (rfl | own)
      · exact ⟨ph, at?⟩
      · exact memRunsAt.mp (behind own)
  cases now : f.status i with
  | empty =>
    refine congrArg Finset.card (Finset.Subset.antisymm (fun r own => ?_) fun r own => behind own)
    obtain ⟨ph, at?⟩ := memRunsAt.mp own
    obtain ⟨e, rfl⟩ := h.failedBefore now at?
    exact (failed r).mpr ⟨memFailedAt.mpr ⟨e, at?⟩, by simp [now]⟩
  | inFlight r =>
    obtain ⟨ph, at?⟩ := h.inFlight now
    refine alone at? (fun own => ((failed r).mp own).2 now) ?_
    rintro r' (flying | ⟨v, done⟩)
    · cases now.symm.trans flying
      rfl
    · cases now.symm.trans done
  | completed r v =>
    have at? := h.completed now
    refine alone at? (fun own => ?_) ?_
    · obtain ⟨e, at'⟩ := memFailedAt.mp ((failed r).mp own).1
      cases at?.symm.trans at'
    · rintro r' (flying | ⟨v', done⟩)
      · cases now.symm.trans flying
      · cases now.symm.trans done
        rfl

namespace Play

variable {specs : List (Spec σ V E)}

/-- The books of every stage. Between two turns it has started as many runs as have failed,
and one more if it is in flight or completed; between any two actions the same holds of the
failed runs that somebody knows of, and until then a run is in flight. Its body was entered
once at most in each run, behind a source just in the runs that the source has given a value.
And whatever follows the departure of a caller could as well have followed with the caller
still in its seat; as long as nobody learns the outcome of the run that the caller had asked
for, no other run begins, and whoever asks takes the turns of that run. -/
theorem accounted (specs : List (Spec σ V E)) (s : σ) :
    (∀ ⦃p⦄, Turns specs (start specs s) p → ∀ i,
      p.forest.runsOf i = (p.forest.failedAt i).card + (p.forest.status i).standing) ∧
    ∀ ⦃trace p⦄, Reaches specs s trace p →
      (∀ i, p.forest.runsOf i = {r ∈ p.forest.failedAt i | trace.any (Event.tells r)}.card +
        (p.forest.status i).standing) ∧
      (∀ ⦃r i : Nat⦄ ⦃ph⦄, p.forest.runs[r]? = some ⟨i, ph⟩ →
        (p.forest.status i = .inFlight r ↔ trace.any (Event.tells r) = false)) ∧
      (∀ i, p.forest.callsOf i = ∑ r ∈ p.forest.runsAt i, entries trace r) ∧
      (∀ r, entries trace r ≤ 1) ∧
      (∀ ⦃r i q : Nat⦄ ⦃ph spec⦄, p.forest.runs[r]? = some ⟨i, ph⟩ → specs[i]? = some spec →
        spec.source = some q →
          (entries trace r = 1 ↔ ∃ src v, .received (.run r) q src (.ok v) ∈ trace)) ∧
      ∀ ⦃k : Nat⦄ ⦃w⦄, p.callers[k]? = some (some w) →
        ∀ ⦃events p'⦄, Steps specs { p with callers := p.callers.set k none } events p' →
          Steps specs p events (p'.seat k w) ∧
            ∀ ⦃r⦄, p.forest.status w.stage = .inFlight r → events.any (Event.tells r) = false →
              p'.forest.status w.stage = .inFlight r ∧
                p'.forest.runsOf w.stage = p.forest.runsOf w.stage ∧
                ∀ s, Forest.poll specs ⟨w.stage, none⟩ s p'.forest =
                  Forest.poll specs ⟨w.stage, some r⟩ s p'.forest := by
  refine ⟨fun p reached i => ?_, fun trace p reached => ?_⟩
  · obtain ⟨trace, steps⟩ := reached.steps (readyStart specs s)
    have noted := reached.noted (readyStart specs s) nofun
    rw [(Reaches.counted steps).2.runs]
    refine (Reaches.ready steps).sound.balance fun r => ⟨fun own => ⟨own, fun flying => ?_⟩, fun own => own.1⟩
    obtain ⟨e, at?⟩ := memFailedAt.mp own
    cases noted at? flying
  have ready := reached.ready
  obtain ⟨once, counted⟩ := reached.counted
  refine ⟨fun i => ?_, reached.flies, counted.calls, fun r => (once r).1, ?_, ?_⟩
  · rw [counted.runs]
    refine ready.sound.balance fun r => ?_
    rw [Finset.mem_filter]
    refine and_congr_right fun own => ?_
    obtain ⟨e, at?⟩ := memFailedAt.mp own
    rw [Ne, reached.flies at?, Bool.not_eq_false]
  · intro r i q ph spec at? spec? source
    obtain ⟨paired, asks⟩ := reached.asked
    rw [enteredIff (once r).1]
    constructor
    · rintro ⟨input, event⟩
      cases reached.fed.input event at? spec? with
      | none root => cases root.symm.trans source
      | stored source' done =>
        obtain ⟨q', src, receipt⟩ := (paired r _).mp event
        obtain ⟨i', ph', spec', at', spec'?, source''⟩ := asks receipt
        cases at?.symm.trans at'
        cases spec?.symm.trans spec'?
        cases source.symm.trans source''
        exact ⟨src, _, receipt⟩
    · rintro ⟨src, v, receipt⟩
      exact ⟨some v, (paired r v).mpr ⟨q, src, receipt⟩⟩
  · intro k w waits events p' later
    obtain ⟨inside, here⟩ := List.getElem?_eq_some_iff.mp waits
    have gone : (p.callers.set k none)[k]? = some none := List.getElem?_set_self inside
    have seated := (later.seated gone w).2
    have back : seat { p with callers := p.callers.set k none } k w = p := by
      refine congrArg (Play.mk p.state p.forest) ?_
      rw [List.set_set, ← here, List.set_getElem_self]
    rw [back] at seated
    refine ⟨seated, fun r flying untold => ?_⟩
    obtain ⟨still, same⟩ := seated.flies ready flying untold
    refine ⟨still, ?_, fun s => ?_⟩
    · have whole : Reaches specs s (trace ++ events) (p'.seat k w) := Steps.trans reached seated
      rw [counted.runs, ← same]
      exact whole.counted.2.runs w.stage
    · have now : p'.forest.status w.stage = .inFlight r := still
      simp only [Forest.poll, join, now]
      rfl

theorem leaverReplaced :
    (∃ p, Turns countedOn (start countedOn false) p ∧ p.forest.failedAt 1 = {0} ∧
      p.forest.runsOf 1 = (p.forest.failedAt 1).card + (p.forest.status 1).standing) ∧
    ∃ trace p, Reaches countedOn false trace p ∧ p.callers[1]? = some (some ⟨1, some 2⟩) ∧
      p.forest.runsOf 1 = 2 ∧
      p.forest.runsOf 1 = {r ∈ p.forest.failedAt 1 | trace.any (Event.tells r)}.card +
        (p.forest.status 1).standing ∧
      (entries trace 0 = 1 ↔ ∃ src v, .received (.run 0) 0 src (.ok v) ∈ trace) ∧
      ∃ events p', Steps countedOn { p with callers := p.callers.set 1 none } events p' ∧
        p'.callers[2]? = some (some ⟨1, none⟩) ∧ p'.forest.runsOf 1 = p.forest.runsOf 1 ∧
        Forest.poll countedOn ⟨1, none⟩ true p'.forest = Forest.poll countedOn ⟨1, some 2⟩ true p'.forest := by
  constructor
  · have asked : Turns countedOn (start countedOn false) _ := .tail (.refl _) (.call _ 1 Nat.one_lt_two)
    have failed := asked.tail (.poll (k := 0) rfl)
    exact ⟨_, failed, by decide +kernel, (accounted countedOn false).1 failed 1⟩
  · have asked : Reaches countedOn false _ _ := Steps.single (.call _ 1 Nat.one_lt_two)
    have joined := (asked.tail (.meetRun (k := 0) rfl rfl)).tail (.await (r := 0) rfl rfl rfl Nat.one_pos rfl)
    have failed := (joined.tail (.enter (r := 1) rfl rfl rfl rfl)).tail (.fail (r := 0) rfl rfl rfl Nat.one_pos rfl)
    have known := (failed.tail (.answer (k := 0) rfl rfl)).tail (.others _ true)
    have again := (known.tail (.call _ 1 Nat.one_lt_two)).tail (.meetRun (k := 1) rfl rfl)
    have rejoined := again.tail (.await (r := 2) rfl rfl rfl Nat.one_pos rfl)
    obtain ⟨books, -, -, -, fed, leave⟩ := (accounted countedOn false).2 rejoined
    have later (q : Play Bool Nat Unit) :
        Steps countedOn q [] { q with callers := q.callers ++ [some ⟨1, none⟩] } :=
      .single (.call q 1 Nat.one_lt_two)
    obtain ⟨-, resumed⟩ := leave (k := 1) rfl (later _)
    obtain ⟨-, same, turn⟩ := resumed (r := 2) rfl rfl
    exact ⟨_, _, rejoined, rfl, rfl, books 1, fed (r := 0) rfl rfl rfl, _, _, later _, rfl, same, turn true⟩

end Play
end BuildReuse.Stage
