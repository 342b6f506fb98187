import BuildReuse.Proofs.Stage.Sound

/-! What the events of a play tell about its present state. A recipient goes from
free to bound to one run and from there to done, and never back; who received an
outcome received it from a run that has ended with it. -/
namespace BuildReuse.Stage

open Forest

variable {σ V E : Type}

inductive Place where
  | free
  | bound (run : Nat)
  | done

def Place.Onward (a b : Place) : Prop := b = a ∨ a = .free ∨ b = .done

theorem Place.Onward.stays {a b : Place} {r : Nat} (h : a.Onward b) (at? : a = .bound r ∨ a = .done) :
    b = .bound r ∨ b = .done := by
  rcases h with rfl | rfl | rfl
  · exact at?
  · rcases at? with no | no <;> cases no
  · exact .inr rfl

def Waiter.place (w : Waiter) : Place :=
  match w.run with
  | none => .free
  | some r => .bound r

def Phase.place : Phase σ V E → Place
  | .fresh => .free
  | .waiting src => .bound src
  | .running _ | .finished _ => .done

def Play.place (p : Play σ V E) : Recipient → Place
  | .caller k => ((p.callers[k]?).map fun slot => (slot.map Waiter.place).getD .done).getD .free
  | .run r => ((p.forest.runs[r]?).map fun run => run.phase.place).getD .free

def Forest.Grows (f f' : Forest σ V E) : Prop :=
  ∀ ⦃r i : Nat⦄ ⦃ph⦄, f.runs[r]? = some ⟨i, ph⟩ →
    ∃ ph', f'.runs[r]? = some ⟨i, ph'⟩ ∧ (ph.Open ∨ ph' = ph)

namespace Forest.Grows

theorem refl (f : Forest σ V E) : Grows f f := fun _ _ ph at? => ⟨ph, at?, .inr rfl⟩

theorem trans {f g h : Forest σ V E} (a : Grows f g) (b : Grows g h) : Grows f h := by
  intro r i ph at?
  obtain ⟨ph', at', same⟩ := a at?
  obtain ⟨ph'', at'', same'⟩ := b at'
  refine ⟨ph'', at'', ?_⟩
  rcases same with isOpen | rfl
  · exact .inl isOpen
  · exact same'

theorem ofRuns {f f' : Forest σ V E} (h : f'.runs = f.runs) : Grows f f' := by
  intro r i ph at?
  exact ⟨ph, h ▸ at?, .inr rfl⟩

theorem settle (f : Forest σ V E) (i r : Nat) (o : Except E V) : Grows f (f.settle i r o) :=
  ofRuns (runsSettle f i r o)

theorem join {f f' : Forest σ V E} {i r : Nat} (h : f.join i = (.run r, f')) : Grows f f' :=
  fun _ _ ph at? => ⟨ph, runsJoin h at?, .inr rfl⟩

theorem rephased {f f' : Forest σ V E} {r i : Nat} {ph₀ ph} (at? : f.runs[r]? = some ⟨i, ph₀⟩)
    (isOpen : ph₀.Open) (runs : ∀ k : Nat, f'.runs[k]? = (f.setPhase r ph).runs[k]?) :
    Grows f f' := by
  intro k j ph' there
  rw [runs, runsSetPhase]
  split
  · rename_i same
    subst same
    rw [at?] at there
    cases there
    exact ⟨ph, by simp [at?], .inl isOpen⟩
  · exact ⟨ph', there, .inr rfl⟩

theorem turned {f f' : Forest σ V E} {r i : Nat} {ph₀ out} (at? : f.runs[r]? = some ⟨i, ph₀⟩)
    (isOpen : ph₀.Open) (turn : BodyTurn f r out f') : Grows f f' := by
  obtain ⟨-, -, ph, runs, -⟩ := turn
  exact rephased at? isOpen runs

theorem finished {f f' : Forest σ V E} (h : Grows f f') {r i : Nat} {o}
    (at? : f.runs[r]? = some ⟨i, .finished o⟩) : f'.runs[r]? = some ⟨i, .finished o⟩ := by
  obtain ⟨ph, at', never | same⟩ := h at?
  · exact never.elim
  · rwa [same] at at'

end Forest.Grows

theorem oldOrLast {α : Type} {l : List α} {x y : α} {k : Nat} (h : (l ++ [x])[k]? = some y) :
    l[k]? = some y ∨ k = l.length ∧ y = x := by
  rw [List.getElem?_append] at h
  split at h
  · exact .inl h
  · rename_i beyond
    have last : k - l.length = 0 := by
      have := (List.getElem?_eq_some_iff.mp h).1
      simpa using this
    rw [last] at h
    exact .inr ⟨by omega, (Option.some.inj h).symm⟩

namespace Play

structure Ready (specs : List (Spec σ V E)) (p : Play σ V E) : Prop where
  sound : Sound specs p.forest
  known : ∀ ⦃k : Nat⦄ ⦃w : Waiter⦄, p.callers[k]? = some (some w) → w.stage < specs.length
  bound : ∀ ⦃k i r : Nat⦄, p.callers[k]? = some (some ⟨i, some r⟩) →
    ∃ ph, p.forest.runs[r]? = some ⟨i, ph⟩

variable {specs : List (Spec σ V E)} {p p' : Play σ V E} {events : List (Event V E)}

theorem readyStart (specs : List (Spec σ V E)) (s : σ) : Ready specs (start specs s) :=
  ⟨.ofSpecs specs, by simp [start], by simp [start]⟩

theorem Ready.grown (h : Ready specs p) {s f} (sound : Sound specs f) (grows : Grows p.forest f) :
    Ready specs { p with state := s, forest := f } := by
  refine ⟨sound, h.known, fun k i r waits => ?_⟩
  obtain ⟨ph, at?⟩ := h.bound waits
  obtain ⟨ph', at', -⟩ := grows at?
  exact ⟨ph', at'⟩

theorem Ready.set (h : Ready specs p) (k : Nat) {slot : Option Waiter}
    (known : ∀ w, slot = some w → w.stage < specs.length)
    (bound : ∀ i r, slot = some ⟨i, some r⟩ → ∃ ph, p.forest.runs[r]? = some ⟨i, ph⟩) :
    Ready specs { p with callers := p.callers.set k slot } := by
  refine ⟨h.sound, fun j w waits => ?_, fun j i r waits => ?_⟩
  · rw [List.getElem?_set] at waits
    split at waits
    · split at waits
      · exact known w (Option.some.inj waits)
      · cases waits
    · exact h.known waits
  · rw [List.getElem?_set] at waits
    split at waits
    · split at waits
      · exact bound i r (Option.some.inj waits)
      · cases waits
    · exact h.bound waits

theorem Ready.left (h : Ready specs p) (k : Nat) :
    Ready specs { p with callers := p.callers.set k none } :=
  h.set k nofun nofun

theorem Step.grows (h : Step specs p events p') : Grows p.forest p'.forest := by
  cases h with
  | others s => exact .refl _
  | call i known => exact .refl _
  | drop k => exact .refl _
  | meetValue waits done => exact .refl _
  | meetRun waits joins => exact .join joins
  | answer waits atEnd => exact .settle ..
  | enter fresh spec? root turn => exact .turned fresh trivial (enterBodyTurn turn)
  | take fresh spec? source earlier done turn => exact .turned fresh trivial (enterBodyTurn turn)
  | await fresh spec? source earlier joins =>
    exact (Grows.join joins).trans (.rephased (runsJoin joins fresh) trivial fun _ => rfl)
  | @fail r i spec q src e waits spec? source earlier atEnd =>
    have there := waits
    rw [← runsSettle p.forest q src (.error e)] at there
    exact (Grows.settle ..).trans (.rephased there trivial fun _ => rfl)
  | @feed r i spec q src v out s f waits spec? source earlier atEnd turn =>
    have there := waits
    rw [← runsSettle p.forest q src (.ok v)] at there
    exact (Grows.settle ..).trans (.turned there trivial (enterBodyTurn turn))
  | work busy turn => exact .turned busy trivial (runBodyTurn turn)

theorem Step.sound (h : Step specs p events p') (ready : Ready specs p) :
    Sound specs p'.forest := by
  have sound := ready.sound
  cases h with
  | others s => exact sound
  | call i known => exact sound
  | drop k => exact sound
  | meetValue waits done => exact sound
  | meetRun waits joins => exact (sound.joined (ready.known waits) joins).1
  | answer waits atEnd => exact sound.settled atEnd
  | enter fresh spec? root turn => exact sound.turned fresh trivial (enterBodyTurn turn)
  | take fresh spec? source earlier done turn =>
    exact sound.turned fresh trivial (enterBodyTurn turn)
  | @await r i spec q src f fresh spec? source earlier joins =>
    obtain ⟨sound', ph, there⟩ := sound.joined (Nat.lt_trans earlier (sound.known fresh)) joins
    refine sound'.rephased (runsJoin joins fresh) trivial rfl (fun _ => rfl) (fun _ => rfl) ?_
    rintro _ ⟨⟩
    exact ⟨spec, q, ph, spec?, source, there⟩
  | @fail r i spec q src e waits spec? source earlier atEnd =>
    have there := waits
    rw [← runsSettle p.forest q src (.error e)] at there
    exact (sound.settled atEnd).rephased there trivial rfl (fun _ => rfl) (fun _ => rfl) nofun
  | @feed r i spec q src v out s f waits spec? source earlier atEnd turn =>
    have there := waits
    rw [← runsSettle p.forest q src (.ok v)] at there
    exact (sound.settled atEnd).turned there trivial (enterBodyTurn turn)
  | work busy turn => exact sound.turned busy trivial (runBodyTurn turn)

theorem Step.ready (h : Step specs p events p') (ready : Ready specs p) : Ready specs p' := by
  have grown (s : σ) := ready.grown (s := s) (h.sound ready) h.grows
  cases h with
  | others s => exact ⟨ready.sound, ready.known, ready.bound⟩
  | call i known =>
    refine ⟨ready.sound, fun k w waits => ?_, fun k j r waits => ?_⟩
    · rcases oldOrLast waits with old | ⟨-, new⟩
      · exact ready.known old
      · cases new
        exact known
    · rcases oldOrLast waits with old | ⟨-, new⟩
      · exact ready.bound old
      · cases new
  | drop k => exact ready.left k
  | @meetValue k i r v waits done => exact ready.left k
  | @meetRun k i r f waits joins =>
    have known : i < specs.length := ready.known waits
    refine (grown p.state).set k (fun w this => ?_) (fun j r' this => ?_)
    · cases this
      exact known
    · cases this
      exact (ready.sound.joined known joins).2
  | @answer k i r o waits atEnd => exact (grown _).left k
  | enter fresh spec? root turn => exact grown _
  | take fresh spec? source earlier done turn => exact grown _
  | await fresh spec? source earlier joins => exact grown _
  | fail waits spec? source earlier atEnd => exact grown _
  | feed waits spec? source earlier atEnd turn => exact grown _
  | work busy turn => exact grown _

theorem placeCaller {k : Nat} {slot} (at? : p.callers[k]? = some slot) :
    p.place (.caller k) = (slot.map Waiter.place).getD .done := by
  simp [place, at?]

theorem placeRun {r i : Nat} {ph} (at? : p.forest.runs[r]? = some ⟨i, ph⟩) :
    p.place (.run r) = ph.place := by
  simp [place, at?]

theorem placeSet {s : σ} {f : Forest σ V E} {callers} (k : Nat) (slot : Option Waiter)
    (who : Recipient) :
    place ⟨s, f, callers.set k slot⟩ who =
      if who = .caller k ∧ k < callers.length then (slot.map Waiter.place).getD .done
      else place ⟨s, f, callers⟩ who := by
  cases who with
  | run r => simp [place]
  | caller j =>
    by_cases same : j = k
    · subst same
      by_cases inside : j < callers.length
      · simp [place, inside]
      · simp [place, inside]
    · simp [place, same, Ne.symm same]

theorem placeRephased {s : σ} {f f' : Forest σ V E} {callers} {r i : Nat} {ph₀ ph}
    (at? : f.runs[r]? = some ⟨i, ph₀⟩) (runs : ∀ k : Nat, f'.runs[k]? = (f.setPhase r ph).runs[k]?)
    (s' : σ) (who : Recipient) :
    place ⟨s', f', callers⟩ who = if who = .run r then ph.place else place ⟨s, f, callers⟩ who := by
  cases who with
  | caller k => simp [place]
  | run k =>
    by_cases same : k = r
    · subst same
      simp [place, runs, runsSetPhase, at?]
    · simp [place, runs, runsSetPhase, same, Ne.symm same]

theorem placeTurned {s : σ} {f f' : Forest σ V E} {callers} {r i : Nat} {ph₀ out}
    (at? : f.runs[r]? = some ⟨i, ph₀⟩) (turn : BodyTurn f r out f') (s' : σ) (who : Recipient) :
    place ⟨s', f', callers⟩ who = if who = .run r then .done else place ⟨s, f, callers⟩ who := by
  obtain ⟨-, -, ph, runs, ⟨body, rfl, -⟩ | ⟨o, rfl, -⟩⟩ := turn
  · exact placeRephased at? runs s' who
  · exact placeRephased at? runs s' who

theorem placeJoin {s : σ} {f f' : Forest σ V E} {callers} {i r : Nat}
    (joins : f.join i = (.run r, f')) (s' : σ) (who : Recipient) :
    place ⟨s', f', callers⟩ who = place ⟨s, f, callers⟩ who := by
  cases who with
  | caller k => rfl
  | run k =>
    rcases joinRun joins with ⟨-, rfl⟩ | ⟨-, rfl, rfl⟩
    · rfl
    · by_cases new : k = f.runs.size
      · simp [place, runsStart, new, Phase.place]
      · simp [place, runsStart, new]

theorem placeSettle {s : σ} {f : Forest σ V E} {callers} (i r : Nat) (o : Except E V)
    (s' : σ) (who : Recipient) :
    place ⟨s', f.settle i r o, callers⟩ who = place ⟨s, f, callers⟩ who := by
  cases who with
  | caller k => rfl
  | run k => simp [place, runsSettle]

theorem placeLeft {s : σ} {f : Forest σ V E} {callers : List (Option Waiter)} {k : Nat} {slot}
    (at? : callers[k]? = some slot) (left : Option Waiter) :
    place ⟨s, f, callers.set k left⟩ (.caller k) = (left.map Waiter.place).getD .done := by
  have inside : k < callers.length := (List.getElem?_eq_some_iff.mp at?).1
  rw [placeSet, if_pos ⟨rfl, inside⟩]

theorem Step.onward (h : Step specs p events p') (who : Recipient) :
    (p.place who).Onward (p'.place who) := by
  cases h with
  | others s => exact .inl rfl
  | call i known =>
    cases who with
    | run r => exact .inl rfl
    | caller k =>
      by_cases inside : k < p.callers.length
      · exact .inl (by simp [place, List.getElem?_append_left inside])
      · exact .inr (.inl (by simp [place, List.getElem?_eq_none (Nat.le_of_not_lt inside)]))
  | drop k =>
    rw [placeSet]
    split
    · exact .inr (.inr rfl)
    · exact .inl rfl
  | meetValue waits done =>
    rw [placeSet]
    split
    · exact .inr (.inr rfl)
    · exact .inl rfl
  | meetRun waits joins =>
    rw [placeSet]
    split
    · rename_i own
      rw [own.1]
      exact .inr (.inl (placeCaller waits))
    · exact .inl (placeJoin joins ..)
  | answer waits atEnd =>
    rw [placeSet]
    split
    · exact .inr (.inr rfl)
    · exact .inl (placeSettle ..)
  | enter fresh spec? root turn =>
    rw [placeTurned (s := p.state) fresh (enterBodyTurn turn)]
    split
    · exact .inr (.inr rfl)
    · exact .inl rfl
  | take fresh spec? source earlier done turn =>
    rw [placeTurned (s := p.state) fresh (enterBodyTurn turn)]
    split
    · exact .inr (.inr rfl)
    · exact .inl rfl
  | await fresh spec? source earlier joins =>
    rw [placeRephased (s := p.state) (runsJoin joins fresh) fun _ => rfl]
    split
    · rename_i own
      rw [own]
      exact .inr (.inl (placeRun fresh))
    · exact .inl (placeJoin joins ..)
  | @fail r i spec q src e waits spec? source earlier atEnd =>
    have there := waits
    rw [← runsSettle p.forest q src (.error e)] at there
    rw [placeRephased (s := p.state) there fun _ => rfl]
    split
    · exact .inr (.inr rfl)
    · exact .inl (placeSettle ..)
  | @feed r i spec q src v out s f waits spec? source earlier atEnd turn =>
    have there := waits
    rw [← runsSettle p.forest q src (.ok v)] at there
    rw [placeTurned (s := p.state) there (enterBodyTurn turn)]
    split
    · exact .inr (.inr rfl)
    · exact .inl (placeSettle ..)
  | work busy turn =>
    rw [placeTurned (s := p.state) busy (runBodyTurn turn)]
    split
    · exact .inr (.inr rfl)
    · exact .inl rfl

theorem Step.joins (h : Step specs p events p') (ready : Ready specs p) {who stage run}
    (event : .joined who stage run ∈ events) :
    p'.place who = .bound run ∧ p.place who = .free ∧ ∃ ph, p'.forest.runs[run]? = some ⟨stage, ph⟩ := by
  cases h with
  | others s => cases event
  | call i known => cases event
  | drop k => cases event
  | meetValue waits done => simp at event
  | @meetRun k i r f waits joins =>
    simp only [List.mem_singleton, Event.joined.injEq] at event
    obtain ⟨rfl, rfl, rfl⟩ := event
    exact ⟨placeLeft waits _, placeCaller waits, (ready.sound.joined (ready.known waits) joins).2⟩
  | answer waits atEnd => simp at event
  | enter fresh spec? root turn => simp [endOf] at event
  | take fresh spec? source earlier done turn => simp [endOf] at event
  | @await r i spec q src f fresh spec? source earlier joins =>
    simp only [List.mem_singleton, Event.joined.injEq] at event
    obtain ⟨rfl, rfl, rfl⟩ := event
    have fresh' := runsJoin joins fresh
    refine ⟨?_, placeRun fresh, ?_⟩
    · rw [placeRephased (s := p.state) fresh' fun _ => rfl, if_pos rfl]
      rfl
    · obtain ⟨ph, there⟩ :=
        (ready.sound.joined (Nat.lt_trans earlier (ready.sound.known fresh)) joins).2
      have grows : Grows f (f.setPhase r (.waiting run)) := .rephased fresh' trivial fun _ => rfl
      obtain ⟨ph', there', -⟩ := grows there
      exact ⟨ph', there'⟩
  | fail waits spec? source earlier atEnd => simp at event
  | feed waits spec? source earlier atEnd turn => simp [endOf] at event
  | work busy turn => simp [endOf] at event

theorem Step.receives (h : Step specs p events p') (ready : Ready specs p) {who stage run outcome}
    (event : .received who stage run outcome ∈ events) :
    p'.place who = .done ∧ (p.place who = .free ∨ p.place who = .bound run) ∧
      p.forest.runs[run]? = some ⟨stage, .finished outcome⟩ := by
  cases h with
  | others s => cases event
  | call i known => cases event
  | drop k => cases event
  | meetValue waits done =>
    simp only [List.mem_singleton, Event.received.injEq] at event
    obtain ⟨rfl, rfl, rfl, rfl⟩ := event
    exact ⟨placeLeft waits _, .inl (placeCaller waits), ready.sound.completed done⟩
  | meetRun waits joins => simp at event
  | answer waits atEnd =>
    simp only [List.mem_singleton, Event.received.injEq] at event
    obtain ⟨rfl, rfl, rfl, rfl⟩ := event
    exact ⟨placeLeft waits _, .inr (placeCaller waits), atEnd⟩
  | enter fresh spec? root turn => simp [endOf] at event
  | take fresh spec? source earlier done turn =>
    obtain ⟨rfl, rfl, rfl, rfl⟩ := onlyReceipt event
    refine ⟨?_, .inl (placeRun fresh), ready.sound.completed done⟩
    rw [placeTurned (s := p.state) fresh (enterBodyTurn turn), if_pos rfl]
  | await fresh spec? source earlier joins => simp at event
  | @fail r i spec q src e waits spec? source earlier atEnd =>
    simp only [List.mem_cons, Event.received.injEq, List.not_mem_nil, reduceCtorEq, or_false] at event
    obtain ⟨rfl, rfl, rfl, rfl⟩ := event
    have there := waits
    rw [← runsSettle p.forest stage run (.error e)] at there
    refine ⟨?_, .inr (placeRun waits), atEnd⟩
    rw [placeRephased (s := p.state) there fun _ => rfl, if_pos rfl]
    rfl
  | @feed r i spec q src v out s f waits spec? source earlier atEnd turn =>
    obtain ⟨rfl, rfl, rfl, rfl⟩ := onlyReceipt event
    have there := waits
    rw [← runsSettle p.forest stage run (.ok v)] at there
    refine ⟨?_, .inr (placeRun waits), atEnd⟩
    rw [placeTurned (s := p.state) there (enterBodyTurn turn), if_pos rfl]
  | work busy turn => simp [endOf] at event

structure Told (trace : List (Event V E)) (p : Play σ V E) : Prop where
  joined : ∀ ⦃who i r⦄, .joined who i r ∈ trace →
    (p.place who = .bound r ∨ p.place who = .done) ∧ ∃ ph, p.forest.runs[r]? = some ⟨i, ph⟩
  received : ∀ ⦃who i r o⦄, .received who i r o ∈ trace →
    p.place who = .done ∧ p.forest.runs[r]? = some ⟨i, .finished o⟩
  paired : ∀ ⦃who i j r r' o⦄, .joined who i r ∈ trace → .received who j r' o ∈ trace → r' = r

theorem Told.step {trace} (h : Told trace p) (ready : Ready specs p) (step : Step specs p events p') :
    Told (trace ++ events) p' := by
  have grows := step.grows
  constructor
  case joined =>
    intro who i r event
    rcases List.mem_append.mp event with old | new
    · obtain ⟨at?, ph, there⟩ := h.joined old
      obtain ⟨ph', there', -⟩ := grows there
      exact ⟨(step.onward who).stays at?, ph', there'⟩
    · obtain ⟨now, -, there⟩ := step.joins ready new
      exact ⟨.inl now, there⟩
  case received =>
    intro who i r o event
    rcases List.mem_append.mp event with old | new
    · obtain ⟨done, atEnd⟩ := h.received old
      refine ⟨?_, grows.finished atEnd⟩
      rcases step.onward who with same | free | done'
      · rw [same, done]
      · rw [done] at free
        cases free
      · exact done'
    · obtain ⟨done, -, atEnd⟩ := step.receives ready new
      exact ⟨done, grows.finished atEnd⟩
  case paired =>
    intro who i j r r' o joined received
    rcases List.mem_append.mp joined with oldJoin | newJoin
    · rcases List.mem_append.mp received with oldReceipt | newReceipt
      · exact h.paired oldJoin oldReceipt
      · obtain ⟨-, free | bound, -⟩ := step.receives ready newReceipt
        · rcases (h.joined oldJoin).1 with at? | at? <;> rw [free] at at? <;> cases at?
        · rcases (h.joined oldJoin).1 with at? | at? <;> rw [bound] at at? <;> cases at?
          rfl
    · obtain ⟨now, free, -⟩ := step.joins ready newJoin
      rcases List.mem_append.mp received with oldReceipt | newReceipt
      · rw [(h.received oldReceipt).1] at free
        cases free
      · rw [(step.receives ready newReceipt).1] at now
        cases now

theorem Steps.ready (h : Steps specs p events p') (ready : Ready specs p) : Ready specs p' := by
  induction h with
  | refl => exact ready
  | tail _ last ih => exact last.ready ih

theorem Reaches.ready {s : σ} {trace} (h : Reaches specs s trace p) : Ready specs p :=
  Steps.ready h (readyStart specs s)

theorem Steps.told (h : Steps specs p events p') (ready : Ready specs p) {trace}
    (told : Told trace p) : Told (trace ++ events) p' := by
  induction h with
  | refl => simpa using told
  | tail first last ih =>
    rw [← List.append_assoc]
    exact ih.step (first.ready ready) last

theorem Reaches.told {s : σ} {trace} (h : Reaches specs s trace p) : Told trace p := by
  have nothing : Told [] (start specs s) := ⟨nofun, nofun, nofun⟩
  simpa using Steps.told h (readyStart specs s) nothing

end Play
end BuildReuse.Stage
