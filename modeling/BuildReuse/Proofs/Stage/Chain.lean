import BuildReuse.Proofs.Stage.Memoized

/-! Chains. The body of a stage with a source is entered with the value that the source
keeps, whatever runs of the source failed before, and the value of a completed stage is
what that body has come to. -/
namespace BuildReuse

inductive Task.Comes {σ α : Type} (t : Task σ α) : Task σ α → Prop where
  | first (s : σ) : Comes t (t.run s).2
  | next {rest : Task σ α} (before : Comes t rest) (s : σ) : Comes t (rest.poll s).2

namespace Stage

open Forest

variable {σ V E : Type}

def Phase.rest? : Phase σ V E → Option (Task σ (Except E V))
  | .running body => some body
  | .finished (.ok v) => some (.done (.ok v))
  | _ => none

namespace Forest

theorem setPhaseRun {f f' : Forest σ V E} {r k i : Nat} {ph ph' : Phase σ V E}
    (runs : ∀ k : Nat, f'.runs[k]? = (f.setPhase r ph).runs[k]?) (there : f'.runs[k]? = some ⟨i, ph'⟩) :
    f.runs[k]? = some ⟨i, ph'⟩ ∨ k = r ∧ ph' = ph ∧ ∃ old, f.runs[k]? = some ⟨i, old⟩ := by
  rw [runs, runsSetPhase] at there
  split at there
  · rename_i same
    obtain ⟨⟨j, old⟩, at?, now⟩ := Option.map_eq_some_iff.mp there
    cases now
    exact .inr ⟨same.symm, rfl, old, at?⟩
  · exact .inl there

theorem joinRest {f f' : Forest σ V E} {q src k i : Nat} {ph : Phase σ V E} {rest}
    (joins : f.join q = (.run src, f')) (there : f'.runs[k]? = some ⟨i, ph⟩) (body : ph.rest? = some rest) :
    f.runs[k]? = some ⟨i, ph⟩ := by
  rcases joinRun joins with ⟨-, rfl⟩ | ⟨-, -, rfl⟩
  · exact there
  · rw [runsStart] at there
    split at there
    · cases there
      cases body
    · exact there

theorem runBodyRest {turn : σ → Task σ (Except E V) → σ × Task σ (Except E V)} {run k i : Nat}
    {body rest : Task σ (Except E V)} {s s' out} {f f' : Forest σ V E} {ph : Phase σ V E}
    (h : runBody turn run body s f = (out, s', f')) (there : f'.runs[k]? = some ⟨i, ph⟩)
    (left : ph.rest? = some rest) :
    f.runs[k]? = some ⟨i, ph⟩ ∨
      k = run ∧ (∃ old, f.runs[k]? = some ⟨i, old⟩) ∧ rest = (turn s body).2 := by
  unfold runBody at h
  split at h
  · rename_i o ended
    cases h
    rcases setPhaseRun (fun _ => rfl) there with old | ⟨same, rfl, at?⟩
    · exact .inl old
    · cases o with
      | error e => cases left
      | ok v =>
        cases left
        exact .inr ⟨same, at?, by rw [ended]⟩
  · rename_i going
    cases h
    rcases setPhaseRun (fun _ => rfl) there with old | ⟨same, rfl, at?⟩
    · exact .inl old
    · cases left
      exact .inr ⟨same, at?, by rw [going]⟩

end Forest

namespace Play

variable {specs : List (Spec σ V E)} {p p' : Play σ V E} {events : List (Event V E)}

theorem Step.bodies (h : Step specs p events p') {r i : Nat} {ph rest}
    (there : p'.forest.runs[r]? = some ⟨i, ph⟩) (left : ph.rest? = some rest) :
    p.forest.runs[r]? = some ⟨i, ph⟩ ∨
      (∃ spec input, specs[i]? = some spec ∧ .entered r input ∈ events ∧
        rest = ((spec.body input).run p.state).2) ∨
      ∃ body, p.forest.runs[r]? = some ⟨i, .running body⟩ ∧ rest = (body.poll p.state).2 := by
  have enters {k j : Nat} {spec input s out} {f f' : Forest σ V E} {ph₀}
      (same : f.runs = p.forest.runs) (at? : p.forest.runs[k]? = some ⟨j, ph₀⟩)
      (spec? : specs[j]? = some spec) (turn : enterBody spec j k input p.state f = (out, s, f'))
      (event : .entered k input ∈ events) (there : f'.runs[r]? = some ⟨i, ph⟩) :
      p.forest.runs[r]? = some ⟨i, ph⟩ ∨
        (∃ spec input, specs[i]? = some spec ∧ .entered r input ∈ events ∧
          rest = ((spec.body input).run p.state).2) ∨
        ∃ body, p.forest.runs[r]? = some ⟨i, .running body⟩ ∧ rest = (body.poll p.state).2 := by
    rcases runBodyRest turn there left with old | ⟨rfl, ⟨ph₁, at'⟩, now⟩
    · exact .inl (same ▸ old)
    · replace at' : p.forest.runs[r]? = some ⟨i, ph₁⟩ := same ▸ at'
      cases at?.symm.trans at'
      exact .inr (.inl ⟨spec, input, spec?, event, now⟩)
  cases h with
  | others s => exact .inl there
  | call j known => exact .inl there
  | drop k => exact .inl there
  | meetValue waits done => exact .inl there
  | meetRun waits joins => exact .inl (joinRest joins there left)
  | answer waits atEnd => exact .inl (by rwa [runsSettle] at there)
  | enter fresh spec? root turn => exact enters rfl fresh spec? turn (List.mem_cons_self ..) there
  | take fresh spec? source earlier done turn =>
    exact enters rfl fresh spec? turn (by simp) there
  | await fresh spec? source earlier joins =>
    rcases setPhaseRun (fun _ => rfl) there with old | ⟨-, rfl, -⟩
    · exact .inl (joinRest joins old left)
    · cases left
  | fail waits spec? source earlier atEnd =>
    rcases setPhaseRun (fun _ => rfl) there with old | ⟨-, rfl, -⟩
    · exact .inl (by rwa [runsSettle] at old)
    · cases left
  | feed waits spec? source earlier atEnd turn =>
    exact enters (runsSettle ..) waits spec? turn (by simp) there
  | @work k j body out s f busy turn =>
    rcases runBodyRest turn there left with old | ⟨rfl, ⟨ph₁, at'⟩, now⟩
    · exact .inl old
    · cases busy.symm.trans at'
      exact .inr (.inr ⟨body, busy, now⟩)

inductive Input (f : Forest σ V E) (spec : Spec σ V E) : Option V → Prop where
  | none (root : spec.source = none) : Input f spec none
  | stored {q src : Nat} {u : V} (source : spec.source = some q) (done : f.status q = .completed src u) :
      Input f spec (some u)

theorem Input.same {f : Forest σ V E} {spec spec' : Spec σ V E} {input input' : Option V}
    (h : Input f spec input) (h' : Input f spec' input') (source : spec'.source = spec.source) :
    input' = input := by
  cases h with
  | none root =>
    cases h' with
    | none _ => rfl
    | stored source' _ => cases source'.symm.trans (source.trans root)
  | stored there done =>
    cases h' with
    | none root => cases root.symm.trans (source.trans there)
    | stored there' done' =>
      cases there'.symm.trans (source.trans there)
      cases done.symm.trans done'
      rfl

theorem Step.enters (h : Step specs p events p') (ready : Ready specs p) {r : Nat} {input}
    (event : .entered r input ∈ events) :
    ∃ (i : Nat) (ph : _) (spec : _), p.forest.runs[r]? = some ⟨i, ph⟩ ∧ specs[i]? = some spec ∧
      Input p'.forest spec input ∧ ∀ ⦃q⦄, spec.source = some q →
        ∃ (src : Nat) (u : V), p.forest.runs[src]? = some ⟨q, .finished (.ok u)⟩ ∧ input = some u := by
  cases h with
  | others s => cases event
  | call j known => cases event
  | drop k => cases event
  | meetValue waits done => simp at event
  | meetRun waits joins => simp at event
  | answer waits atEnd => simp at event
  | await fresh spec? source earlier joins => simp at event
  | fail waits spec? source earlier atEnd => simp at event
  | work busy turn => simp [endOf] at event
  | enter fresh spec? root turn =>
    obtain ⟨rfl, rfl⟩ : r = _ ∧ input = none := by simpa [endOf] using event
    refine ⟨_, _, _, fresh, spec?, .none root, fun q source => ?_⟩
    cases root.symm.trans source
  | @take k i spec q src v out s f fresh spec? source earlier done turn =>
    obtain ⟨rfl, rfl⟩ : r = k ∧ input = some v := by simpa [endOf] using event
    have done' := ((enterBodyTurn turn).status q).trans done
    refine ⟨_, _, _, fresh, spec?, .stored source done', fun q' source' => ?_⟩
    cases source.symm.trans source'
    exact ⟨src, v, ready.sound.completed done, rfl⟩
  | @feed k i spec q src v out s f waits spec? source earlier atEnd turn =>
    obtain ⟨rfl, rfl⟩ : r = k ∧ input = some v := by simpa [endOf] using event
    have done := ((enterBodyTurn turn).status q).trans (ready.sound.settledSuccess atEnd)
    refine ⟨_, _, _, waits, spec?, .stored source done, fun q' source' => ?_⟩
    cases source.symm.trans source'
    exact ⟨src, v, atEnd, rfl⟩

structure Fed (specs : List (Spec σ V E)) (trace : List (Event V E)) (p : Play σ V E) : Prop where
  entered : ∀ ⦃r : Nat⦄ ⦃input⦄, .entered r input ∈ trace → ∃ (i : Nat) (ph : _) (spec : _),
    p.forest.runs[r]? = some ⟨i, ph⟩ ∧ specs[i]? = some spec ∧ Input p.forest spec input
  bodies : ∀ ⦃r i : Nat⦄ ⦃ph rest⦄, p.forest.runs[r]? = some ⟨i, ph⟩ → ph.rest? = some rest →
    ∃ spec input, specs[i]? = some spec ∧ .entered r input ∈ trace ∧ (spec.body input).Comes rest

theorem Fed.step {trace} (h : Fed specs trace p) (ready : Ready specs p) (step : Step specs p events p') :
    Fed specs (trace ++ events) p' := by
  constructor
  case entered =>
    intro r input event
    rcases List.mem_append.mp event with old | new
    · obtain ⟨i, ph, spec, at?, spec?, fits⟩ := h.entered old
      obtain ⟨ph', at', -⟩ := step.grows at?
      refine ⟨i, ph', spec, at', spec?, ?_⟩
      cases fits with
      | none root => exact .none root
      | stored source done => exact .stored source ((statusOfStage (step.frozen ready done)).trans done)
    · obtain ⟨i, ph, spec, at?, spec?, fits, -⟩ := step.enters ready new
      obtain ⟨ph', at', -⟩ := step.grows at?
      exact ⟨i, ph', spec, at', spec?, fits⟩
  case bodies =>
    intro r i ph rest there left
    rcases step.bodies there left with old | ⟨spec, input, spec?, event, rfl⟩ | ⟨body, busy, rfl⟩
    · obtain ⟨spec, input, spec?, event, comes⟩ := h.bodies old left
      exact ⟨spec, input, spec?, List.mem_append_left _ event, comes⟩
    · exact ⟨spec, input, spec?, List.mem_append_right _ event, .first p.state⟩
    · obtain ⟨spec, input, spec?, event, comes⟩ := h.bodies busy rfl
      exact ⟨spec, input, spec?, List.mem_append_left _ event, comes.next p.state⟩

theorem Steps.fed (h : Steps specs p events p') (ready : Ready specs p) {trace}
    (fed : Fed specs trace p) : Fed specs (trace ++ events) p' := by
  induction h with
  | refl => simpa using fed
  | tail first last ih =>
    rw [← List.append_assoc]
    exact ih.step (first.ready ready) last

theorem Reaches.fed {s : σ} {trace} (h : Reaches specs s trace p) : Fed specs trace p := by
  have nothing : Fed specs [] (start specs s) := ⟨nofun, nofun⟩
  simpa using Steps.fed h (readyStart specs s) nothing

theorem Fed.input {trace} (h : Fed specs trace p) {r i : Nat} {ph input spec} (event : .entered r input ∈ trace)
    (at? : p.forest.runs[r]? = some ⟨i, ph⟩) (spec? : specs[i]? = some spec) : Input p.forest spec input := by
  obtain ⟨i', ph', spec', at', spec'?, fits⟩ := h.entered event
  cases at?.symm.trans at'
  cases spec?.symm.trans spec'?
  exact fits

/-- In every play: behind a completed stage with a source stands the completed source, and
the value of the stage is what its body came to from the value of the source. Whatever
bodies were entered behind one source, all got that value. Before a body behind a source
is entered, a run of the source has succeeded, with the value that the body gets. And what
a run has of its body, down to the value, comes from turns of that body alone, each in the
state of its moment. -/
theorem chainConsistent (specs : List (Spec σ V E)) (s : σ) {trace p} (reached : Reaches specs s trace p) :
    (∀ ⦃i q r v spec⦄, p.forest.status i = .completed r v → specs[i]? = some spec → spec.source = some q →
      ∃ src u, p.forest.status q = .completed src u ∧ (∀ input, .entered r input ∈ trace ↔ input = some u) ∧
        (spec.body (some u)).Comes (.done (.ok v))) ∧
    (∀ ⦃q r r' i i' : Nat⦄ ⦃ph ph' input input' spec spec'⦄,
      .entered r input ∈ trace → p.forest.runs[r]? = some ⟨i, ph⟩ → specs[i]? = some spec →
      .entered r' input' ∈ trace → p.forest.runs[r']? = some ⟨i', ph'⟩ → specs[i']? = some spec' →
      spec.source = some q → spec'.source = some q →
        ∃ src u, p.forest.status q = .completed src u ∧ input = some u ∧ input' = some u) ∧
    (∀ ⦃events p'⦄, Step specs p events p' → ∀ ⦃r i q : Nat⦄ ⦃ph input spec⦄, .entered r input ∈ events →
      p.forest.runs[r]? = some ⟨i, ph⟩ → specs[i]? = some spec → spec.source = some q →
        ∃ (src : Nat) (u : V), p.forest.runs[src]? = some ⟨q, .finished (.ok u)⟩ ∧ input = some u) ∧
    ∀ ⦃events p'⦄, Step specs p events p' → ∀ ⦃r i : Nat⦄ ⦃ph rest⦄,
      p'.forest.runs[r]? = some ⟨i, ph⟩ → ph.rest? = some rest →
        p.forest.runs[r]? = some ⟨i, ph⟩ ∨
          (∃ spec input, specs[i]? = some spec ∧ .entered r input ∈ events ∧
            rest = ((spec.body input).run p.state).2) ∨
          ∃ body, p.forest.runs[r]? = some ⟨i, .running body⟩ ∧ rest = (body.poll p.state).2 := by
  have ready := reached.ready
  have fed := reached.fed
  have stored {spec : Spec σ V E} {q input} (fits : Input p.forest spec input) (source : spec.source = some q) :
      ∃ src u, p.forest.status q = .completed src u ∧ input = some u := by
    cases fits with
    | none root => cases root.symm.trans source
    | stored source' done =>
      cases source.symm.trans source'
      exact ⟨_, _, done, rfl⟩
  refine ⟨?_, ?_, ?_, fun events p' step r i ph rest => step.bodies⟩
  · intro i q r v spec done spec? source
    have won := ready.sound.completed done
    obtain ⟨spec', input, spec'?, event, comes⟩ := fed.bodies won rfl
    cases spec?.symm.trans spec'?
    have fits := fed.input event won spec?
    obtain ⟨src, u, done', rfl⟩ := stored fits source
    refine ⟨src, u, done', fun input => ⟨fun event' => ?_, fun same => same ▸ event⟩, comes⟩
    exact fits.same (fed.input event' won spec?) rfl
  · intro q r r' i i' ph ph' input input' spec spec' event at? spec? event' at' spec'? source source'
    have fits := fed.input event at? spec?
    obtain ⟨src, u, done, rfl⟩ := stored fits source
    exact ⟨src, u, done, rfl, fits.same (fed.input event' at' spec'?) (source'.trans source.symm)⟩
  · intro events p' step r i q ph input spec event at? spec? source
    obtain ⟨i', ph', spec', at', spec'?, -, before⟩ := step.enters ready event
    cases at?.symm.trans at'
    cases spec?.symm.trans spec'?
    exact before source

theorem retriedChain : ∃ trace p, Reaches countedOn false trace p ∧ p.forest.peek 1 = some (2, 8) ∧
    ∃ src u, p.forest.status 0 = .completed src u ∧ (∀ input, .entered 2 input ∈ trace ↔ input = some u) ∧
      Task.Comes (.done (.ok (u + 1))) (.done (.ok 8) : Task Bool (Except Unit Nat)) := by
  have asked : Reaches countedOn false _ _ := Steps.single (.call _ 1 Nat.one_lt_two)
  have joined := (asked.tail (.meetRun (k := 0) rfl rfl)).tail (.await (r := 0) rfl rfl rfl Nat.one_pos rfl)
  have failed := (joined.tail (.enter (r := 1) rfl rfl rfl rfl)).tail (.fail (r := 0) rfl rfl rfl Nat.one_pos rfl)
  have known := (failed.tail (.answer (k := 0) rfl rfl)).tail (.others _ true)
  have again := (known.tail (.call _ 1 Nat.one_lt_two)).tail (.meetRun (k := 1) rfl rfl)
  have rejoined := again.tail (.await (r := 2) rfl rfl rfl Nat.one_pos rfl)
  have sourced := rejoined.tail (.enter (r := 3) rfl rfl rfl rfl)
  have fed := sourced.tail (.feed (r := 2) rfl rfl rfl Nat.one_pos rfl rfl)
  have answered := fed.tail (.answer (k := 1) rfl rfl)
  exact ⟨_, _, answered, rfl, (chainConsistent countedOn false answered).1 (i := 1) rfl rfl rfl⟩

end Play
end Stage
end BuildReuse
