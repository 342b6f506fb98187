import BuildReuse.Proofs.Stage.History

/-! A turn of a caller is a sequence of atomic actions: it meets the stage, takes
the turns of the runs that hold it up, the deepest first, and takes the outcome
if there is one. -/
namespace BuildReuse.Stage

open Forest

variable {σ V E : Type}

namespace Play

variable {specs : List (Spec σ V E)} {p p' : Play σ V E}

structure Polled (specs : List (Spec σ V E)) (p : Play σ V E) (i run : Nat)
    (result : Option (Except E V) × σ × Forest σ V E) : Prop where
  steps : ∃ events, Steps specs p events ⟨result.2.1, result.2.2, p.callers⟩
  atEnd : ∀ o, result.1 = some o → result.2.2.runs[run]? = some ⟨i, .finished o⟩
  later : ∀ ⦃k j : Nat⦄ ⦃ph⦄, i < j → p.forest.runs[k]? = some ⟨j, ph⟩ →
    result.2.2.runs[k]? = some ⟨j, ph⟩

theorem Polled.idle (p : Play σ V E) (i run : Nat) : Polled specs p i run (none, p.state, p.forest) :=
  ⟨⟨[], .refl p⟩, nofun, fun _ _ _ _ there => there⟩

theorem turnedRuns {f f' : Forest σ V E} {r i : Nat} {ph₀ out} (at? : f.runs[r]? = some ⟨i, ph₀⟩)
    (turn : BodyTurn f r out f') :
    (∀ o, out = some o → f'.runs[r]? = some ⟨i, .finished o⟩) ∧
      ∀ ⦃k : Nat⦄ ⦃run⦄, k ≠ r → f.runs[k]? = some run → f'.runs[k]? = some run := by
  obtain ⟨-, -, ph, runs, how⟩ := turn
  refine ⟨fun o ended => ?_, fun k run other there => ?_⟩
  · rcases how with ⟨body, rfl, going⟩ | ⟨o', rfl, ended'⟩
    · rw [going] at ended
      cases ended
    · rw [ended'] at ended
      cases ended
      rw [runs, runsSetPhase, if_pos rfl, at?]
      rfl
  · rw [runs, runsSetPhase, if_neg other.symm, there]

theorem Polled.ofTurn {i run : Nat} {ph₀ out s} {f f' : Forest σ V E} {events}
    (at? : f.runs[run]? = some ⟨i, ph₀⟩) (turn : BodyTurn f run out f')
    (keeps : ∀ ⦃k j : Nat⦄ ⦃ph⦄, p.forest.runs[k]? = some ⟨j, ph⟩ → f.runs[k]? = some ⟨j, ph⟩)
    (step : Step specs p events ⟨s, f', p.callers⟩) : Polled specs p i run (out, s, f') := by
  obtain ⟨atEnd, others⟩ := turnedRuns at? turn
  refine ⟨⟨events, .single step⟩, atEnd, fun k j ph later there => others ?_ (keeps there)⟩
  rintro rfl
  have same := keeps there
  rw [at?] at same
  cases same
  exact Nat.lt_irrefl _ later

theorem Polled.awaitSource {i run q src : Nat} {spec out}
    (spec? : specs[i]? = some spec) (source : spec.source = some q) (earlier : q < i)
    (waits : p.forest.runs[run]? = some ⟨i, .waiting src⟩)
    (atEnd : ∀ o, out = some o → p.forest.runs[src]? = some ⟨q, .finished o⟩) :
    Polled specs p i run (pollRun.awaitSource spec i run q src (out, p.state, p.forest)) := by
  cases out with
  | none => exact .idle p i run
  | some o =>
    have settled (o : Except E V) := runsSettle p.forest q src o
    cases o with
    | error e =>
      refine ⟨⟨_, .single (.fail waits spec? source earlier (atEnd _ rfl))⟩, ?_, ?_⟩
      · rintro _ ⟨⟩
        simp only [pollRun.awaitSource]
        rw [runsSetPhase, settled, waits]
        simp
      · intro k j ph later there
        have other : k ≠ run := by
          rintro rfl
          rw [waits] at there
          cases there
          exact Nat.lt_irrefl _ later
        simp only [pollRun.awaitSource]
        rw [runsSetPhase, settled, if_neg other.symm, there]
    | ok v =>
      have there := waits
      rw [← settled (.ok v)] at there
      have step {s f out} := @Step.feed σ V E specs p run i spec q src v out s f waits spec? source earlier (atEnd _ rfl)
      exact .ofTurn there (enterBodyTurn rfl) (fun k j ph old => by rwa [settled]) (step rfl)

theorem Polled.after {i run q src : Nat} {spec result}
    (first : Polled specs p q src result) (spec? : specs[i]? = some spec)
    (source : spec.source = some q) (earlier : q < i)
    (waits : p.forest.runs[run]? = some ⟨i, .waiting src⟩) :
    Polled specs p i run (pollRun.awaitSource spec i run q src result) := by
  obtain ⟨out, s, f⟩ := result
  obtain ⟨⟨before, steps⟩, atEnd, later⟩ := first
  obtain ⟨⟨after, steps'⟩, atEnd', later'⟩ :=
    awaitSource (p := ⟨s, f, p.callers⟩) spec? source earlier (later earlier waits) atEnd
  exact ⟨⟨before ++ after, steps.trans steps'⟩, atEnd', fun k j ph beyond there =>
    later' beyond (later (Nat.lt_trans earlier beyond) there)⟩

theorem Polled.behind {i run : Nat} {f result events} (h : Polled specs { p with forest := f } i run result)
    (step : Step specs p events { p with forest := f })
    (keeps : ∀ ⦃k j : Nat⦄ ⦃ph⦄, i < j → p.forest.runs[k]? = some ⟨j, ph⟩ → f.runs[k]? = some ⟨j, ph⟩) :
    Polled specs p i run result := by
  obtain ⟨⟨after, steps⟩, atEnd, later⟩ := h
  exact ⟨⟨events ++ after, (Steps.single step).trans steps⟩, atEnd,
    fun k j ph beyond old => later beyond (keeps beyond old)⟩

theorem sourceOf {f : Forest σ V E} (sound : Sound specs f) {r i src : Nat} {spec}
    (spec? : specs[i]? = some spec) (waits : f.runs[r]? = some ⟨i, .waiting src⟩) :
    ∃ q ph, spec.source = some q ∧ f.runs[src]? = some ⟨q, ph⟩ := by
  obtain ⟨spec', q, ph, spec'?, source, there⟩ := sound.waiting waits
  rw [spec?] at spec'?
  cases spec'?
  exact ⟨q, ph, source, there⟩

theorem pollRunPolled (specs : List (Spec σ V E)) (i : Nat) : ∀ (run : Nat) (p : Play σ V E),
    Ready specs p → ∀ ph, p.forest.runs[run]? = some ⟨i, ph⟩ →
      Polled specs p i run (pollRun specs i run p.state p.forest) := by
  induction i using Nat.strongRecOn with
  | ind i ih =>
    intro run p ready ph at?
    have known := ready.sound.known at?
    obtain ⟨spec, spec?⟩ : ∃ spec, specs[i]? = some spec := ⟨_, List.getElem?_eq_getElem known⟩
    rw [pollRun, spec?, at?]
    cases ph with
    | finished o =>
      exact ⟨⟨[], .refl p⟩, fun _ same => by cases same; exact at?, fun _ _ _ _ there => there⟩
    | running body => exact .ofTurn at? (runBodyTurn rfl) (fun _ _ _ there => there) (.work at? rfl)
    | fresh =>
      cases source : spec.source with
      | none =>
        simp only [Option.map_some, source]
        exact .ofTurn at? (enterBodyTurn rfl) (fun _ _ _ there => there) (.enter at? spec? source rfl)
      | some q =>
        simp only [Option.map_some, source]
        split
        · rename_i earlier
          split
          · rename_i src v f joins
            obtain ⟨done, rfl⟩ := joinValue joins
            exact .ofTurn at? (enterBodyTurn rfl) (fun _ _ _ there => there)
              (.take at? spec? source earlier done rfl)
          · rename_i src f joins
            have step : Step specs p _ { p with forest := f.setPhase run (.waiting src) } :=
              .await at? spec? source earlier joins
            have ready' := step.ready ready
            have waits : (f.setPhase run (.waiting src)).runs[run]? = some ⟨i, .waiting src⟩ := by
              simp [runsSetPhase, runsJoin joins at?]
            obtain ⟨q', ph', source', there⟩ := sourceOf ready'.sound spec? waits
            rw [source] at source'
            cases source'
            have polled := (ih q earlier src _ ready' ph' there).after spec? source earlier waits
            refine polled.behind step fun k j ph beyond old => ?_
            have other : k ≠ run := by
              rintro rfl
              rw [at?] at old
              cases old
              exact Nat.lt_irrefl _ beyond
            simpa [runsSetPhase, other.symm] using runsJoin joins old
        · exact .idle p i run
    | waiting src =>
      cases source : spec.source with
      | none =>
        simp only [Option.map_some, source]
        exact .idle p i run
      | some q =>
        simp only [Option.map_some, source]
        split
        · rename_i earlier
          obtain ⟨q', ph', source', there⟩ := sourceOf ready.sound spec? at?
          rw [source] at source'
          cases source'
          exact (ih q earlier src p ready ph' there).after spec? source earlier at?
        · exact .idle p i run

theorem waitSteps {k : Nat} {w : Waiter} {run : Nat} (ready : Ready specs p)
    (waits : p.callers[k]? = some (some ⟨w.stage, some run⟩)) :
    match poll.wait specs w run p.state p.forest with
    | (.inl outcome, s, f) => ∃ events o, Steps specs p events ⟨s, f, p.callers.set k none⟩ ∧
        .received (.caller k) w.stage run o ∈ events ∧ outcome = o.map fun v => (run, v)
    | (.inr w', s, f) => w' = ⟨w.stage, some run⟩ ∧ ∃ events, Steps specs p events ⟨s, f, p.callers⟩ := by
  obtain ⟨ph, at?⟩ := ready.bound waits
  have polled := pollRunPolled specs w.stage run p ready ph at?
  unfold poll.wait
  generalize pollRun specs w.stage run p.state p.forest = result at polled
  obtain ⟨out, s, f⟩ := result
  obtain ⟨⟨events, steps⟩, atEnd, -⟩ := polled
  cases out with
  | none => exact ⟨rfl, events, steps⟩
  | some o =>
    refine ⟨events ++ [.received (.caller k) w.stage run o], o, ?_, by simp, rfl⟩
    exact steps.tail (.answer (p := ⟨s, f, p.callers⟩) waits (atEnd o rfl))

theorem pollSteps {k : Nat} {w : Waiter} (ready : Ready specs p)
    (waits : p.callers[k]? = some (some w)) :
    match Forest.poll specs w p.state p.forest with
    | (.inl outcome, s, f) => ∃ events run o, Steps specs p events ⟨s, f, p.callers.set k none⟩ ∧
        .received (.caller k) w.stage run o ∈ events ∧ outcome = o.map fun v => (run, v)
    | (.inr w', s, f) => w'.stage = w.stage ∧ w'.run.isSome ∧
        ∃ events, Steps specs p events ⟨s, f, p.callers.set k (some w')⟩ := by
  obtain ⟨i, at?⟩ := w
  cases at? with
  | some run =>
    have turn := waitSteps (w := ⟨i, some run⟩) ready waits
    simp only [Forest.poll]
    generalize poll.wait specs ⟨i, some run⟩ run p.state p.forest = result at turn
    obtain ⟨outcome | w', s, f⟩ := result
    · obtain ⟨events, o, steps, event, same⟩ := turn
      exact ⟨events, run, o, steps, event, same⟩
    · obtain ⟨rfl, events, steps⟩ := turn
      refine ⟨rfl, rfl, events, ?_⟩
      obtain ⟨inside, here⟩ := List.getElem?_eq_some_iff.mp waits
      have unchanged : p.callers.set k (some ⟨i, some run⟩) = p.callers := by
        rw [← here, List.set_getElem_self]
      rwa [unchanged]
  | none =>
    simp only [Forest.poll]
    rcases joins : p.forest.join i with ⟨⟨run, v⟩ | ⟨run⟩, f⟩
    · obtain ⟨done, rfl⟩ := joinValue joins
      exact ⟨_, run, .ok v, .single (.meetValue waits done), by simp, rfl⟩
    · simp only
      have step : Step specs p [.joined (.caller k) i run] _ := .meetRun waits joins
      have inside : k < p.callers.length := (List.getElem?_eq_some_iff.mp waits).1
      have joined : (p.callers.set k (some ⟨i, some run⟩))[k]? = some (some ⟨i, some run⟩) := by
        simp [inside]
      have turn := waitSteps (w := ⟨i, none⟩) (step.ready ready) joined
      generalize poll.wait specs ⟨i, none⟩ run p.state f = result at turn
      obtain ⟨outcome | w', s, f'⟩ := result
      · obtain ⟨events, o, steps, event, same⟩ := turn
        refine ⟨_, run, o, (Steps.single step).trans ?_, List.mem_append_right _ event, same⟩
        simpa using steps
      · obtain ⟨rfl, events, steps⟩ := turn
        exact ⟨rfl, rfl, _, (Steps.single step).trans steps⟩

end Play
end BuildReuse.Stage
