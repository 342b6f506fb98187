import BuildReuse.Proofs.Stage.Play

/-! What holds of stages and runs between any two actions: a stage is in flight
with its only unfinished run, a completed stage keeps the value of the run that
succeeded, and an empty stage has only failed runs behind it. -/
namespace BuildReuse.Stage

variable {σ V E : Type}

def Phase.Open : Phase σ V E → Prop
  | .finished _ => False
  | _ => True

def Status.after (run : Nat) : Except E V → Status V
  | .ok v => .completed run v
  | .error _ => .empty

namespace Forest

theorem runsSetPhase (f : Forest σ V E) (r k : Nat) (ph : Phase σ V E) :
    (f.setPhase r ph).runs[k]? =
      if r = k then f.runs[k]?.map (fun run => { run with phase := ph }) else f.runs[k]? := by
  simp only [setPhase, Array.getElem?_modify]

theorem statusSetPhase (f : Forest σ V E) (r i : Nat) (ph : Phase σ V E) :
    (f.setPhase r ph).status i = f.status i := rfl

theorem runsStart (f : Forest σ V E) (i k : Nat) :
    (f.start i).runs[k]? = if k = f.runs.size then some ⟨i, .fresh⟩ else f.runs[k]? := by
  simp only [start, Array.getElem?_push]

theorem statusStart {f : Forest σ V E} {i : Nat} (known : i < f.stages.size) (j : Nat) :
    (f.start i).status j = if j = i then .inFlight f.runs.size else f.status j := by
  simp only [status, start, Array.getElem?_modify]
  by_cases same : j = i
  · subst same
    simp [known]
  · simp [same, Ne.symm same]

theorem runsSettle (f : Forest σ V E) (i r : Nat) (o : Except E V) :
    (f.settle i r o).runs = f.runs := by
  simp only [settle]
  split
  · split <;> rfl
  · rfl

theorem sizeSettle (f : Forest σ V E) (i r : Nat) (o : Except E V) :
    (f.settle i r o).stages.size = f.stages.size := by
  simp only [settle]
  split
  · split <;> simp
  · rfl

theorem statusSettle (f : Forest σ V E) (i r j : Nat) (o : Except E V) :
    (f.settle i r o).status j =
      if j = i then match f.status i with
        | .inFlight current => if current = r then .after r o else .inFlight current
        | other => other
      else f.status j := by
  unfold settle
  by_cases same : j = i
  · subst same
    cases atStage : f.stages[j]? with
    | none => simp [status, atStage]
    | some st =>
      have here : f.status j = st.status := by simp [status, atStage]
      cases flying : st.status with
      | inFlight current =>
        by_cases own : current = r
        · cases o <;> simp [flying, own, status, atStage, Status.after, Array.getElem?_modify]
        · simp [here, flying, own]
      | empty => simp [here, flying]
      | completed run v => simp [here, flying]
  · cases flying : f.status i with
    | inFlight current =>
      by_cases own : current = r
      · simp [own, same, status, Array.getElem?_modify, Ne.symm same]
      · simp [own, same]
    | empty => simp [same]
    | completed run v => simp [same]

theorem statusSettleOther {f : Forest σ V E} {i r : Nat} (o : Except E V)
    (old : f.status i ≠ .inFlight r) (j : Nat) : (f.settle i r o).status j = f.status j := by
  rw [statusSettle]
  split
  · rename_i same
    subst same
    cases now : f.status j with
    | inFlight current =>
      have other : current ≠ r := fun h => old (by rw [now, h])
      simp [other]
    | empty => rfl
    | completed run v => rfl
  · rfl

theorem statusSettleOwn {f : Forest σ V E} {i r : Nat} (o : Except E V)
    (own : f.status i = .inFlight r) (j : Nat) :
    (f.settle i r o).status j = if j = i then .after r o else f.status j := by
  rw [statusSettle, own]
  simp

theorem joinValue {f f' : Forest σ V E} {i r : Nat} {v : V} (h : f.join i = (.value r v, f')) :
    f.status i = .completed r v ∧ f' = f := by
  unfold join at h
  split at h <;> simp_all

theorem joinRun {f f' : Forest σ V E} {i r : Nat} (h : f.join i = (.run r, f')) :
    f.status i = .inFlight r ∧ f' = f ∨
      f.status i = .empty ∧ r = f.runs.size ∧ f' = f.start i := by
  unfold join at h
  split at h <;> simp_all

theorem runsJoin {f f' : Forest σ V E} {i r k : Nat} {run} (h : f.join i = (.run r, f'))
    (at? : f.runs[k]? = some run) : f'.runs[k]? = some run := by
  rcases joinRun h with ⟨-, rfl⟩ | ⟨-, -, rfl⟩
  · exact at?
  · have old : k ≠ f.runs.size := by
      rintro rfl
      simp at at?
    simpa [runsStart, old] using at?

structure BodyTurn (f : Forest σ V E) (run : Nat) (out : Option (Except E V)) (f' : Forest σ V E) :
    Prop where
  size : f'.stages.size = f.stages.size
  status : ∀ j, f'.status j = f.status j
  phase : ∃ ph : Phase σ V E, (∀ k : Nat, f'.runs[k]? = (f.setPhase run ph).runs[k]?) ∧
    ((∃ body, ph = .running body ∧ out = none) ∨ ∃ o, ph = .finished o ∧ out = some o)

theorem runBodyTurn {turn : σ → Task σ (Except E V) → σ × Task σ (Except E V)} {run body s s' out}
    {f f' : Forest σ V E} (h : runBody turn run body s f = (out, s', f')) : BodyTurn f run out f' := by
  unfold runBody at h
  split at h
  · rename_i o _
    cases h
    exact ⟨rfl, fun _ => rfl, .finished o, fun _ => rfl, .inr ⟨o, rfl, rfl⟩⟩
  · rename_i rest _
    cases h
    exact ⟨rfl, fun _ => rfl, .running _, fun _ => rfl, .inl ⟨_, rfl, rfl⟩⟩

theorem enterBodyTurn {spec : Spec σ V E} {i run input s s' out} {f f' : Forest σ V E}
    (h : enterBody spec i run input s f = (out, s', f')) : BodyTurn f run out f' := by
  obtain ⟨size, status, phase⟩ := runBodyTurn h
  refine ⟨by simpa using size, fun j => ?_, phase⟩
  rw [status]
  by_cases own : i = j
  · cases atStage : f.stages[j]? <;> simp [Forest.status, Array.getElem?_modify, own, atStage]
  · simp [Forest.status, Array.getElem?_modify, own]

end Forest

open Forest

structure Sound (specs : List (Spec σ V E)) (f : Forest σ V E) : Prop where
  size : f.stages.size = specs.length
  known : ∀ ⦃r i : Nat⦄ ⦃ph⦄, f.runs[r]? = some ⟨i, ph⟩ → i < specs.length
  unfinished : ∀ ⦃r i : Nat⦄ ⦃ph⦄, f.runs[r]? = some ⟨i, ph⟩ → ph.Open → f.status i = .inFlight r
  inFlight : ∀ ⦃i r : Nat⦄, f.status i = .inFlight r → ∃ ph, f.runs[r]? = some ⟨i, ph⟩
  completed : ∀ ⦃i r : Nat⦄ ⦃v⦄, f.status i = .completed r v → f.runs[r]? = some ⟨i, .finished (.ok v)⟩
  succeeded : ∀ ⦃r i : Nat⦄ ⦃v⦄, f.runs[r]? = some ⟨i, .finished (.ok v)⟩ →
    f.status i = .inFlight r ∨ f.status i = .completed r v
  waiting : ∀ ⦃r i src : Nat⦄, f.runs[r]? = some ⟨i, .waiting src⟩ →
    ∃ spec q ph, specs[i]? = some spec ∧ spec.source = some q ∧ f.runs[src]? = some ⟨q, ph⟩

namespace Sound

variable {specs : List (Spec σ V E)} {f f' : Forest σ V E}

theorem ofSpecs (specs : List (Spec σ V E)) : Sound specs (Forest.ofSpecs specs) := by
  have noRun (r : Nat) : (Forest.ofSpecs specs).runs[r]? = none := rfl
  have empty (i : Nat) : (Forest.ofSpecs specs).status i = .empty := by
    simp only [Forest.status, Forest.ofSpecs, List.getElem?_toArray, List.getElem?_map]
    cases specs[i]? <;> rfl
  constructor
  · simp [Forest.ofSpecs]
  all_goals simp [noRun, empty]

theorem failedBefore (h : Sound specs f) {i r : Nat} {ph} (empty : f.status i = .empty)
    (run : f.runs[r]? = some ⟨i, ph⟩) : ∃ e, ph = .finished (.error e) := by
  cases ph with
  | finished o =>
    cases o with
    | ok v => rcases h.succeeded run with now | now <;> simp [empty] at now
    | error e => exact ⟨e, rfl⟩
  | fresh => simpa [empty] using h.unfinished run trivial
  | waiting src => simpa [empty] using h.unfinished run trivial
  | running body => simpa [empty] using h.unfinished run trivial

theorem started (h : Sound specs f) {i} (known : i < specs.length) (empty : f.status i = .empty) :
    Sound specs (f.start i) := by
  have status := statusStart (f := f) (h.size ▸ known)
  have runs := runsStart f i
  have old {r : Nat} {run} (at? : f.runs[r]? = some run) : r ≠ f.runs.size := by
    intro same
    simp [same] at at?
  constructor
  case size => simpa [start] using h.size
  case known =>
    intro r j ph at?
    rw [runs] at at?
    split at at?
    · cases at?
      exact known
    · exact h.known at?
  case unfinished =>
    intro r j ph at? isOpen
    rw [runs] at at?
    rw [status]
    split at at?
    · rename_i new
      cases at?
      simp [new]
    · have flying := h.unfinished at? isOpen
      have other : j ≠ i := by
        rintro rfl
        simp [empty] at flying
      simpa [other] using flying
  case inFlight =>
    intro j r flying
    rw [status] at flying
    split at flying
    · rename_i same
      cases flying
      exact ⟨.fresh, by simp [runs, same]⟩
    · obtain ⟨ph, at?⟩ := h.inFlight flying
      exact ⟨ph, by simpa [runs, old at?] using at?⟩
  case completed =>
    intro j r v done
    rw [status] at done
    split at done
    · cases done
    · have at? := h.completed done
      simpa [runs, old at?] using at?
  case succeeded =>
    intro r j v at?
    rw [runs] at at?
    split at at?
    · cases at?
    · have now := h.succeeded at?
      have other : j ≠ i := by
        rintro rfl
        simp [empty] at now
      simpa [status, other] using now
  case waiting =>
    intro r j src at?
    rw [runs] at at?
    split at at?
    · cases at?
    · obtain ⟨spec, q, ph, spec?, source, there⟩ := h.waiting at?
      exact ⟨spec, q, ph, spec?, source, by simpa [runs, old there] using there⟩

theorem settled (h : Sound specs f) {i r : Nat} {o} (atEnd : f.runs[r]? = some ⟨i, .finished o⟩) :
    Sound specs (f.settle i r o) := by
  by_cases own : f.status i = .inFlight r
  · have status := statusSettleOwn o own
    have notOpen {ph : Phase σ V E} (at? : f.runs[r]? = some ⟨i, ph⟩) : ¬ ph.Open := by
      rw [atEnd] at at?
      cases at?
      exact id
    have ownRun {k : Nat} {ph} (at? : f.runs[k]? = some ⟨i, ph⟩) (isOpen : ph.Open) : False := by
      have flying := h.unfinished at? isOpen
      rw [own] at flying
      cases flying
      exact notOpen at? isOpen
    constructor
    case size => simpa [sizeSettle] using h.size
    case known => simpa only [runsSettle] using h.known
    case unfinished =>
      intro k j ph at? isOpen
      rw [runsSettle] at at?
      have other : j ≠ i := by
        rintro rfl
        exact ownRun at? isOpen
      simpa [status, other] using h.unfinished at? isOpen
    case inFlight =>
      intro j k flying
      rw [status] at flying
      split at flying
      · cases o <;> cases flying
      · simpa only [runsSettle] using h.inFlight flying
    case completed =>
      intro j k v done
      rw [status] at done
      split at done
      · rename_i same
        subst same
        cases o with
        | ok w =>
          cases done
          simpa only [runsSettle] using atEnd
        | error e => cases done
      · simpa only [runsSettle] using h.completed done
    case succeeded =>
      intro k j v at?
      rw [runsSettle] at at?
      rw [status]
      by_cases same : j = i
      · subst same
        rcases h.succeeded at? with now | now
        · rw [own] at now
          cases now
          rw [atEnd] at at?
          cases at?
          simp [Status.after]
        · simp [own] at now
      · simpa [same] using h.succeeded at?
    case waiting => simpa only [runsSettle] using h.waiting
  · have status := statusSettleOther o own
    constructor
    case size => simpa [sizeSettle] using h.size
    case known => simpa only [runsSettle] using h.known
    case unfinished => simpa only [runsSettle, status] using h.unfinished
    case inFlight => simpa only [runsSettle, status] using h.inFlight
    case completed => simpa only [runsSettle, status] using h.completed
    case succeeded => simpa only [runsSettle, status] using h.succeeded
    case waiting => simpa only [runsSettle] using h.waiting

theorem rephased (h : Sound specs f) {r i : Nat} {ph₀ ph} (at? : f.runs[r]? = some ⟨i, ph₀⟩)
    (isOpen : ph₀.Open) (size : f'.stages.size = f.stages.size)
    (status : ∀ j, f'.status j = f.status j) (runs : ∀ k : Nat, f'.runs[k]? = (f.setPhase r ph).runs[k]?)
    (target : ∀ src, ph = .waiting src →
      ∃ spec q ph', specs[i]? = some spec ∧ spec.source = some q ∧ f.runs[src]? = some ⟨q, ph'⟩) :
    Sound specs f' := by
  have flying := h.unfinished at? isOpen
  have now (k : Nat) : f'.runs[k]? = if k = r then some ⟨i, ph⟩ else f.runs[k]? := by
    rw [runs, runsSetPhase]
    by_cases same : k = r
    · subst same
      simp [at?]
    · simp [same, Ne.symm same]
  have kept {k j : Nat} {ph'} (there : f.runs[k]? = some ⟨j, ph'⟩) : ∃ ph'', f'.runs[k]? = some ⟨j, ph''⟩ := by
    rw [now]
    split
    · rename_i same
      subst same
      rw [at?] at there
      cases there
      exact ⟨ph, rfl⟩
    · exact ⟨ph', there⟩
  constructor
  case size => exact size.trans h.size
  case known =>
    intro k j ph' there
    rw [now] at there
    split at there
    · cases there
      exact h.known at?
    · exact h.known there
  case unfinished =>
    intro k j ph' there open'
    rw [status]
    rw [now] at there
    split at there
    · rename_i same
      cases there
      exact same ▸ flying
    · exact h.unfinished there open'
  case inFlight =>
    intro j k flying'
    rw [status] at flying'
    obtain ⟨ph', there⟩ := h.inFlight flying'
    exact kept there
  case completed =>
    intro j k v done
    rw [status] at done
    have there := h.completed done
    have other : k ≠ r := by
      rintro rfl
      rw [at?] at there
      cases there
      exact isOpen
    simpa [now, other] using there
  case succeeded =>
    intro k j v there
    rw [status]
    rw [now] at there
    split at there
    · rename_i same
      cases there
      exact .inl (same ▸ flying)
    · exact h.succeeded there
  case waiting =>
    intro k j src there
    rw [now] at there
    split at there
    · cases there
      obtain ⟨spec, q, ph', spec?, source, old⟩ := target src rfl
      obtain ⟨ph'', new⟩ := kept old
      exact ⟨spec, q, ph'', spec?, source, new⟩
    · obtain ⟨spec, q, ph', spec?, source, old⟩ := h.waiting there
      obtain ⟨ph'', new⟩ := kept old
      exact ⟨spec, q, ph'', spec?, source, new⟩

theorem turned (h : Sound specs f) {r i : Nat} {ph₀ out} (at? : f.runs[r]? = some ⟨i, ph₀⟩)
    (isOpen : ph₀.Open) (turn : BodyTurn f r out f') : Sound specs f' := by
  obtain ⟨size, status, ph, runs, going | ⟨o, rfl, -⟩⟩ := turn
  · obtain ⟨body, rfl, -⟩ := going
    exact h.rephased at? isOpen size status runs nofun
  · exact h.rephased at? isOpen size status runs nofun

theorem joined (h : Sound specs f) {i r : Nat} (known : i < specs.length)
    (joins : f.join i = (.run r, f')) : Sound specs f' ∧ ∃ ph, f'.runs[r]? = some ⟨i, ph⟩ := by
  rcases joinRun joins with ⟨flying, rfl⟩ | ⟨empty, rfl, rfl⟩
  · exact ⟨h, h.inFlight flying⟩
  · exact ⟨h.started known empty, .fresh, by simp [runsStart]⟩

end Sound
end BuildReuse.Stage
