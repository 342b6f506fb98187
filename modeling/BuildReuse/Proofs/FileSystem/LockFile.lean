import BuildReuse.Proofs.FileSystem.Outline
import BuildReuse.Proofs.FileSystem.Tidy
import BuildReuse.Proofs.Lock.Touches

/-! A directory as those who want its lock leave it. Whatever they do, the files are as
before, but that the lock file is there and holds something else. -/
namespace BuildReuse

namespace FileSystem

variable {fs fs' fs'' : FileSystem} {place : Path} {n : Nat}

theorem writeNodeTwice (fs : FileSystem) (n : Nat) (bytes bytes' : Bytes) (now now' : Int) :
    (fs.writeNode n bytes now).writeNode n bytes' now' = fs.writeNode n bytes' now' := by
  unfold writeNode update
  congr 1
  refine Array.ext_getElem? fun i => ?_
  simp only [Array.getElem?_modify]
  split
  · cases fs.nodes[i]? with
    | none => rfl
    | some node => cases shape : node.content <;> simp [shape]
  · rfl

theorem writeNodeMade {d : Nat} {es : List (String × Nat)} (at? : fs.content? d = some (.directory es))
    (name : String) (mode : Nat) (bytes bytes' : Bytes) (now now' : Int) :
    (fs.create d name ⟨.file bytes, mode, now⟩).writeNode fs.nodes.size bytes' now' =
      fs.create d name ⟨.file bytes', mode, now'⟩ := by
  have other : d ≠ fs.nodes.size := Nat.ne_of_lt (contentInside at?)
  unfold create add enter writeNode update
  congr 1
  refine Array.ext_getElem? fun i => ?_
  simp only [Array.getElem?_modify, Array.getElem?_push]
  by_cases last : i = fs.nodes.size
  · subst last
    simp [other]
  · simp [last, Ne.symm last]

inductive Touched (place : Path) (fs : FileSystem) : FileSystem → Prop where
  | same : Touched place fs fs
  | written {n : Nat} (leads : fs.leads place = some n) (bytes : Bytes) (now : Int) :
      Touched place fs (fs.writeNode n bytes now)
  | made {d : Trail} {name : String}
      (absent : fs.walk false linkLimit [] (stepsOf place) = .ok (.absent d name)) (bytes : Bytes) (now : Int) :
      Touched place fs (fs.create d.node name ⟨.file bytes, 0o644, now⟩)

namespace Touched

theorem grown (h : Touched place fs fs') : fs.Grown fs' := by
  cases h with
  | same => exact .refl fs
  | written leads bytes now => exact grownWriteNode fs _ bytes now
  | made absent bytes now => exact (madeLeads absent bytes now).1

theorem write (h : Touched place fs fs') (leads : fs'.leads place = some n) (bytes : Bytes) (now : Int) :
    Touched place fs (fs'.writeNode n bytes now) := by
  cases h with
  | same => exact .written leads bytes now
  | @written k there bytes' now' =>
    rw [leadsOutline (outlineWriteNode fs k bytes' now'), there] at leads
    cases leads
    rw [writeNodeTwice]
    exact .written there bytes now
  | made absent bytes' now' =>
    cases (madeLeads absent bytes' now').2.symm.trans leads
    obtain ⟨es, at?, -⟩ := walkAbsent _ _ _ absent
    rw [writeNodeMade at?]
    exact .made absent bytes now

theorem make {d : Trail} {name : String} (h : Touched place fs fs')
    (absent : fs'.walk false linkLimit [] (stepsOf place) = .ok (.absent d name)) (bytes : Bytes) (now : Int) :
    Touched place fs (fs'.create d.node name ⟨.file bytes, 0o644, now⟩) := by
  have missing : fs'.leads place = none := by rw [FileSystem.leads, absent]
  cases h with
  | same => exact .made absent bytes now
  | @written k there bytes' now' =>
    rw [leadsOutline (outlineWriteNode fs k bytes' now'), there] at missing
    cases missing
  | made absent' bytes' now' => cases (madeLeads absent' bytes' now').2.symm.trans missing

theorem trans (h : Touched place fs fs') (k : Touched place fs' fs'') : Touched place fs fs'' := by
  cases k with
  | same => exact h
  | written leads bytes now => exact h.write leads bytes now
  | made absent bytes now => exact h.make absent bytes now

theorem base (h : Touched place fs fs') (leads : fs'.leads place = some n) :
    ∃ base, Touched place fs base ∧ base.leads place = some n ∧
      ∀ ⦃fs'' k⦄, Touched place fs fs'' → fs''.leads place = some k →
        k = n ∧ (fs'' = base ∨ ∃ bytes now, fs'' = base.writeNode n bytes now) := by
  have there (leads : fs.leads place = some n) : ∀ ⦃fs'' k⦄, Touched place fs fs'' →
      fs''.leads place = some k → k = n ∧ (fs'' = fs ∨ ∃ bytes now, fs'' = fs.writeNode n bytes now) := by
    intro fs'' k h leads'
    cases h with
    | same => exact ⟨Option.some.inj (leads'.symm.trans leads), .inl rfl⟩
    | written leads'' bytes now =>
      cases leads.symm.trans leads''
      rw [leadsOutline (outlineWriteNode fs n bytes now)] at leads'
      exact ⟨Option.some.inj (leads'.symm.trans leads), .inr ⟨bytes, now, rfl⟩⟩
    | made absent bytes now => simp [FileSystem.leads, absent] at leads
  cases h with
  | same => exact ⟨fs, .same, leads, there leads⟩
  | @written k leads' bytes now =>
    rw [leadsOutline (outlineWriteNode fs k bytes now)] at leads
    exact ⟨fs, .same, leads, there leads⟩
  | @made d name absent bytes now =>
    have missing : fs.leads place = none := by rw [FileSystem.leads, absent]
    obtain ⟨es, at?, -⟩ := walkAbsent _ _ _ absent
    cases (madeLeads absent bytes now).2.symm.trans leads
    refine ⟨fs.create d.node name ⟨.file [], 0o644, 0⟩, .made absent [] 0, (madeLeads absent [] 0).2, ?_⟩
    intro fs'' k h leads'
    cases h with
    | same => cases missing.symm.trans leads'
    | written leads'' _ _ => cases missing.symm.trans leads''
    | made absent' bytes' now' =>
      cases absent.symm.trans absent'
      have size := (madeLeads absent bytes' now').2.symm.trans leads'
      exact ⟨(Option.some.inj size).symm, .inr ⟨bytes', now', (writeNodeMade at? ..).symm⟩⟩

theorem sameOutline {k : Nat} (h : Touched place fs fs') (leads : fs'.leads place = some n)
    (h' : Touched place fs fs'') (leads' : fs''.leads place = some k) : k = n ∧ fs'.SameOutline fs'' := by
  obtain ⟨base, -, -, all⟩ := h.base leads
  have outline {x : FileSystem} (either : x = base ∨ ∃ bytes now, x = base.writeNode n bytes now) :
      base.SameOutline x := by
    rcases either with rfl | ⟨bytes, now, rfl⟩
    · exact fun _ => rfl
    · exact outlineWriteNode base n bytes now
  obtain ⟨same, either⟩ := all h' leads'
  exact ⟨same, (outline (all h leads).2).symm.trans (outline either)⟩

end Touched

theorem openFileTouched {here path : Path} {now : Int} (h : fs.openFile here path now = .ok (fs', n)) :
    Touched (here.join path.text) fs fs' := by
  unfold openFile at h
  split at h
  · cases located : fs.locate here true path.withoutFinalSlash <;> simp [located, bind, Except.bind] at h
  cases located : fs.locate here false path with
  | error e => simp [located, bind, Except.bind] at h
  | ok spot =>
    simp only [located, bind, Except.bind] at h
    have found := locateWalk located
    cases spot with
    | present trail =>
      simp only at h
      split at h <;> cases h
      exact .same
    | absent d name =>
      cases h
      exact .made found [] now

end FileSystem

theorem Machine.Touches.touched {place : Path} {m m' : Machine} (h : m.Touches place m') :
    m.files.Touched place m'.files := by
  induction h with
  | still files => exact files ▸ .same
  | opened leads opens => exact leads ▸ FileSystem.openFileTouched opens
  | written leads files => exact files ▸ .written leads _ _
  | trans h k ih ih' => exact ih.trans ih'

end BuildReuse
