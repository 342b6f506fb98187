import BuildReuse.Session

/-! What happens in a session apart from one of its registries. Whoever runs tasks, serves
requests, opens packages or ends their runs leaves every registry as it is, and every package its
root. -/
namespace BuildReuse

namespace Turns

variable {W A R : Type} {t : Turns W A R} {P : W → Prop}

theorem roundKeeps (poll : ∀ a w, P w → P (t.poll a w).2) (slots : List (R ⊕ A)) {w : W} (holds : P w) :
    P (t.round slots w).2 := by
  induction slots generalizing w with
  | nil => exact holds
  | cons slot rest ih =>
    cases slot with
    | inl r => exact ih holds
    | inr a => exact ih (poll a w holds)

theorem driveKeeps [Timed W] (poll : ∀ a w, P w → P (t.poll a w).2)
    (advance : ∀ time w, P w → P (Timed.advance time w)) (limit : Option Nat) (rounds : Nat)
    (slots : List (R ⊕ A)) {w : W} (holds : P w) : P (t.drive limit rounds slots w).2 := by
  induction rounds generalizing slots w with
  | zero => exact holds
  | succ rounds ih =>
    have round := roundKeeps poll slots holds
    simp only [drive]
    split
    · exact round
    · split
      · exact ih _ round
      · split
        · exact round
        · exact advance _ _ round
        · exact ih _ (advance _ _ round)
        · split
          · exact advance _ _ round
          · exact ih _ (advance _ _ round)

end Turns

namespace Session

variable {k : Nat} {s s' s'' : Session}

structure Apart (k : Nat) (s s' : Session) : Prop where
  registry : s'.registries[k]? = s.registries[k]?
  roots : ∀ {package root}, s.root? package = some root → s'.root? package = some root

theorem Apart.refl (k : Nat) (s : Session) : Apart k s s := ⟨rfl, id⟩

theorem Apart.trans (first : Apart k s s') (second : Apart k s' s'') : Apart k s s'' :=
  ⟨second.registry.trans first.registry, fun own => second.roots (first.roots own)⟩

theorem apartPackages (k : Nat) (s : Session) (m : Machine) {packages : Array OpenPackage}
    (same : ∀ i : Nat, packages[i]?.map OpenPackage.package = s.packages[i]?.map OpenPackage.package) :
    Apart k s ⟨m, packages, s.registries⟩ where
  registry := rfl
  roots {package root} own := by
    have both := congrArg (Option.map fun p : Package => p.target.root) (same package)
    simp only [Option.map_map] at both
    exact both.trans own

theorem performApart {α : Type} (k : Nat) (limit : Option Nat) (t : Task Machine α) (s : Session) :
    Apart k s (s.perform limit t).2 := ⟨rfl, id⟩

theorem addApart (k : Nat) (p : Package) (s : Session) : Apart k s (s.add p).2 where
  registry := rfl
  roots {package root} own := by
    simp only [root?, add] at own ⊢
    obtain ⟨q, there, rfl⟩ := Option.map_eq_some_iff.mp own
    rw [Array.getElem?_push, if_neg, there]
    · rfl
    · rintro rfl
      simp at there

theorem pollApart (k : Nat) (r : Request) (s : Session) : Apart k s (r.poll s).2 := by
  simp only [Request.poll]
  split
  · exact .refl k s
  · refine apartPackages k s _ fun i => ?_
    simp only [Array.getElem?_modify]
    split
    · simp [Function.comp_def]
    · rfl

theorem serveApart (k : Nat) (limit : Option Nat) (requests : List Request) (s : Session) :
    Apart k s (s.serve limit requests).2 := by
  have driven := Turns.driveKeeps (t := Request.turns) (P := Apart k s)
    (fun r s' apart => apart.trans (pollApart k r s')) (fun time s' apart => ⟨apart.registry, apart.roots⟩)
    limit Turns.manyRounds (requests.map .inr) (.refl k s)
  exact driven

theorem retireApart (k : Nat) (referred : List Nat) (s : Session) : Apart k s (s.retire referred) := by
  simp only [retire]
  refine List.foldlRecOn _ _ (.refl k s) fun s' apart i _ => ?_
  cases there : s'.packages[i]? with
  | none => exact apart
  | some p =>
    simp only
    split
    · exact apart
    · refine apart.trans (apartPackages k s' _ fun j => ?_)
      rw [Array.set!_eq_setIfInBounds, Array.getElem?_setIfInBounds]
      split
      · rename_i at?
        subst at?
        obtain ⟨inside, rfl⟩ := Array.getElem?_eq_some_iff.mp there
        simp [inside]
      · rfl

end Session
end BuildReuse
