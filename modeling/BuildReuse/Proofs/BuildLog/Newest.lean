import BuildReuse.BuildLog.Latest
import Mathlib.Data.String.Basic

/-! The newest of several logs: times come first, names decide between equal times, so
that no two logs are equally new. -/
namespace BuildReuse.BuildLog

theorem artifactForm (fs : FileSystem) (here log : Path) : artifact? fs here log =
    ((fs.find here log).toOption.map Trail.node).bind fun n =>
      fs.nodes[n]?.map fun node => ⟨log, node.modified⟩ := by
  rw [artifact?]
  cases fs.find here log with
  | error e => rfl
  | ok trail =>
    simp only [Except.toOption, Option.map_some, Option.bind_some, bind]
    cases fs.nodes[trail.node]? <;> rfl

theorem newerIff {a b : Artifact} :
    a.newer b = true ↔ a.modified < b.modified ∨ (a.modified = b.modified ∧ a.path.text ≤ b.path.text) := by
  simp [Artifact.newer]

theorem newerTotal (a b : Artifact) : a.newer b = true ∨ b.newer a = true := by
  rw [newerIff, newerIff]
  rcases lt_trichotomy a.modified b.modified with less | same | greater
  · exact .inl (.inl less)
  · rcases le_total a.path.text b.path.text with before | behind
    · exact .inl (.inr ⟨same, before⟩)
    · exact .inr (.inr ⟨same.symm, behind⟩)
  · exact .inr (.inl greater)

theorem newerTrans {a b c : Artifact} (first : a.newer b = true) (second : b.newer c = true) :
    a.newer c = true := by
  rw [newerIff] at first second ⊢
  rcases first with less | ⟨same, before⟩
  · rcases second with less' | ⟨same', -⟩
    · exact .inl (less.trans less')
    · exact .inl (same' ▸ less)
  · rcases second with less | ⟨same', before'⟩
    · exact .inl (same ▸ less)
    · exact .inr ⟨same.trans same', before.trans before'⟩

theorem newerAntisymm {a b : Artifact} (first : a.newer b = true) (second : b.newer a = true) : a = b := by
  obtain ⟨⟨p⟩, time⟩ := a
  obtain ⟨⟨q⟩, time'⟩ := b
  rw [newerIff] at first second
  simp only at first second
  rcases first with less | ⟨rfl, before⟩
  · rcases second with less' | ⟨same, -⟩
    · exact (lt_asymm less less').elim
    · exact (less.ne same.symm).elim
  · rcases second with less | ⟨-, behind⟩
    · exact (lt_irrefl _ less).elim
    · rw [le_antisymm before behind]

theorem newestNone {artifacts : List Artifact} : newest artifacts = none ↔ artifacts = [] := by
  cases artifacts with
  | nil => exact ⟨fun _ => rfl, fun _ => rfl⟩
  | cons first rest =>
    refine ⟨fun none => ?_, nofun⟩
    rw [newest] at none
    split at none <;> cases none

theorem newestMember {artifacts : List Artifact} : ∀ {a}, newest artifacts = some a →
    a ∈ artifacts := by
  induction artifacts with
  | nil => exact fun h => by cases h
  | cons first rest ih =>
    intro a h
    rw [newest] at h
    cases later : BuildLog.newest rest with
    | none =>
      simp only [later, Option.some.injEq] at h
      exact h ▸ List.mem_cons_self
    | some b =>
      simp only [later, Option.some.injEq] at h
      split at h
      · exact List.mem_cons_of_mem _ (ih (later.trans (congrArg some h)))
      · exact h ▸ List.mem_cons_self

theorem newestGreatest {artifacts : List Artifact} : ∀ {a}, newest artifacts = some a →
    ∀ b ∈ artifacts, b.newer a = true := by
  induction artifacts with
  | nil => nofun
  | cons first rest ih =>
    intro a isNewest b inside
    have self (a : Artifact) : a.newer a = true := newerIff.mpr (.inr ⟨rfl, le_refl _⟩)
    rw [newest] at isNewest
    cases among : newest rest with
    | none =>
      rw [among] at isNewest
      cases isNewest
      rw [newestNone.mp among, List.mem_singleton] at inside
      exact inside ▸ self first
    | some c =>
      simp only [among, Option.some.injEq] at isNewest
      have least : first.newer a = true ∧ c.newer a = true := by
        split at isNewest
        case isTrue newer => exact isNewest ▸ ⟨newer, self c⟩
        case isFalse older => exact isNewest ▸ ⟨self first, (newerTotal first c).resolve_left older⟩
      rcases List.mem_cons.mp inside with rfl | later
      · exact least.1
      · exact newerTrans (ih among b later) least.2

end BuildReuse.BuildLog
