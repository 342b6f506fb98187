import BuildReuse.Registry
import Mathlib.Data.List.Pairwise

/-! What a registry remembers of its use. Its moves are few: nothing, one entry put last,
an entry more, a key less. Entries stand in the order of their last use, so an entry that has to
make room stands before as many others, all of them used since. -/
namespace BuildReuse.Registry

variable {α : Type}

inductive Event where
  | used (key : Path)
  | dropped (key : Path)
  deriving DecidableEq, Repr

def lastUse (key : Path) : List Event → Nat
  | [] => 0
  | .used other :: history => if other.same key then history.length + 1 else lastUse key history
  | .dropped _ :: history => lastUse key history

@[simp] theorem lastUseDropped (key other : Path) (history : List Event) :
    lastUse key (.dropped other :: history) = lastUse key history := rfl

theorem lastUseUsed {key other : Path} (same : other.same key = true) (history : List Event) :
    lastUse key (.used other :: history) = history.length + 1 := if_pos same

theorem lastUseOther {key other : Path} (apart : other.same key = false) (history : List Event) :
    lastUse key (.used other :: history) = lastUse key history := by
  simp [lastUse, apart]

theorem lastUseLe (key : Path) (history : List Event) : lastUse key history ≤ history.length := by
  induction history with
  | nil => exact Nat.le_refl 0
  | cons event history ih =>
    cases event with
    | used other =>
      simp only [lastUse, List.length_cons]
      split <;> omega
    | dropped other =>
      simp only [lastUseDropped, List.length_cons]
      omega

theorem lastUseSame {key key' : Path} (same : key.same key' = true) (history : List Event) :
    lastUse key history = lastUse key' history := by
  induction history with
  | nil => rfl
  | cons event history ih =>
    cases event with
    | used other =>
      have both : other.same key = other.same key' := by
        rw [Bool.eq_iff_iff]
        exact ⟨fun h => Path.sameTrans h same, fun h => Path.sameTrans h (Path.sameComm key key' ▸ same)⟩
      simp only [lastUse, both, ih]
    | dropped other => exact ih

theorem apartOfLastUse {key key' : Path} {history : List Event}
    (older : lastUse key history < lastUse key' history) : key.same key' = false := by
  rw [← Bool.not_eq_true]
  intro same
  rw [lastUseSame same] at older
  exact Nat.lt_irrefl _ older

abbrev Ordered (history : List Event) (entries : List (Path × α)) : Prop :=
  entries.Pairwise fun e f => lastUse e.1 history < lastUse f.1 history

def Crowded (many : Nat) (history : List Event) (key : Path) : Prop :=
  ∃ others : List Path, others.length = many ∧ (others.Pairwise fun p q => p.same q = false) ∧
    ∀ other ∈ others, key.same other = false ∧ lastUse key history < lastUse other history

theorem Ordered.crowds {history : List Event} {older newer : List (Path × α)} {e : Path × α}
    (ordered : Ordered history (older ++ newer)) (mem : e ∈ older) :
    Crowded newer.length history e.1 := by
  obtain ⟨-, behind, across⟩ := List.pairwise_append.mp ordered
  refine ⟨newer.map Prod.fst, List.length_map _, ?_, ?_⟩
  · exact List.pairwise_map.mpr (behind.imp apartOfLastUse)
  · intro other at?
    obtain ⟨f, after, rfl⟩ := List.mem_map.mp at?
    have newest := across e mem f after
    exact ⟨apartOfLastUse newest, newest⟩

variable {Owns : Path → α → Prop} {r r' : Registry α} {history events : List Event}

inductive Move (Owns : Path → α → Prop) (r : Registry α) : List Event → Registry α → Prop where
  | stay : Move Owns r [] r
  | touch {key e} (held : e ∈ r.entries) (same : e.1.same key = true) :
      Move Owns r [.used key] { r with entries := r.without key ++ [e] }
  | push {key a} (absent : ∀ e ∈ r.entries, e.1.same key = false) (owns : Owns key a) :
      Move Owns r [.used key] { r with
        entries := (r.entries ++ [(key, a)]).drop (r.entries.length + 1 - r.capacity) }
  | remove (key) : Move Owns r [.dropped key] { r with entries := r.without key }

variable {key : Path}

theorem findSome {e : Path × α} (found : r.find? key = some e) : e ∈ r.entries ∧ e.1.same key = true := by
  rw [find?] at found
  have same := List.find?_some found
  exact ⟨List.mem_of_find?_eq_some found, same⟩

theorem findNone (absent : r.find? key = none) : ∀ e ∈ r.entries, e.1.same key = false := by
  intro e mem
  simpa using List.find?_eq_none.mp absent e mem

theorem findAbsent (absent : ∀ e ∈ r.entries, e.1.same key = false) : r.find? key = none := by
  rw [find?, List.find?_eq_none]
  exact fun e mem => by simp [absent e mem]

theorem lookupAbsent (absent : ∀ e ∈ r.entries, e.1.same key = false) : r.lookup key = (none, r) := by
  simp only [lookup, findAbsent absent]

theorem lookupHit {a : α} (found : r.lookup key = (some a, r')) :
    ∃ e ∈ r.entries, e.1.same key = true ∧ e.2 = a ∧ r' = { r with entries := r.without key ++ [e] } := by
  simp only [lookup] at found
  split at found
  · rename_i e at?
    cases found
    obtain ⟨held, same⟩ := findSome at?
    exact ⟨e, held, same, rfl, rfl⟩
  · cases found

theorem lookupMiss (found : r.lookup key = (none, r')) :
    (∀ e ∈ r.entries, e.1.same key = false) ∧ r' = r := by
  simp only [lookup] at found
  split at found
  · cases found
  · rename_i absent
    cases found
    exact ⟨findNone absent, rfl⟩

theorem insertCases {a kept : α} (inserted : r.insert key a = (kept, r')) :
    (∃ e ∈ r.entries, e.1.same key = true ∧ e.2 = kept ∧
      r' = { r with entries := r.without key ++ [e] }) ∨
    (∀ e ∈ r.entries, e.1.same key = false) ∧ kept = a ∧
      r' = { r with entries := (r.entries ++ [(key, a)]).drop (r.entries.length + 1 - r.capacity) } := by
  simp only [insert] at inserted
  split at inserted
  · rename_i held s hit
    cases inserted
    exact .inl (lookupHit hit)
  · rename_i s missed
    obtain ⟨absent, rfl⟩ := lookupMiss missed
    cases inserted
    exact .inr ⟨absent, rfl, by simp only [List.length_append, List.length_singleton]⟩

theorem memWithout {e : Path × α} : e ∈ r.without key ↔ e ∈ r.entries ∧ e.1.same key = false := by
  simp [without]

structure Recent (Owns : Path → α → Prop) (r : Registry α) (history : List Event) : Prop where
  room : 0 < r.capacity
  bounded : r.entries.length ≤ r.capacity
  owned : ∀ e ∈ r.entries, Owns e.1 e.2
  used : ∀ e ∈ r.entries, 0 < lastUse e.1 history
  ordered : Ordered history r.entries

theorem recentOfCapacity (capacity : Nat) : Recent Owns (ofCapacity capacity : Registry α) [] where
  room := Nat.lt_of_lt_of_le Nat.one_pos (Nat.le_max_right capacity 1)
  bounded := Nat.zero_le _
  owned := nofun
  used := nofun
  ordered := .nil

namespace Recent

theorem distinct (recent : Recent Owns r history) :
    r.entries.Pairwise fun e f => e.1.same f.1 = false := recent.ordered.imp apartOfLastUse

theorem only (recent : Recent Owns r history) {e f : Path × α} (held : e ∈ r.entries) (held' : f ∈ r.entries)
    (same : e.1.same f.1 = true) : e = f := by
  have symm : Std.Symm fun e f : Path × α => e.1.same f.1 = false :=
    ⟨fun e f apart => Path.sameComm e.1 f.1 ▸ apart⟩
  by_contra other
  have apart := recent.distinct.forall held held' other
  rw [same] at apart
  cases apart

theorem find (recent : Recent Owns r history) {e : Path × α} (held : e ∈ r.entries) (same : e.1.same key = true) :
    r.find? key = some e := by
  cases found : r.find? key with
  | none =>
    have absent := findNone found e held
    rw [same] at absent
    cases absent
  | some f =>
    obtain ⟨held', same'⟩ := findSome found
    rw [recent.only held held' (Path.sameTrans same (Path.sameComm f.1 key ▸ same'))]

theorem lookup (recent : Recent Owns r history) {e : Path × α} (held : e ∈ r.entries) (same : e.1.same key = true) :
    r.lookup key = (some e.2, { r with entries := r.without key ++ [e] }) := by
  simp only [Registry.lookup, recent.find held same]

theorem orderedLast (recent : Recent Owns r history) {e : Path × α} (same : e.1.same key = true) :
    Ordered (.used key :: history) (r.without key ++ [e]) := by
  have now : lastUse e.1 (.used key :: history) = history.length + 1 :=
    lastUseUsed (Path.sameComm e.1 key ▸ same) history
  have before (f) (mem : f ∈ r.without key) : lastUse f.1 (.used key :: history) = lastUse f.1 history :=
    lastUseOther (Path.sameComm f.1 key ▸ (memWithout.mp mem).2) history
  refine List.pairwise_append.mpr ⟨?_, List.pairwise_singleton _ _, ?_⟩
  · have kept : Ordered history (r.without key) := recent.ordered.sublist List.filter_sublist
    refine kept.imp_of_mem fun mem mem' older => ?_
    rwa [before _ mem, before _ mem']
  · intro f mem g last
    rw [List.mem_singleton.mp last, now, before f mem]
    exact Nat.lt_succ_of_le (lastUseLe f.1 history)

theorem usedLast (recent : Recent Owns r history) {e : Path × α} (same : e.1.same key = true) :
    ∀ f ∈ r.without key ++ [e], 0 < lastUse f.1 (.used key :: history) := by
  intro f mem
  rcases List.mem_append.mp mem with kept | last
  · have held := memWithout.mp kept
    rw [lastUseOther (Path.sameComm f.1 key ▸ held.2)]
    exact recent.used f held.1
  · rw [List.mem_singleton.mp last, lastUseUsed (Path.sameComm e.1 key ▸ same)]
    exact Nat.succ_pos _

end Recent

theorem withoutAbsent (absent : ∀ e ∈ r.entries, e.1.same key = false) : r.without key = r.entries :=
  List.filter_eq_self.mpr fun e mem => by simp [absent e mem]

theorem withoutShorter {e : Path × α} (held : e ∈ r.entries) (same : e.1.same key = true) :
    (r.without key).length < r.entries.length :=
  List.length_filter_lt_length_iff_exists.mpr ⟨e, held, by simp [same]⟩

theorem Move.capacity (move : Move Owns r events r') : r'.capacity = r.capacity := by
  cases move <;> rfl

theorem Move.recent (move : Move Owns r events r') (recent : Recent Owns r history) :
    Recent Owns r' (events ++ history) := by
  cases move with
  | stay => exact recent
  | @touch key e held same =>
    refine ⟨recent.room, ?_, ?_, recent.usedLast same, recent.orderedLast same⟩
    · have shorter := withoutShorter held same
      have bounded := recent.bounded
      simp only [List.length_append, List.length_singleton]
      omega
    · intro f mem
      rcases List.mem_append.mp mem with kept | last
      · exact recent.owned f (memWithout.mp kept).1
      · rw [List.mem_singleton.mp last]
        exact recent.owned e held
  | @push key a absent owns =>
    have used := recent.usedLast (e := (key, a)) (Path.sameRefl key)
    have ordered := recent.orderedLast (e := (key, a)) (Path.sameRefl key)
    rw [withoutAbsent absent] at used ordered
    refine ⟨recent.room, ?_, ?_, ?_, ordered.sublist (List.drop_sublist _ _)⟩
    · simp only [List.length_drop, List.length_append, List.length_singleton]
      omega
    · intro f mem
      rcases List.mem_append.mp (List.mem_of_mem_drop mem) with kept | last
      · exact recent.owned f kept
      · rw [List.mem_singleton.mp last]
        exact owns
    · exact fun f mem => used f (List.mem_of_mem_drop mem)
  | remove key =>
    refine ⟨recent.room, ?_, ?_, ?_, ?_⟩
    · exact Nat.le_trans (List.length_filter_le _ _) recent.bounded
    · exact fun f mem => recent.owned f (memWithout.mp mem).1
    · exact fun f mem => recent.used f (memWithout.mp mem).1
    · exact recent.ordered.sublist List.filter_sublist

theorem Move.leaves (move : Move Owns r events r') (recent : Recent Owns r history) {e : Path × α}
    (held : e ∈ r.entries) (gone : e ∉ r'.entries) :
    ∃ event, events = [event] ∧
      ((∃ key, event = .dropped key ∧ e.1.same key = true) ∨
        Crowded r.capacity (event :: history) e.1) := by
  cases move with
  | stay => exact (gone held).elim
  | @touch key f held' same =>
    by_cases own : e.1.same key = true
    · have both : e = f := recent.only held held' (Path.sameTrans own (Path.sameComm f.1 key ▸ same))
      rw [both] at gone
      exact (gone (List.mem_append_right _ (List.mem_singleton.mpr rfl))).elim
    · rw [Bool.not_eq_true] at own
      exact (gone (List.mem_append_left _ (memWithout.mpr ⟨held, own⟩))).elim
  | @push key a absent owns =>
    refine ⟨_, rfl, .inr ?_⟩
    -- What is dropped in front stands before all that stays, and that fills the registry.
    have ordered := recent.orderedLast (e := (key, a)) (Path.sameRefl key)
    rw [withoutAbsent absent] at ordered
    have parts := List.take_append_drop (r.entries.length + 1 - r.capacity) (r.entries ++ [(key, a)])
    rw [← parts] at ordered
    have front : e ∈ (r.entries ++ [(key, a)]).take (r.entries.length + 1 - r.capacity) := by
      have mem : e ∈ r.entries ++ [(key, a)] := List.mem_append_left _ held
      rw [← parts] at mem
      exact (List.mem_append.mp mem).resolve_right gone
    have crowded := Ordered.crowds ordered front
    have full : r.entries.length + 1 - r.capacity ≠ 0 := by
      intro fits
      rw [fits] at front
      simp at front
    rw [List.length_drop, List.length_append, List.length_singleton] at crowded
    have room : r.entries.length + 1 - (r.entries.length + 1 - r.capacity) = r.capacity := by
      omega
    rwa [room] at crowded
  | remove key =>
    by_cases own : e.1.same key = true
    · exact ⟨_, rfl, .inl ⟨key, rfl, own⟩⟩
    · rw [Bool.not_eq_true] at own
      exact (gone (memWithout.mpr ⟨held, own⟩)).elim

theorem Move.tenant (move : Move Owns r events r') (recent : Recent Owns r history) {e f : Path × α}
    (held : e ∈ r.entries) (held' : f ∈ r'.entries) (same : e.1.same f.1 = true) : e = f := by
  have old {f} (there : f ∈ r.entries) (same : e.1.same f.1 = true) : e = f := recent.only held there same
  cases move with
  | stay => exact old held' same
  | @touch key g there own =>
    rcases List.mem_append.mp held' with kept | last
    · exact old (memWithout.mp kept).1 same
    · rw [List.mem_singleton.mp last] at same ⊢
      exact old there same
  | @push key a absent owns =>
    rcases List.mem_append.mp (List.mem_of_mem_drop held') with kept | last
    · exact old kept same
    · rw [List.mem_singleton.mp last, absent e held] at same
      cases same
  | remove key => exact old (memWithout.mp held').1 same

def Last (r : Registry α) (key : Path) (a : α) : Prop :=
  ∃ e, r.entries.getLast? = some e ∧ e.1.same key = true ∧ e.2 = a

theorem lookupLast {a : α} (found : r.lookup key = (some a, r')) : Last r' key a := by
  obtain ⟨e, -, same, rfl, rfl⟩ := lookupHit found
  exact ⟨e, List.getLast?_concat, same, rfl⟩

theorem insertLast {a kept : α} (room : 0 < r.capacity) (inserted : r.insert key a = (kept, r')) :
    Last r' key kept := by
  rcases insertCases inserted with ⟨e, -, same, rfl, rfl⟩ | ⟨-, rfl, rfl⟩
  · exact ⟨e, List.getLast?_concat, same, rfl⟩
  · refine ⟨(key, kept), ?_, Path.sameRefl key, rfl⟩
    rw [List.getLast?_drop, if_neg (by simp only [List.length_append, List.length_singleton]; omega)]
    exact List.getLast?_concat

end BuildReuse.Registry
