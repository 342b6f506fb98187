import BuildReuse.Proofs.Lock.Mutexes

/-! Lock tables whose numbers are all given out by themselves. A waiter is granted its turn at
once if and only if nobody waits at the mutex of its directory. -/
namespace BuildReuse.LockTable

structure Orderly (t : LockTable) : Prop where
  tickets : ∀ w ∈ t.queue, w.ticket < t.fresh
  waited : ∀ w ∈ t.queue, w.mutex < t.fresh
  handles : ∀ h ∈ t.handles, h.number < t.fresh
  locked : ∀ h ∈ t.locked, h.number < t.fresh
  mutexes : ∀ e ∈ t.entries, e.mutex < t.fresh
  single : ∀ e ∈ t.entries, ∀ e' ∈ t.entries, e.registry = e'.registry →
    e.directory.same e'.directory = true → e.mutex = e'.mutex

def Awaited (t : LockTable) (registry : Nat) (directory : Path) : Prop :=
  ∃ e ∈ t.entries, e.registry = registry ∧ e.directory.same directory = true ∧ t.inUse e.mutex = true

variable {t : LockTable} {registry : Nat} {directory : Path}

theorem Orderly.unused (orderly : t.Orderly) : t.inUse t.fresh = false := by
  rw [inUse, List.any_eq_false]
  intro w waits same
  exact Nat.ne_of_lt (orderly.waited w waits) (by simpa using same)

structure Named (t : LockTable) (registry : Nat) (directory : Path) (mutex : Nat) (t' : LockTable) : Prop where
  queue : t'.queue = t.queue
  handles : t'.handles = t.handles
  locked : t'.locked = t.locked
  fresh : t.fresh ≤ t'.fresh
  below : mutex < t'.fresh
  kept : ∀ e ∈ t.entries, t.inUse e.mutex = true → e ∈ t'.entries
  origin : ∀ e ∈ t'.entries, e ∈ t.entries ∨ e = ⟨registry, directory, mutex⟩ ∧ mutex = t.fresh ∧
    ∀ e' ∈ t'.entries, e' ∈ t.entries → e'.registry = registry → e'.directory.same directory = false
  found : mutex = t.fresh ∧ (∀ e ∈ t.entries, e.registry = registry → e.directory.same directory = false) ∨
    ∃ e ∈ t.entries, e.registry = registry ∧ e.directory.same directory = true ∧ e.mutex = mutex

theorem mutexNamed (orderly : t.Orderly) (registry : Nat) (directory : Path) :
    Named t registry directory (t.mutexFor registry directory).1 (t.mutexFor registry directory).2 := by
  have stays {e : MutexEntry} (within : e ∈ t.entries) (busy : t.inUse e.mutex = true) :
      e ∈ t.kept registry directory := keptIff.mpr ⟨within, fun _ => .inr busy⟩
  have was {e : MutexEntry} (left : e ∈ t.kept registry directory) : e ∈ t.entries := (keptIff.mp left).1
  have asks := mutexForAsked t registry directory
  generalize t.mutexFor registry directory = asked at asks
  cases asks with
  | found left own =>
    exact ⟨rfl, rfl, rfl, Nat.le_refl _, orderly.mutexes _ (was left), fun e => stays,
      fun e left => .inl (was left), .inr ⟨_, was left, own.1, own.2, rfl⟩⟩
  | made none =>
    have other {e : MutexEntry} (within : e ∈ t.entries) (own : e.registry = registry) :
        e.directory.same directory = false := by
      by_contra same
      exact none e within ⟨own, by simpa using same⟩
    refine ⟨rfl, rfl, rfl, Nat.le_succ _, Nat.lt_succ_self _, fun e within busy =>
      List.mem_append_left _ (stays within busy), fun e left => ?_, .inl ⟨rfl, fun e within => other within⟩⟩
    rcases List.mem_append.mp left with old | new
    · exact .inl (was old)
    · exact .inr ⟨List.mem_singleton.mp new, rfl, fun e' _ old own => other old own⟩

theorem Named.orderly {mutex : Nat} {t' : LockTable} (named : Named t registry directory mutex t')
    (orderly : t.Orderly) : t'.Orderly := by
  have less {n : Nat} (old : n < t.fresh) : n < t'.fresh := Nat.lt_of_lt_of_le old named.fresh
  constructor
  case tickets => exact fun w waits => less (orderly.tickets w (named.queue ▸ waits))
  case waited => exact fun w waits => less (orderly.waited w (named.queue ▸ waits))
  case handles => exact fun h isOpen => less (orderly.handles h (named.handles ▸ isOpen))
  case locked => exact fun h isLocked => less (orderly.locked h (named.locked ▸ isLocked))
  case mutexes =>
    intro e within
    rcases named.origin e within with old | ⟨rfl, -, -⟩
    · exact less (orderly.mutexes e old)
    · exact named.below
  case single =>
    intro e within e' within' own same
    rcases named.origin e within with old | ⟨rfl, -, differs⟩
    · rcases named.origin e' within' with old' | ⟨rfl, -, differs⟩
      · exact orderly.single e old e' old' own same
      · rw [differs e within old own] at same
        cases same
    · rcases named.origin e' within' with old' | ⟨rfl, -, -⟩
      · rw [Path.sameComm, differs e' within' old' own.symm] at same
        cases same
      · rfl

theorem Named.awaited {mutex : Nat} {t' : LockTable} (named : Named t registry directory mutex t')
    (orderly : t.Orderly) (registry₁ : Nat) (directory₁ : Path) :
    t'.Awaited registry₁ directory₁ ↔ t.Awaited registry₁ directory₁ := by
  have uses (k : Nat) : t'.inUse k = t.inUse k := by rw [inUse, named.queue, inUse]
  constructor
  · rintro ⟨e, within, own, same, busy⟩
    rw [uses] at busy
    rcases named.origin e within with old | ⟨rfl, new, -⟩
    · exact ⟨e, old, own, same, busy⟩
    · rw [new, orderly.unused] at busy
      cases busy
  · rintro ⟨e, within, own, same, busy⟩
    exact ⟨e, named.kept e within busy, own, same, (uses _).trans busy⟩

theorem Named.busy {mutex : Nat} {t' : LockTable} (named : Named t registry directory mutex t')
    (orderly : t.Orderly) : t.inUse mutex = true ↔ t.Awaited registry directory := by
  constructor
  · intro busy
    rcases named.found with ⟨new, -⟩ | ⟨e, within, own, same, rfl⟩
    · rw [new, orderly.unused] at busy
      cases busy
    · exact ⟨e, within, own, same, busy⟩
  · rintro ⟨e, within, own, same, busy⟩
    rcases named.found with ⟨-, none⟩ | ⟨e', within', own', same', rfl⟩
    · rw [none e within own] at same
      cases same
    · have alike : e.directory.same e'.directory = true := Path.sameTrans same ((Path.sameComm ..).trans same')
      rwa [← orderly.single e within e' within' (own.trans own'.symm) alike]

theorem orderlyEnqueue (orderly : t.Orderly) (registry : Nat) (directory : Path) :
    (t.enqueue registry directory).2.Orderly := by
  have named := mutexNamed orderly registry directory
  obtain ⟨tickets, waited, handles, locked, mutexes, single⟩ := named.orderly orderly
  unfold enqueue
  constructor
  case tickets =>
    intro w waits
    rcases List.mem_append.mp waits with old | new
    · exact Nat.lt_succ_of_lt (tickets w old)
    · cases List.mem_singleton.mp new
      exact Nat.lt_succ_self _
  case waited =>
    intro w waits
    rcases List.mem_append.mp waits with old | new
    · exact Nat.lt_succ_of_lt (waited w old)
    · cases List.mem_singleton.mp new
      exact Nat.lt_succ_of_lt named.below
  case handles => exact fun h isOpen => Nat.lt_succ_of_lt (handles h isOpen)
  case locked => exact fun h isLocked => Nat.lt_succ_of_lt (locked h isLocked)
  case mutexes => exact fun e within => Nat.lt_succ_of_lt (mutexes e within)
  case single => exact single

theorem orderlyLeave (orderly : t.Orderly) (ticket : Nat) : (t.leave ticket).Orderly where
  tickets w waits := orderly.tickets w (List.mem_filter.mp waits).1
  waited w waits := orderly.waited w (List.mem_filter.mp waits).1
  handles := orderly.handles
  locked := orderly.locked
  mutexes := orderly.mutexes
  single := orderly.single

theorem orderlyOpenNode (orderly : t.Orderly) (node : Nat) : (t.openNode node).2.Orderly where
  tickets w waits := Nat.lt_succ_of_lt (orderly.tickets w waits)
  waited w waits := Nat.lt_succ_of_lt (orderly.waited w waits)
  handles h isOpen := by
    rcases List.mem_append.mp isOpen with old | new
    · exact Nat.lt_succ_of_lt (orderly.handles h old)
    · cases List.mem_singleton.mp new
      exact Nat.lt_succ_self _
  locked h isLocked := Nat.lt_succ_of_lt (orderly.locked h isLocked)
  mutexes e within := Nat.lt_succ_of_lt (orderly.mutexes e within)
  single := orderly.single

theorem orderlyClose (orderly : t.Orderly) (number : Nat) : (t.close number).Orderly where
  tickets := orderly.tickets
  waited := orderly.waited
  handles h isOpen := orderly.handles h (List.mem_filter.mp isOpen).1
  locked h isLocked := orderly.locked h (List.mem_filter.mp isLocked).1
  mutexes := orderly.mutexes
  single := orderly.single

theorem tryLockAdds (t : LockTable) (number : Nat) :
    (t.tryLock number).2 = t ∨ ∃ h ∈ t.handles, h.number = number ∧
      (t.tryLock number).2 = { t with locked := t.locked ++ [h] } := by
  unfold tryLock
  split
  · exact .inl rfl
  · rename_i h found
    split
    · exact .inl rfl
    · exact .inr ⟨h, List.mem_of_find?_eq_some found, by simpa using List.find?_some found, rfl⟩

theorem orderlyTryLock (orderly : t.Orderly) (number : Nat) : (t.tryLock number).2.Orderly := by
  rcases tryLockAdds t number with same | ⟨h, isOpen, -, same⟩
  · rwa [same]
  · rw [same]
    refine ⟨orderly.tickets, orderly.waited, orderly.handles, fun l isLocked => ?_, orderly.mutexes, orderly.single⟩
    rcases List.mem_append.mp isLocked with old | new
    · exact orderly.locked l old
    · cases List.mem_singleton.mp new
      exact orderly.handles h isOpen

theorem grantedIff (orderly : t.Orderly) (registry : Nat) (directory : Path) :
    (t.enqueue registry directory).2.granted (t.enqueue registry directory).1 = true ↔
      ¬ t.Awaited registry directory := by
  have named := mutexNamed orderly registry directory
  have tickets := (named.orderly orderly).tickets
  rw [← named.busy orderly, enqueue]
  generalize t.mutexFor registry directory = asked at named tickets ⊢
  obtain ⟨mutex, t'⟩ := asked
  simp only at named tickets
  let w : Waiter := ⟨t'.fresh, mutex⟩
  have own : waiter? { t' with queue := t'.queue ++ [w], fresh := t'.fresh + 1 } t'.fresh = some w := by
    have none : (t'.queue.find? fun w => w.ticket == t'.fresh) = none := by
      rw [List.find?_eq_none]
      intro w waits same
      exact Nat.ne_of_lt (tickets w waits) (by simpa using same)
    simp [waiter?, List.find?_append, none, w]
  simp only [granted]
  rw [own]
  simp only [holder?, List.find?_append]
  cases first : t'.queue.find? fun w' => w'.mutex == w.mutex with
  | none =>
    have idle : t.inUse mutex = false := by
      rw [inUse, ← named.queue, List.any_eq_false]
      exact List.find?_eq_none.mp first
    simp [idle, w]
  | some w' =>
    have waits := List.mem_of_find?_eq_some first
    have busy : t.inUse mutex = true := by
      rw [inUse, ← named.queue, List.any_eq_true]
      exact ⟨w', waits, by simpa [w] using List.find?_some first⟩
    have other : w' ≠ w := by
      rintro rfl
      exact Nat.lt_irrefl _ (tickets _ waits)
    simp [busy, other]

theorem newLocksIff (orderly : t.Orderly) (node : Nat) :
    ((t.openNode node).2.tryLock (t.openNode node).1).1 = true ↔ ∀ l ∈ t.locked, l.node ≠ node := by
  have none : (t.handles.find? fun h => h.number == t.fresh) = none := by
    rw [List.find?_eq_none]
    intro h isOpen same
    exact Nat.ne_of_lt (orderly.handles h isOpen) (by simpa using same)
  have own : (t.openNode node).2.handle? (t.openNode node).1 = some ⟨t.fresh, node⟩ := by
    simp [openNode, handle?, List.find?_append, none]
  simp only [tryLock, own]
  cases first : (t.openNode node).2.locked.find? fun l => l.node == node with
  | none =>
    refine iff_of_true rfl fun l isLocked => ?_
    simpa using List.find?_eq_none.mp first l isLocked
  | some l =>
    have isLocked : l ∈ t.locked := List.mem_of_find?_eq_some first
    have other : l.number ≠ t.fresh := Nat.ne_of_lt (orderly.locked l isLocked)
    have same : l.node = node := by simpa using List.find?_some first
    refine iff_of_false ?_ fun free => free l isLocked same
    simpa [openNode] using other

end BuildReuse.LockTable
