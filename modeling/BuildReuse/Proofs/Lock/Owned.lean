import BuildReuse.Lock.Acquire
import BuildReuse.Proofs.FileSystem.Grown
import BuildReuse.Proofs.Task.Acts

/-! What an attempt to take a lock has of the machine: nothing, an open lock file,
or a locked one. No move of one attempt takes away what another has. -/
namespace BuildReuse

namespace LockTable

structure Sound (t : LockTable) : Prop where
  below : ∀ h ∈ t.handles, h.number < t.fresh
  unique : ∀ h ∈ t.handles, ∀ h' ∈ t.handles, h.number = h'.number → h = h'
  opened : ∀ h ∈ t.locked, h ∈ t.handles
  alone : ∀ h ∈ t.locked, ∀ h' ∈ t.locked, h.node = h'.node → h = h'

variable {t : LockTable}

theorem Sound.empty : Sound .empty := by
  constructor <;> simp [LockTable.empty]

theorem handleOf (sound : t.Sound) {h : Handle} (isOpen : h ∈ t.handles) :
    t.handle? h.number = some h := by
  unfold handle?
  cases found : t.handles.find? fun h' => h'.number == h.number with
  | none => simpa using List.find?_eq_none.mp found h isOpen
  | some h' =>
    have number : h'.number = h.number := by simpa using List.find?_some found
    rw [sound.unique h' (List.mem_of_find?_eq_some found) h isOpen number]

structure SameHandles (t t' : LockTable) : Prop where
  handles : t'.handles = t.handles
  locked : t'.locked = t.locked
  fresh : t.fresh ≤ t'.fresh

theorem Sound.kept {t' : LockTable} (sound : t.Sound) (same : SameHandles t t') : t'.Sound := by
  obtain ⟨handles, locked, fresh⟩ := same
  constructor
  case below =>
    intro h isOpen
    exact Nat.lt_of_lt_of_le (sound.below h (handles ▸ isOpen)) fresh
  case unique => simpa only [handles] using sound.unique
  case opened => simpa only [handles, locked] using sound.opened
  case alone => simpa only [locked] using sound.alone

theorem sameEnqueue (t : LockTable) (registry : Nat) (directory : Path) :
    SameHandles t (t.enqueue registry directory).2 := by
  unfold enqueue mutexFor
  simp only
  split
  · exact ⟨rfl, rfl, Nat.le_succ _⟩
  · exact ⟨rfl, rfl, Nat.le_add_right _ 2⟩

theorem sameLeave (t : LockTable) (ticket : Nat) : SameHandles t (t.leave ticket) :=
  ⟨rfl, rfl, Nat.le_refl _⟩

theorem soundOpenNode (sound : t.Sound) (node : Nat) : (t.openNode node).2.Sound := by
  constructor
  case below =>
    intro h isOpen
    rcases List.mem_append.mp isOpen with old | new
    · exact Nat.lt_succ_of_lt (sound.below h old)
    · cases List.mem_singleton.mp new
      exact Nat.lt_succ_self _
  case unique =>
    intro h isOpen h' open' number
    rcases List.mem_append.mp isOpen with old | new
    · rcases List.mem_append.mp open' with old' | new'
      · exact sound.unique h old h' old' number
      · cases List.mem_singleton.mp new'
        exact (Nat.ne_of_lt (sound.below h old) number).elim
    · rcases List.mem_append.mp open' with old' | new'
      · cases List.mem_singleton.mp new
        exact (Nat.ne_of_lt (sound.below h' old') number.symm).elim
      · rw [List.mem_singleton.mp new, List.mem_singleton.mp new']
  case opened => exact fun h isLocked => List.mem_append_left _ (sound.opened h isLocked)
  case alone => exact sound.alone

theorem soundClose (sound : t.Sound) (number : Nat) : (t.close number).Sound := by
  have within {l : List Handle} {h} (at? : h ∈ l.filter fun h => h.number != number) : h ∈ l :=
    (List.mem_filter.mp at?).1
  constructor
  case below => exact fun h isOpen => sound.below h (within isOpen)
  case unique => exact fun h isOpen h' open' => sound.unique h (within isOpen) h' (within open')
  case opened =>
    intro h isLocked
    obtain ⟨isLocked, other⟩ := List.mem_filter.mp isLocked
    exact List.mem_filter.mpr ⟨sound.opened h isLocked, other⟩
  case alone => exact fun h isLocked h' locked' => sound.alone h (within isLocked) h' (within locked')

theorem tryLockCases (sound : t.Sound) {h : Handle} (isOpen : h ∈ t.handles) :
    t.tryLock h.number = (true, t) ∧ h ∈ t.locked ∨ t.tryLock h.number = (false, t) ∨
      t.tryLock h.number = (true, { t with locked := t.locked ++ [h] }) ∧
        ∀ l ∈ t.locked, l.node ≠ h.node := by
  simp only [tryLock, handleOf sound isOpen]
  cases found : t.locked.find? fun l => l.node == h.node with
  | none =>
    refine .inr (.inr ⟨rfl, fun l isLocked => ?_⟩)
    simpa using List.find?_eq_none.mp found l isLocked
  | some l =>
    have isLocked := List.mem_of_find?_eq_some found
    by_cases own : l.number = h.number
    · have same := sound.unique l (sound.opened l isLocked) h isOpen own
      subst same
      exact .inl ⟨by simp, isLocked⟩
    · exact .inr (.inl (by simp [own]))

theorem soundLocked (sound : t.Sound) {h : Handle} (isOpen : h ∈ t.handles)
    (free : ∀ l ∈ t.locked, l.node ≠ h.node) : Sound { t with locked := t.locked ++ [h] } := by
  constructor
  case below => exact sound.below
  case unique => exact sound.unique
  case opened =>
    intro l isLocked
    rcases List.mem_append.mp isLocked with old | new
    · exact sound.opened l old
    · cases List.mem_singleton.mp new
      exact isOpen
  case alone =>
    intro l isLocked l' locked' node
    rcases List.mem_append.mp isLocked with old | new
    · rcases List.mem_append.mp locked' with old' | new'
      · exact sound.alone l old l' old' node
      · cases List.mem_singleton.mp new'
        exact (free l old node).elim
    · cases List.mem_singleton.mp new
      rcases List.mem_append.mp locked' with old' | new'
      · exact (free l' old' node.symm).elim
      · rw [List.mem_singleton.mp new']

end LockTable

namespace Lock

inductive Own where
  | nothing
  | opened (h : Handle)
  | locked (h : Handle)

namespace Own

def handle? : Own → Option Handle
  | nothing => none
  | opened h | locked h => some h

def Fits (place : Path) (path? : Option Path) (m : Machine) : Own → Prop
  | nothing => True
  | opened h => h ∈ m.locks.handles ∧ (path? = some place → m.files.leads place = some h.node)
  | locked h => h ∈ m.locks.locked ∧ (path? = some place → m.files.leads place = some h.node)

def Apart (a b : Own) : Prop := ∀ h, a.handle? = some h → b.handle? ≠ some h

theorem Apart.symm {a b : Own} (h : a.Apart b) : b.Apart a := fun x hb ha => h x ha hb

theorem apartNothing (a : Own) : nothing.Apart a := nofun

theorem Fits.handle {place path? m} {own : Own} (fits : own.Fits place path? m) (sound : m.locks.Sound)
    {h} (has : own.handle? = some h) : h ∈ m.locks.handles := by
  cases own with
  | nothing => cases has
  | opened h' =>
    cases has
    exact fits.1
  | locked h' =>
    cases has
    exact sound.opened h fits.1

theorem Fits.kept {place path? m m'} {own : Own} (fits : own.Fits place path? m)
    (handles : ∀ h, own.handle? = some h → h ∈ m.locks.handles → h ∈ m'.locks.handles)
    (locked : ∀ h, own.handle? = some h → h ∈ m.locks.locked → h ∈ m'.locks.locked)
    (leads : ∀ n, m.files.leads place = some n → m'.files.leads place = some n) :
    own.Fits place path? m' := by
  cases own with
  | nothing => trivial
  | opened h => exact ⟨handles h rfl fits.1, fun at? => leads _ (fits.2 at?)⟩
  | locked h => exact ⟨locked h rfl fits.1, fun at? => leads _ (fits.2 at?)⟩

def opening (caller : Caller) (lockPath : Path) (m : Machine) : Own :=
  match m.files.openFile caller.here lockPath m.now with
  | .error _ => .nothing
  | .ok (_, node) => .opened ⟨m.locks.fresh, node⟩

def trying (h : Handle) (m : Machine) : Own :=
  if (Lock.tryLock h.number m).1 then .locked h else .opened h

end Own

def Fair (place : Path) (path? : Option Path) (own : Own) (m : Machine) (own' : Own) (m' : Machine) :
    Prop :=
  m.locks.Sound → own.Fits place path? m → m'.locks.Sound ∧ own'.Fits place path? m' ∧
    ∀ path₂? other, Own.Fits place path₂? m other → own.Apart other →
      other.Fits place path₂? m' ∧ own'.Apart other

namespace Fair

variable {place : Path} {path? : Option Path} {own own' own'' : Own} {m m' m'' : Machine}

theorem idle (own : Own) (m : Machine) : Fair place path? own m own m :=
  fun sound fits => ⟨sound, fits, fun _ _ theirs apart => ⟨theirs, apart⟩⟩

theorem trans (h : Fair place path? own m own' m') (k : Fair place path? own' m' own'' m'') :
    Fair place path? own m own'' m'' := by
  intro sound fits
  obtain ⟨sound', fits', others⟩ := h sound fits
  obtain ⟨sound'', fits'', others'⟩ := k sound' fits'
  refine ⟨sound'', fits'', fun path₂? other theirs apart => ?_⟩
  obtain ⟨theirs', apart'⟩ := others path₂? other theirs apart
  exact others' path₂? other theirs' apart'

theorem still (same : LockTable.SameHandles m.locks m'.locks) (grown : m.files.Grown m'.files) :
    Fair place path? own m own m' := by
  intro sound fits
  have kept {path₂? other} (theirs : Own.Fits place path₂? m other) : other.Fits place path₂? m' := by
    refine theirs.kept (fun h _ isOpen => ?_) (fun h _ isLocked => ?_)
      fun _ => FileSystem.leadsGrown grown
    · exact same.handles ▸ isOpen
    · exact same.locked ▸ isLocked
  exact ⟨sound.kept same, kept fits, fun _ _ theirs apart => ⟨kept theirs, apart⟩⟩

theorem enqueue (registry : Nat) (directory : Path) (m : Machine) :
    Fair place path? own m own (Lock.enqueue registry directory m).2 :=
  still (LockTable.sameEnqueue m.locks registry directory) (.refl _)

theorem leave (ticket : Nat) (m : Machine) : Fair place path? own m own (Lock.leave ticket m) :=
  still (LockTable.sameLeave m.locks ticket) (.refl _)

theorem write (caller : Caller) (handle : Nat) (command : String) (directory : Path) (m : Machine) :
    Fair place path? own m own (writeMetadata caller handle command directory m).2 := by
  unfold writeMetadata
  split
  · exact idle own m
  · split
    · exact still ⟨rfl, rfl, Nat.le_refl _⟩ (FileSystem.grownWriteNode ..)
    · exact idle own m

theorem close {h : Handle} (mine : own.handle? = some h) (m : Machine) :
    Fair place path? own m .nothing (Lock.close h.number m) := by
  intro sound fits
  have isOpen := fits.handle sound mine
  refine ⟨LockTable.soundClose sound _, trivial, fun path₂? other theirs apart => ⟨?_, nofun⟩⟩
  have differs {h'} (its : other.handle? = some h') : (h'.number != h.number) = true := by
    rw [bne_iff_ne]
    intro number
    have same := sound.unique h' (theirs.handle sound its) h isOpen number
    exact apart h mine (same ▸ its)
  refine theirs.kept (fun h' its isOpen' => ?_) (fun h' its isLocked => ?_) fun _ => id
  · exact List.mem_filter.mpr ⟨isOpen', differs its⟩
  · exact List.mem_filter.mpr ⟨isLocked, differs its⟩

theorem openFile (caller : Caller) (lockPath : Path) (m : Machine)
    (own? : path? = some (caller.here.join lockPath.text)) :
    Fair place path? .nothing m (.opening caller lockPath m) (Lock.openFile caller lockPath m).2 := by
  unfold Own.opening Lock.openFile
  cases result : m.files.openFile caller.here lockPath m.now with
  | error e => exact idle .nothing m
  | ok made =>
    obtain ⟨files, node⟩ := made
    obtain ⟨grown, leads⟩ := FileSystem.openFileLeads result
    intro sound _
    refine ⟨LockTable.soundOpenNode sound node, ⟨?_, fun at? => ?_⟩, fun path₂? other theirs _ => ⟨?_, ?_⟩⟩
    · exact List.mem_append_right _ (List.mem_singleton.mpr rfl)
    · rw [own?] at at?
      cases at?
      exact leads
    · exact theirs.kept (fun h _ isOpen => List.mem_append_left _ isOpen) (fun _ _ => id)
        fun _ => FileSystem.leadsGrown grown
    · intro h mine its
      cases mine
      exact Nat.lt_irrefl _ (sound.below _ (theirs.handle sound its))

theorem tryLock (h : Handle) (m : Machine) :
    Fair place path? (.opened h) m (.trying h m) (Lock.tryLock h.number m).2 := by
  intro sound fits
  obtain ⟨isOpen, leads⟩ := fits
  unfold Own.trying Lock.tryLock
  rcases LockTable.tryLockCases sound isOpen with ⟨same, isLocked⟩ | same | ⟨taken, free⟩
  · rw [same]
    exact ⟨sound, ⟨isLocked, leads⟩, fun _ _ theirs apart => ⟨theirs, apart⟩⟩
  · rw [same]
    exact ⟨sound, ⟨isOpen, leads⟩, fun _ _ theirs apart => ⟨theirs, apart⟩⟩
  · rw [taken]
    refine ⟨LockTable.soundLocked sound isOpen free, ⟨?_, leads⟩, fun _ _ theirs apart => ⟨?_, apart⟩⟩
    · exact List.mem_append_right _ (List.mem_singleton.mpr rfl)
    · exact theirs.kept (fun _ _ => id) (fun _ _ old => List.mem_append_left _ old) fun _ => id

end Fair
end Lock
end BuildReuse
