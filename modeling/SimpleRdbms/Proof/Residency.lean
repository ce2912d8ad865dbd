import SimpleRdbms.Proof.PoolSteps

namespace SimpleRdbms.Storage
open Function (update)

def Caller.pageId : Caller → Nat
  | .fetchPage pageId => pageId
  | .newPage pageId _ => pageId

def Caller.fetched : Caller → Option Nat
  | .fetchPage pageId => some pageId
  | .newPage _ _ => none

def Caller.created : Caller → Option (Nat × Nat)
  | .fetchPage _ => none
  | .newPage pageId lsn => some (pageId, lsn)

def Task.caller : Task → Option Caller
  | .needFrame caller | .victim caller _ _ | .examined caller _ _ | .ownsFrame caller _ => some caller
  | .loaded pageId _ _ => some (.fetchPage pageId)
  | .idle | .finishing _ | .checkpointBegun _ | .activeRead _ _ | .dirtyRead _ _ _ => none

def Task.brings (task : Task) : Option Nat := task.caller.map Caller.pageId

def Task.creates (task : Task) : Option (Nat × Nat) := task.caller.bind Caller.created

def Task.loads : Task → Option Nat
  | .needFrame caller | .victim caller _ _ | .examined caller _ _ | .ownsFrame caller _ => caller.fetched
  | .loaded pageId _ _ | .finishing pageId => some pageId
  | .idle | .checkpointBegun _ | .activeRead _ _ | .dirtyRead _ _ _ => none

def Task.evicts : Task → Option (Nat × Nat)
  | .victim _ frameId victimPageId | .examined _ frameId victimPageId => some (frameId, victimPageId)
  | .idle | .needFrame _ | .ownsFrame _ _ | .loaded _ _ _ | .finishing _ | .checkpointBegun _
  | .activeRead _ _ | .dirtyRead _ _ _ => none

def Task.fills : Task → Option Nat
  | .ownsFrame _ frameId | .loaded _ frameId _ => some frameId
  | .idle | .needFrame _ | .victim _ _ _ | .examined _ _ _ | .finishing _ | .checkpointBegun _
  | .activeRead _ _ | .dirtyRead _ _ _ => none

def Task.holds : Task → Option Nat
  | .victim _ frameId _ | .examined _ frameId _ | .ownsFrame _ frameId | .loaded _ frameId _ =>
    some frameId
  | .idle | .needFrame _ | .finishing _ | .checkpointBegun _ | .activeRead _ _ | .dirtyRead _ _ _ => none

def Task.roles (task : Task) : Option Nat × Option (Nat × Nat) × Option Nat × Option Nat × Option Nat :=
  (task.holds, task.evicts, task.fills, task.brings, task.loads)

attribute [grind] Task.holds Task.evicts Task.fills Task.brings Task.caller Task.loads Task.creates
  Caller.pageId Caller.fetched Caller.created

@[grind →] theorem Task.holds_of_evicts {task : Task} {frameId : Nat} {pageId : Nat}
    (evicts : task.evicts = some (frameId, pageId)) : task.holds = some frameId := by
  cases task <;> simp_all [Task.evicts, Task.holds]

@[grind →] theorem Task.holds_of_fills {task : Task} {frameId : Nat}
    (fills : task.fills = some frameId) : task.holds = some frameId := by
  cases task <;> simp_all [Task.fills, Task.holds]

theorem Task.brings_cases {task : Task} {pageId : Nat} (brings : task.brings = some pageId) :
    task.loads = some pageId ∨ ∃ lsn, task.creates = some (pageId, lsn) := by
  have split : ∀ caller : Caller, caller.pageId = pageId →
      caller.fetched = some pageId ∨ ∃ lsn, caller.created = some (pageId, lsn) := by
    rintro (_ | _) rfl <;> simp [Caller.fetched, Caller.created, Caller.pageId]
  cases task <;> simp_all [Task.brings, Task.caller, Task.loads, Task.creates, Caller.pageId]

theorem Task.creates_of_caller {old new : Task} (same : new.caller = old.caller) : new.creates = old.creates :=
  congrArg (Option.bind · Caller.created) same

theorem Task.brings_of_creates {task : Task} {pageId lsn : Nat} (created : task.creates = some (pageId, lsn)) :
    task.brings = some pageId := by
  obtain ⟨caller, isCaller, creates⟩ := Option.bind_eq_some_iff.mp created
  cases caller <;> simp_all [Task.brings, Caller.created, Caller.pageId]

structure Mapping (poolSize : Nat) (nextPageId : Nat) (index : PoolIndex)
    (guards : List (Nat × Nat)) : Prop where
  tableFrame : ∀ p f, index.pageTable p = some f → index.framePage f = some p
  frameTable : ∀ f p, index.framePage f = some p → index.pageTable p = some f
  allocated : ∀ f p, index.framePage f = some p → p < nextPageId
  mappedBound : ∀ f p, index.framePage f = some p → f < poolSize
  ownedBound : ∀ f, index.owned f = true → f < poolSize
  free : ∀ f ∈ index.freeList, f < poolSize ∧ index.framePage f = none ∧ index.owned f = false
  freeNodup : index.freeList.Nodup
  tracked : ∀ f, index.replacer f ≠ none → index.framePage f ≠ none ∧ index.owned f = false
  evictable : ∀ f p, index.replacer f = some true → (f, p) ∉ guards
  guarded : ∀ f p, (f, p) ∈ guards → index.framePage f = some p ∧ index.owned f = false
  ownedMapped : ∀ f p, index.framePage f = some p → index.owned f = true → index.evicting p = true

structure Duties (nextPageId : Nat) (index : PoolIndex) (tasks : Nat → Task) : Prop where
  holder : ∀ t f, (tasks t).holds = some f → index.owned f = true
  holderUnique : ∀ t t' f, (tasks t).holds = some f → (tasks t').holds = some f → t = t'
  evictor : ∀ t f p, (tasks t).evicts = some (f, p) → index.framePage f = some p
  filler : ∀ t f, (tasks t).fills = some f → index.framePage f = none
  bringer : ∀ t p, (tasks t).brings = some p → index.pageTable p = none ∧ p < nextPageId
  bringerUnique : ∀ t t' p, (tasks t).brings = some p → (tasks t').brings = some p → t = t'
  loader : ∀ t p, (tasks t).loads = some p → index.loading p = true
  loaderUnique : ∀ t t' p, (tasks t).loads = some p → (tasks t').loads = some p → t = t'

section
variable {poolSize : Nat} {nextPageId : Nat} {index : PoolIndex} {tasks : Nat → Task}
  {guards : List (Nat × Nat)} {t : Nat} {caller : Caller} {f : Nat} {p v : Nat}

section
variable (mapping : Mapping poolSize nextPageId index guards)
include mapping

theorem Mapping.completeEviction (mapped : index.framePage f = some v) (owned : index.owned f = true) :
    Mapping poolSize nextPageId
      { index with
        pageTable := update index.pageTable v none
        framePage := update index.framePage f none
        evicting := update index.evicting v false } guards := by
  cases mapping
  constructor <;> grind

theorem Mapping.abortEviction (mapped : index.framePage f = some v) (owned : index.owned f = true) :
    Mapping poolSize nextPageId
      { index with
        owned := update index.owned f false
        evicting := update index.evicting v false
        replacer := update index.replacer f (some true) } guards := by
  cases mapping
  constructor <;> grind

theorem Mapping.pinLocked (mapped : index.framePage f = some p) (unowned : index.owned f = false) :
    Mapping poolSize nextPageId
      { index with replacer := update index.replacer f (some false) } ((f, p) :: guards) := by
  cases mapping
  constructor <;> grind

theorem Mapping.announce (loading : Nat → Bool) : Mapping poolSize nextPageId { index with loading } guards :=
  { mapping with }

theorem Mapping.popFree {rest} (free : index.freeList = f :: rest) :
    Mapping poolSize nextPageId
      { index with freeList := rest, owned := update index.owned f true } guards := by
  have popped := mapping.free f (by simp [free])
  cases mapping
  constructor <;> grind

theorem Mapping.chooseVictim (mapped : index.framePage f = some v) (evictable : index.replacer f = some true) :
    Mapping poolSize nextPageId
      { index with
        replacer := update index.replacer f none
        owned := update index.owned f true
        evicting := update index.evicting v true } guards := by
  cases mapping
  constructor <;> grind

theorem Mapping.releaseOwnedFrame (unmapped : index.framePage f = none) (owned : index.owned f = true) :
    Mapping poolSize nextPageId
      { index with
        owned := update index.owned f false
        freeList := f :: index.freeList } guards := by
  cases mapping
  constructor <;> grind

theorem Mapping.install (unmapped : index.framePage f = none) (owned : index.owned f = true)
    (absent : index.pageTable p = none) (allocated : p < nextPageId) :
    Mapping poolSize nextPageId
      { index with
            pageTable := update index.pageTable p (some f)
            framePage := update index.framePage f (some p)
            owned := update index.owned f false
            replacer := update index.replacer f (some false) } ((f, p) :: guards) := by
  cases mapping
  constructor <;> grind

theorem Mapping.newPage : Mapping poolSize (nextPageId + 1) index guards := by
  cases mapping
  constructor <;> grind

theorem Mapping.unpin {entry} : Mapping poolSize nextPageId index (guards.erase entry) := by
  cases mapping
  constructor <;> grind

theorem Mapping.setEvictable (unpinned : ∀ p, (f, p) ∉ guards) (unowned : index.owned f = false) :
    Mapping poolSize nextPageId
      { index with
        replacer := update index.replacer f ((index.replacer f).map fun _ => true) } guards := by
  cases mapping
  constructor <;> grind

end

section
variable (duties : Duties nextPageId index tasks)
include duties

theorem Duties.track (replacer : Nat → Option Bool) : Duties nextPageId { index with replacer } tasks :=
  { duties with }

theorem Duties.startLoading (absent : index.pageTable p = none) (allocated : p < nextPageId)
    (installed : ∀ t lsn, (tasks t).creates ≠ some (p, lsn)) (unannounced : index.loading p = false) :
    Duties nextPageId { index with loading := update index.loading p true }
      (update tasks t (.needFrame (.fetchPage p))) := by
  have fresh : ∀ t, (tasks t).brings ≠ some p := by
    intro t' brings
    rcases Task.brings_cases brings with loads | ⟨lsn, creates⟩
    · simp [duties.loader t' p loads] at unannounced
    · exact installed t' lsn creates
  cases duties
  constructor <;> grind

theorem Duties.popFree {rest} (task : tasks t = .needFrame caller) (unmapped : index.framePage f = none)
    (unowned : index.owned f = false) :
    Duties nextPageId { index with freeList := rest, owned := update index.owned f true }
      (update tasks t (.ownsFrame caller f)) := by
  cases duties
  constructor <;> grind

theorem Duties.chooseVictim (task : tasks t = .needFrame caller) (mapped : index.framePage f = some v)
    (unowned : index.owned f = false) :
    Duties nextPageId
      { index with
        replacer := update index.replacer f none
        owned := update index.owned f true
        evicting := update index.evicting v true }
      (update tasks t (.victim caller f v)) := by
  cases duties
  constructor <;> grind

theorem Duties.failed (task : tasks t = .needFrame caller) :
    Duties nextPageId index (update tasks t (BufferPool.failed caller)) := by
  cases duties
  cases caller <;> constructor <;> grind [BufferPool.failed]

theorem Duties.abortEviction (task : tasks t = .examined caller f v) :
    Duties nextPageId
      { index with
        owned := update index.owned f false
        evicting := update index.evicting v false
        replacer := update index.replacer f (some true) }
      (update tasks t (BufferPool.failed caller)) := by
  cases duties
  cases caller <;> constructor <;> grind [BufferPool.failed]

theorem Duties.completeEviction (task : tasks t = .examined caller f v) :
    Duties nextPageId
      { index with
        pageTable := update index.pageTable v none
        framePage := update index.framePage f none
        evicting := update index.evicting v false }
      (update tasks t (.ownsFrame caller f)) := by
  cases duties
  constructor <;> grind

theorem Duties.releaseOwnedFrame (task : tasks t = .ownsFrame (.fetchPage p) f) :
    Duties nextPageId
      { index with
        owned := update index.owned f false
        freeList := f :: index.freeList }
      (update tasks t (.finishing p)) := by
  cases duties
  constructor <;> grind

theorem Duties.install {task : Task} (fills : (tasks t).fills = some f) (brings : (tasks t).brings = some p)
    (loads : task.loads = (tasks t).loads) (holds : task.holds = none) (brings' : task.brings = none) :
    Duties nextPageId
      { index with
        pageTable := update index.pageTable p (some f)
        framePage := update index.framePage f (some p)
        owned := update index.owned f false
        replacer := update index.replacer f (some false) }
      (update tasks t task) := by
  cases duties
  constructor <;> grind

theorem Duties.finishFetch (task : tasks t = .finishing p) :
    Duties nextPageId { index with loading := update index.loading p false } (update tasks t .idle) := by
  cases duties
  constructor <;> grind

theorem Duties.newPage {lsn : Nat} (absent : index.pageTable nextPageId = none) :
    Duties (nextPageId + 1) index (update tasks t (.needFrame (.newPage nextPageId lsn))) := by
  have fresh : ∀ t, (tasks t).brings ≠ some nextPageId := by
    intro t' brings
    exact Nat.lt_irrefl _ (duties.bringer t' _ brings).2
  cases duties
  constructor <;> grind

theorem Duties.of_roles {tasks' : Nat → Task} (same : ∀ t, (tasks' t).roles = (tasks t).roles) :
    Duties nextPageId index tasks' := by
  simp only [Task.roles, Prod.mk.injEq] at same
  cases duties
  constructor <;> grind

end

end

def PoolAction.staysApart : PoolAction → Bool
  | .fetchFrame _ _ | .popFreeFrame _ | .chooseVictim _ _ | .frameTimeout _ | .abortEviction _ | .completeEviction _
  | .readPage _ | .tryInstall _ | .finishFetch _ | .newPage _ _ | .unpinFrame _ _ | .setEvictable _ => false
  | _ => true

namespace BufferPool

structure Apart (s s' : BufferPool) : Prop where
  poolSize : s'.poolSize = s.poolSize
  nextPageId : s'.nextPageId = s.nextPageId
  index : s'.index = s.index
  guards : s'.guards = s.guards
  roles : ∀ t, (s'.tasks t).roles = (s.tasks t).roles

theorem update_same {α : Type} (part : Task → α) {tasks : Nat → Task} {old new : Task} {t : Nat} (task : tasks t = old)
    (same : part new = part old) (t' : Nat) : part (update tasks t new t') = part (tasks t') := by
  by_cases mine : t' = t
  · rw [mine, Function.update_self, task, same]
  · rw [Function.update_of_ne mine]

theorem step_apart {s s' : BufferPool} {a : PoolAction} (action : s.step a = some s') (apart : a.staysApart = true) :
    Apart s s' := by
  cases a with
  | examineVictim =>
    obtain ⟨caller, frameId, v, task, ⟨-, rfl⟩ | ⟨-, rfl⟩⟩ := examineVictim_cases action
    all_goals exact ⟨rfl, rfl, rfl, rfl, update_same Task.roles task rfl⟩
  | flushPage =>
    obtain ⟨-, -, batches, rfl⟩ := flushPage_cases action
    exact ⟨rfl, rfl, rfl, rfl, fun _ => rfl⟩
  | flushAll =>
    obtain ⟨-, -, batches, rfl⟩ := flushAll_cases action
    exact ⟨rfl, rfl, rfl, rfl, fun _ => rfl⟩
  | beginFlush =>
    obtain ⟨batch, rest, -, -, -, rfl⟩ := beginFlush_cases action
    exact ⟨rfl, rfl, rfl, rfl, fun _ => rfl⟩
  | writeSnapshot =>
    obtain ⟨lease, -, -, -, rfl⟩ := writeSnapshot_cases action
    exact ⟨rfl, rfl, rfl, rfl, fun _ => rfl⟩
  | clearDirty =>
    obtain ⟨lease, -, -, -, rfl⟩ := clearDirty_cases action
    exact ⟨rfl, rfl, rfl, rfl, fun _ => rfl⟩
  | appendUpdate | appendClr =>
    obtain ⟨txnId, kind, change, -, -, rfl⟩ := step_appends action rfl
    exact ⟨rfl, rfl, rfl, rfl, fun _ => rfl⟩
  | applyUpdate | stampWrite =>
    obtain ⟨change, -, frameId, rfl⟩ := step_applies action rfl
    exact ⟨rfl, rfl, rfl, rfl, fun _ => rfl⟩
  | beginTxn =>
    obtain ⟨active, rfl⟩ := beginTxn_cases action
    exact ⟨rfl, rfl, rfl, rfl, fun _ => rfl⟩
  | endTxn =>
    obtain ⟨active, rfl⟩ := endTxn_cases action
    exact ⟨rfl, rfl, rfl, rfl, fun _ => rfl⟩
  | checkpointBegin =>
    obtain ⟨task, -, rfl⟩ := checkpointBegin_cases action
    exact ⟨rfl, rfl, rfl, rfl, update_same Task.roles task rfl⟩
  | activeSnapshot =>
    obtain ⟨beginLsn, task, rfl⟩ := activeSnapshot_cases action
    exact ⟨rfl, rfl, rfl, rfl, update_same Task.roles task rfl⟩
  | dirtyPageTable =>
    obtain ⟨beginLsn, att, task, rfl⟩ := dirtyPageTable_cases action
    exact ⟨rfl, rfl, rfl, rfl, update_same Task.roles task rfl⟩
  | checkpointEnd =>
    obtain ⟨beginLsn, att, dpt, task, rfl⟩ := checkpointEnd_cases action
    exact ⟨rfl, rfl, rfl, rfl, update_same Task.roles task rfl⟩
  | _ => cases apart

end BufferPool

structure Residency (s : BufferPool) : Prop where
  mapping : Mapping s.poolSize s.nextPageId s.index s.guards
  duties : Duties s.nextPageId s.index s.tasks

def FetchInstalled (s : BufferPool) : PoolAction → Prop
  | .fetchFrame _ pageId =>
    pageId < s.nextPageId ∧ ∀ t lsn, (s.tasks t).creates ≠ some (pageId, lsn)
  | _ => True

/-- A page is fetched only once it is installed, every frame a flush copies holds a page, and an undo step is applied
before any later change of its page. -/
def Disciplined (s : BufferPool) : PoolAction → Prop
  | .fetchFrame _ pageId =>
    pageId < s.nextPageId ∧ ∀ t lsn, (s.tasks t).creates ≠ some (pageId, lsn)
  | .beginFlush thread =>
    ∀ batch ∈ (s.flushList thread).head?, ∀ entry ∈ batch, s.index.framePage entry.1 ≠ none
  | .stampWrite lsn frameId => (s.frames frameId).image.page.lsn < lsn
  | _ => True

theorem Disciplined.fetchInstalled {s : BufferPool} {a : PoolAction} (disciplined : Disciplined s a) :
    FetchInstalled s a := by
  cases a with
  | fetchFrame => exact disciplined
  | _ => trivial

namespace Residency
open BufferPool
variable {s s' : BufferPool} {t : Nat} {f : Nat} {p : Nat}

section
variable (residency : Residency s)
include residency

theorem of_apart (apart : Apart s s') : Residency s' := by
  refine ⟨?_, ?_⟩
  · rw [apart.poolSize, apart.nextPageId, apart.index, apart.guards]
    exact residency.mapping
  · rw [apart.nextPageId, apart.index]
    exact residency.duties.of_roles apart.roles

theorem fetchFrame (allowed : FetchInstalled s (.fetchFrame t p))
    (action : s.fetchFrame t p = some s') : Residency s' := by
  obtain ⟨-, -, staying, ⟨frameId, mapped, rfl⟩ | ⟨absent, unannounced, rfl⟩⟩ :=
    fetchFrame_cases action
  · have mapped := residency.mapping.tableFrame p frameId mapped
    have unowned : s.index.owned frameId = false := by
      have := residency.mapping.ownedMapped frameId p mapped
      grind
    exact ⟨residency.mapping.pinLocked mapped unowned, residency.duties.track _⟩
  · exact ⟨residency.mapping.announce _,
      residency.duties.startLoading absent allowed.1 allowed.2 unannounced⟩

theorem popFreeFrame (action : s.popFreeFrame t = some s') : Residency s' := by
  obtain ⟨caller, frameId, rest, task, free, rfl⟩ := popFreeFrame_cases action
  have popped := residency.mapping.free frameId (by simp [free])
  exact ⟨residency.mapping.popFree free, residency.duties.popFree task popped.2.1 popped.2.2⟩

theorem chooseVictim (action : s.chooseVictim t f = some s') : Residency s' := by
  obtain ⟨caller, task, evictable, ⟨v, mapped, rfl⟩ | ⟨unmapped, -⟩⟩ := chooseVictim_cases action
  all_goals have tracked := residency.mapping.tracked f (by simp [evictable])
  · exact ⟨residency.mapping.chooseVictim mapped evictable,
      residency.duties.chooseVictim task mapped tracked.2⟩
  · exact absurd unmapped tracked.1

theorem abortEviction (action : s.abortEviction t = some s') : Residency s' := by
  obtain ⟨caller, frameId, v, task, -, rfl⟩ := abortEviction_cases action
  have mapped := residency.duties.evictor t frameId v (by rw [task]; rfl)
  have owned := residency.duties.holder t frameId (by rw [task]; rfl)
  exact ⟨residency.mapping.abortEviction mapped owned, residency.duties.abortEviction task⟩

theorem completeEviction (action : s.completeEviction t = some s') : Residency s' := by
  obtain ⟨caller, frameId, v, task, -, rfl⟩ := completeEviction_cases action
  have mapped := residency.duties.evictor t frameId v (by rw [task]; rfl)
  have owned := residency.duties.holder t frameId (by rw [task]; rfl)
  exact ⟨residency.mapping.completeEviction mapped owned, residency.duties.completeEviction task⟩

theorem releaseOwnedFrame (task : s.tasks t = .ownsFrame (.fetchPage p) f) :
    Residency ((s.releaseOwnedFrame f).setTask t (.finishing p)) := by
  have unmapped := residency.duties.filler t f (by rw [task]; rfl)
  have owned := residency.duties.holder t f (by rw [task]; rfl)
  exact ⟨residency.mapping.releaseOwnedFrame unmapped owned, residency.duties.releaseOwnedFrame task⟩

theorem readPage (action : s.readPage t = some s') : Residency s' := by
  obtain ⟨pageId, frameId, task, ⟨-, rfl⟩ | ⟨-, rfl⟩⟩ := readPage_cases action
  · exact residency.of_apart ⟨rfl, rfl, rfl, rfl, update_same Task.roles task rfl⟩
  · exact residency.releaseOwnedFrame task

theorem install_eq {image : Image} {dirtySinceLsn : Nat} (brings : (s.tasks t).brings = some p) :
    s.install f p image dirtySinceLsn =
      { s with
        frames := update s.frames f { image, dirtySinceLsn }
        index := { s.index with
          pageTable := update s.index.pageTable p (some f)
          framePage := update s.index.framePage f (some p)
          owned := update s.index.owned f false
          replacer := update s.index.replacer f (some false) }
        guards := (f, p) :: s.guards } := by
  simp [BufferPool.install, (residency.duties.bringer t p brings).1, BufferPool.pinLocked]

theorem install {image : Image} {dirtySinceLsn : Nat} {task : Task}
    (fills : (s.tasks t).fills = some f) (brings : (s.tasks t).brings = some p)
    (loads : task.loads = (s.tasks t).loads) (holds : task.holds = none) (brings' : task.brings = none) :
    Residency ((s.install f p image dirtySinceLsn).setTask t task) := by
  rw [residency.install_eq brings]
  have absent := residency.duties.bringer t p brings
  have owned := residency.duties.holder t f (Task.holds_of_fills fills)
  exact ⟨residency.mapping.install (residency.duties.filler t f fills) owned absent.1 absent.2,
    residency.duties.install fills brings loads holds brings'⟩

theorem tryInstall (action : s.tryInstall t = some s') : Residency s' := by
  obtain ⟨pageId, frameId, image, task, rfl⟩ | ⟨pageId, lsn, frameId, task, rfl⟩ :=
    tryInstall_cases action
  all_goals
    apply residency.install <;> first | rw [task] | skip
    all_goals rfl

theorem finishFetch (action : s.finishFetch t = some s') : Residency s' := by
  obtain ⟨pageId, task, rfl⟩ := finishFetch_cases action
  exact ⟨residency.mapping.announce _, residency.duties.finishFetch task⟩

theorem newPage {txnId : Nat} (action : s.newPage t txnId = some s') : Residency s' := by
  obtain ⟨-, -, rfl⟩ := newPage_cases action
  have absent : s.index.pageTable s.nextPageId = none := by
    by_contra present
    obtain ⟨frameId, mapped⟩ := Option.ne_none_iff_exists'.mp present
    exact Nat.lt_irrefl _ (residency.mapping.allocated frameId _ (residency.mapping.tableFrame _ _ mapped))
  exact ⟨residency.mapping.newPage, residency.duties.newPage absent⟩

theorem unpinFrame (action : s.unpinFrame f p = some s') : Residency s' := by
  obtain ⟨-, -, unpinning, rfl⟩ := unpinFrame_cases action
  exact ⟨residency.mapping.unpin, residency.duties⟩

theorem setEvictable (action : s.setEvictable f = some s') : Residency s' := by
  obtain ⟨unpinning, replacer, rfl, rfl | ⟨unpinned, unowned, rfl⟩⟩ := setEvictable_cases action
  · exact ⟨residency.mapping, residency.duties⟩
  · exact ⟨residency.mapping.setEvictable unpinned unowned, residency.duties.track _⟩

theorem step {a : PoolAction} (allowed : FetchInstalled s a) (action : s.step a = some s') : Residency s' := by
  cases a with
  | fetchFrame => exact residency.fetchFrame allowed action
  | popFreeFrame => exact residency.popFreeFrame action
  | chooseVictim => exact residency.chooseVictim action
  | frameTimeout =>
    obtain ⟨caller, task, rfl⟩ := frameTimeout_cases action
    exact ⟨residency.mapping, residency.duties.failed task⟩
  | abortEviction => exact residency.abortEviction action
  | completeEviction => exact residency.completeEviction action
  | readPage => exact residency.readPage action
  | tryInstall => exact residency.tryInstall action
  | finishFetch => exact residency.finishFetch action
  | newPage => exact residency.newPage action
  | unpinFrame => exact residency.unpinFrame action
  | setEvictable => exact residency.setEvictable action
  | _ => exact residency.of_apart (step_apart action rfl)

end

end Residency

end SimpleRdbms.Storage
