import SimpleRdbms.Proof.FuzzyCheckpoint
import SimpleRdbms.Storage.PoolFaults

namespace SimpleRdbms.Storage
open Function (update)

def Task.works (task : Task) : Option Nat × Option (Nat × Nat) := (task.holds, task.evicts)

namespace BufferPool

variable {s s' : BufferPool} {t f p lsn : Nat} {a : PoolAction} {caller : Caller}

structure Coverage (s : BufferPool) : Prop where
  placed : ∀ f < s.poolSize, f ∈ s.index.freeList ∨ s.index.owned f = true ∨ s.index.framePage f ≠ none
  owner : ∀ f, s.index.owned f = true → ∃ t, (s.tasks t).holds = some f
  evictor : ∀ p, s.index.evicting p = true → ∃ t f, (s.tasks t).evicts = some (f, p)

namespace Coverage

theorem of_eq (coverage : Coverage s) (poolSize : s'.poolSize = s.poolSize)
    (freeList : s'.index.freeList = s.index.freeList)
    (owned : s'.index.owned = s.index.owned) (framePage : s'.index.framePage = s.index.framePage)
    (evicting : s'.index.evicting = s.index.evicting) (works : ∀ t, (s'.tasks t).works = (s.tasks t).works) :
    Coverage s' := by
  simp only [Task.works, Prod.mk.injEq] at works
  refine ⟨?_, ?_, ?_⟩
  · rw [poolSize, freeList, owned, framePage]
    exact coverage.placed
  · simp only [owned, works]
    exact coverage.owner
  · simp only [evicting, works]
    exact coverage.evictor

theorem of_apart (coverage : Coverage s) (apart : Apart s s') : Coverage s' := by
  have index := apart.index
  refine coverage.of_eq apart.poolSize (by rw [index]) (by rw [index]) (by rw [index]) (by rw [index]) fun t => ?_
  have roles := apart.roles t
  simp only [Task.roles, Prod.mk.injEq] at roles
  rw [Task.works, roles.1, roles.2.1, Task.works]

theorem holds_update {tasks : Nat → Task} {task : Task} (keeps : ∀ f, (tasks t).holds = some f → task.holds = some f)
    (owner : ∃ t', (tasks t').holds = some f) : ∃ t', (update tasks t task t').holds = some f := by
  obtain ⟨t', holds⟩ := owner
  by_cases mine : t' = t
  · subst mine
    exact ⟨t', by simpa using keeps f holds⟩
  · exact ⟨t', by simpa [mine] using holds⟩

theorem evicts_update {tasks : Nat → Task} {task : Task}
    (keeps : ∀ f p, (tasks t).evicts = some (f, p) → task.evicts = some (f, p))
    (evictor : ∃ t' f, (tasks t').evicts = some (f, p)) : ∃ t' f, (update tasks t task t').evicts = some (f, p) := by
  obtain ⟨t', f, evicts⟩ := evictor
  by_cases mine : t' = t
  · subst mine
    exact ⟨t', f, by simpa using keeps f p evicts⟩
  · exact ⟨t', f, by simpa [mine] using evicts⟩

theorem take {index : PoolIndex} {task : Task} (coverage : Coverage s) (idle : (s.tasks t).holds = none)
    (unevicting : (s.tasks t).evicts = none) (holds : task.holds = some f)
    (owned : index.owned = update s.index.owned f true) (framePage : index.framePage = s.index.framePage)
    (freeList : ∀ f' ∈ s.index.freeList, f' = f ∨ f' ∈ index.freeList)
    (evicting : ∀ p, index.evicting p = true → s.index.evicting p = true ∨ task.evicts = some (f, p)) :
    Coverage ({ s with index }.setTask t task) where
  placed := by
    intro f' bound
    simp only [setTask, owned, framePage]
    by_cases mine : f' = f
    · simp [mine]
    · rcases coverage.placed f' bound with free | others
      · exact .inl ((freeList f' free).resolve_left mine)
      · simpa [mine] using .inr others
  owner := by
    intro f' isOwned
    simp only [setTask, owned] at isOwned ⊢
    by_cases mine : f' = f
    · exact ⟨t, by simpa [mine] using holds⟩
    · exact holds_update (by simp [idle]) (coverage.owner f' (by simpa [mine] using isOwned))
  evictor := by
    intro p isEvicting
    simp only [setTask] at isEvicting ⊢
    rcases evicting p isEvicting with old | new
    · exact evicts_update (by simp [unevicting]) (coverage.evictor p old)
    · exact ⟨t, f, by simpa using new⟩

theorem give {index : PoolIndex} {frames : Nat → Frame} {guards : List (Nat × Nat)}
    {flushList : Nat → List (List (Nat × Nat))} {task : Task} (coverage : Coverage s)
    (held : (s.tasks t).holds = some f) (owned : index.owned = update s.index.owned f false)
    (freeList : ∀ f' ∈ s.index.freeList, f' ∈ index.freeList)
    (framePage : ∀ f', f' ≠ f → index.framePage f' = s.index.framePage f')
    (given : f ∈ index.freeList ∨ index.framePage f ≠ none)
    (evicting : ∀ p, index.evicting p = true → s.index.evicting p = true ∧ (s.tasks t).evicts ≠ some (f, p)) :
    Coverage ({ s with index, frames, guards, flushList }.setTask t task) where
  placed := by
    intro f' bound
    simp only [setTask, owned]
    by_cases mine : f' = f
    · subst mine
      exact given.imp_right .inr
    · rw [framePage f' mine]
      rcases coverage.placed f' bound with free | others
      · exact .inl (freeList f' free)
      · simpa [mine] using .inr others
  owner := by
    intro f' isOwned
    simp only [setTask, owned] at isOwned ⊢
    have other : f' ≠ f := by
      rintro rfl
      simp at isOwned
    obtain ⟨t', holds⟩ := coverage.owner f' (by simpa [other] using isOwned)
    have notMine : t' ≠ t := by
      rintro rfl
      rw [held] at holds
      exact other (Option.some.inj holds).symm
    exact ⟨t', by simpa [notMine] using holds⟩
  evictor := by
    intro p isEvicting
    simp only [setTask] at isEvicting ⊢
    obtain ⟨before, notMine⟩ := evicting p isEvicting
    obtain ⟨t', f', evicts⟩ := coverage.evictor p before
    have differs : t' ≠ t := by
      rintro rfl
      have := Task.holds_of_evicts evicts
      rw [held] at this
      obtain rfl := Option.some.inj this
      exact notMine evicts
    exact ⟨t', f', by simpa [differs] using evicts⟩

theorem completeEviction {v : Nat} (coverage : Coverage s) (residency : Residency s)
    (task : s.tasks t = .examined caller f v) :
    Coverage ({ s with
      index := { s.index with
        pageTable := update s.index.pageTable v none
        framePage := update s.index.framePage f none
        evicting := update s.index.evicting v false } }.setTask t (.ownsFrame caller f)) where
  placed := by
    intro f' bound
    by_cases mine : f' = f
    · subst mine
      exact .inr (.inl (residency.duties.holder t f' (by rw [task]; rfl)))
    · simpa [setTask, mine] using coverage.placed f' bound
  owner := by
    intro f' owned
    refine holds_update (fun f'' held => ?_) (coverage.owner f' owned)
    rw [task] at held
    exact held
  evictor := by
    intro p evicting
    have other : p ≠ v := by
      rintro rfl
      simp [setTask] at evicting
    have before : s.index.evicting p = true := by simpa [setTask, other] using evicting
    obtain ⟨t', f', evicts⟩ := coverage.evictor p before
    have differs : t' ≠ t := by
      rintro rfl
      simp only [task, Task.evicts, Option.some.injEq, Prod.mk.injEq] at evicts
      exact other evicts.2.symm
    exact ⟨t', f', by simpa [setTask, differs] using evicts⟩

theorem releaseOwnedFrame (coverage : Coverage s) (task : s.tasks t = .ownsFrame (.fetchPage p) f) :
    Coverage ((s.releaseOwnedFrame f).setTask t (.finishing p)) :=
  coverage.give (by rw [task]; rfl) rfl (fun _ => List.mem_cons_of_mem f) (fun _ _ => rfl)
    (.inl List.mem_cons_self) fun p evicting => ⟨evicting, by simp [task, Task.evicts]⟩

theorem install {image : Image} {dirtySinceLsn : Nat} {task : Task} (coverage : Coverage s)
    (residency : Residency s) (fills : (s.tasks t).fills = some f) (brings : (s.tasks t).brings = some p)
    (quiet : (s.tasks t).evicts = none) : Coverage ((s.install f p image dirtySinceLsn).setTask t task) := by
  rw [residency.install_eq brings]
  exact coverage.give (Task.holds_of_fills fills) rfl (fun _ => id) (fun _ other => Function.update_of_ne other _ _)
    (.inr (by simp)) fun p evicting => ⟨evicting, by simp [quiet]⟩

theorem step (coverage : Coverage s) (residency : Residency s) (action : s.step a = some s') : Coverage s' := by
  cases a with
  | fetchFrame t p =>
    obtain ⟨task, -, -, ⟨frameId, -, rfl⟩ | ⟨-, -, rfl⟩⟩ := fetchFrame_cases action
    · exact coverage.of_eq rfl rfl rfl rfl rfl fun _ => rfl
    · exact coverage.of_eq rfl rfl rfl rfl rfl (update_same Task.works task rfl)
  | popFreeFrame t =>
    obtain ⟨caller, frameId, rest, task, free, rfl⟩ := popFreeFrame_cases action
    refine coverage.take (f := frameId) (by rw [task]; rfl) (by rw [task]; rfl) rfl rfl rfl ?_ (fun p => .inl)
    simp [free]
  | chooseVictim t f =>
    obtain ⟨caller, task, evictable, ⟨v, mapped, rfl⟩ | ⟨unmapped, -⟩⟩ := chooseVictim_cases action
    · refine coverage.take (f := f) (by rw [task]; rfl) (by rw [task]; rfl) rfl rfl rfl (fun _ => .inr) ?_
      intro p evicting
      by_cases same : p = v
      · exact .inr (by simp [same, Task.evicts])
      · exact .inl (by simpa [same] using evicting)
    · exact absurd unmapped (residency.mapping.tracked f (by simp [evictable])).1
  | frameTimeout t =>
    obtain ⟨caller, task, rfl⟩ := frameTimeout_cases action
    exact coverage.of_eq rfl rfl rfl rfl rfl (update_same Task.works task (by cases caller <;> rfl))
  | abortEviction t =>
    obtain ⟨caller, frameId, v, task, -, rfl⟩ := abortEviction_cases action
    have mapped := residency.duties.evictor t frameId v (by rw [task]; rfl)
    refine coverage.give (f := frameId) (by rw [task]; rfl) rfl (fun _ => id) (fun _ _ => rfl)
      (.inr (by simp [mapped])) fun p evicting => ?_
    by_cases same : p = v
    · simp [same] at evicting
    · exact ⟨by simpa [same] using evicting, by simp [task, Task.evicts, Ne.symm same]⟩
  | completeEviction t =>
    obtain ⟨caller, frameId, v, task, -, rfl⟩ := completeEviction_cases action
    exact coverage.completeEviction residency task
  | readPage t =>
    obtain ⟨pageId, frameId, task, ⟨-, rfl⟩ | ⟨-, rfl⟩⟩ := readPage_cases action
    · exact coverage.of_eq rfl rfl rfl rfl rfl (update_same Task.works task rfl)
    · exact coverage.releaseOwnedFrame task
  | tryInstall t =>
    obtain ⟨pageId, frameId, image, task, rfl⟩ | ⟨pageId, lsn, frameId, task, rfl⟩ := tryInstall_cases action
    all_goals
      apply coverage.install residency
      all_goals
        rw [task]
        rfl
  | finishFetch t =>
    obtain ⟨pageId, task, rfl⟩ := finishFetch_cases action
    exact coverage.of_eq rfl rfl rfl rfl rfl (update_same Task.works task rfl)
  | newPage t =>
    obtain ⟨task, -, rfl⟩ := newPage_cases action
    exact coverage.of_eq rfl rfl rfl rfl rfl (update_same Task.works task rfl)
  | unpinFrame =>
    obtain ⟨-, -, unpinning, rfl⟩ := unpinFrame_cases action
    exact coverage.of_eq rfl rfl rfl rfl rfl fun _ => rfl
  | setEvictable =>
    obtain ⟨unpinning, replacer, rfl, -⟩ := setEvictable_cases action
    exact coverage.of_eq rfl rfl rfl rfl rfl fun _ => rfl
  | _ => exact coverage.of_apart (step_apart action rfl)

theorem init (initial : system.init s) : Coverage s := by
  obtain ⟨poolSize, dwbCapacity, pages, lsns, log, rfl, -, -⟩ := initial
  exact ⟨fun f bound => .inl (by simpa [start] using bound), by simp [start], by simp [start]⟩

end Coverage

theorem Evictions.giveUp {batches : List (List (Nat × Nat))} (evictions : Evictions s)
    (frames : s'.frames = s.frames) (tasks : s'.tasks = s.tasks)
    (flushList : s'.flushList = update s.flushList t batches)
    (lease : ∀ lease, s'.lease = some lease ↔ s.lease = some lease ∧ lease.thread ≠ t)
    (fits : s.tasks t = .idle ∨ ∃ c f v, s.tasks t = .examined c f v ∧ batches = [[(f, v)]]) : Evictions s' := by
  have released : ∀ held, s'.lease = some held → held.thread ≠ t := fun held isHeld => ((lease held).mp isHeld).2
  have mine : s'.flushList t = batches := by simp [flushList]
  have others : ∀ t', t' ≠ t → s'.flushList t' = s.flushList t' ∧ s'.inFlush t' = s.inFlush t' := by
    intro t' other
    have list : s'.flushList t' = s.flushList t' := by simp [flushList, other]
    refine ⟨list, Bool.eq_iff_iff.mpr (not_iff_not.mp ?_)⟩
    simp only [Bool.not_eq_true, inFlush_eq_false, list, lease]
    refine and_congr_right fun _ => ⟨fun free held isHeld mine => ?_, fun free held isHeld => free held isHeld.1⟩
    exact free held ⟨isHeld, mine ▸ other⟩ mine
  refine ⟨?_, ?_, ?_, ?_⟩
  · intro t' busy
    rw [tasks]
    by_cases isMine : t' = t
    · subst isMine
      exact fits.imp_right fun ⟨c, f, v, examined, _⟩ => ⟨c, f, v, examined⟩
    · exact evictions.flushing t' ((others t' isMine).2 ▸ busy)
  · intro t' c f v examined
    rw [tasks] at examined
    by_cases isMine : t' = t
    · subst isMine
      rcases fits with idle | ⟨c', f', v', examined', isBatch⟩
      · simp [idle] at examined
      · rw [examined'] at examined
        cases examined
        exact .inr ⟨mine.trans isBatch, released⟩
    · rw [(others t' isMine).1]
      refine (evictions.waiting t' c f v examined).imp_right fun ⟨isBatch, free⟩ => ⟨isBatch, ?_⟩
      exact fun held isHeld => free held ((lease held).mp isHeld).1
  · intro t' c f v held examined isHeld isThread
    rw [tasks] at examined
    rw [pageLsn, frames]
    exact evictions.leasing t' c f v held examined ((lease held).mp isHeld).1 isThread
  · intro t' c f v examined finished
    rw [tasks] at examined
    rw [frames]
    by_cases isMine : t' = t
    · subst isMine
      rcases fits with idle | ⟨c', f', v', _, isBatch⟩
      · simp [idle] at examined
      · have nothing := (inFlush_eq_false.mp finished).1
        simp [mine, isBatch] at nothing
    · exact evictions.flushed t' c f v examined ((others t' isMine).2 ▸ finished)

theorem Leased.take {lease : Lease} (leased : Leased s lease) (n : Nat) :
    Leased s { lease with batch := lease.batch.take n, snapshot := lease.snapshot.take n, written := false } where
  settled := fun image member => leased.settled image (List.mem_of_mem_take member)
  distinct := fun a memberA b memberB =>
    leased.distinct a (List.mem_of_mem_take memberA) b (List.mem_of_mem_take memberB)
  ahead := fun image member => leased.ahead image (List.mem_of_mem_take member)
  mapped := fun image member => leased.mapped image (List.mem_of_mem_take member)
  unmapped := fun image member => leased.unmapped image (List.mem_of_mem_take member)
  written := by simp
  pairs := by
    intro f image member
    rw [Lease.pairs, List.map_take, List.zip_eq_zipWith, ← List.take_zipWith] at member
    exact leased.pairs f image (List.mem_of_mem_take member)

theorem PoolInvariant.releaseOwnedFrame (inv : PoolInvariant s) (task : s.tasks t = .ownsFrame (.fetchPage p) f) :
    PoolInvariant ((s.releaseOwnedFrame f).setTask t (.finishing p)) where
  residency := inv.residency.releaseOwnedFrame task
  logged := inv.logged.of_eq rfl rfl rfl rfl (List.Subset.refl _) fun _ => rfl
  images := by
    have retasked : Images (s.setTask t (.finishing p)) := inv.images.retask (.inl rfl) (by simp)
    exact retasked.of_eq rfl rfl rfl rfl rfl rfl fun _ _ => id
  leased := fun lease held => (inv.leased lease held).of_eq rfl rfl rfl rfl rfl rfl
  evictions := inv.evictions.retask (inv.evictions.quiet (by simp [task]) (by simp [task])) (by simp) rfl rfl rfl rfl

theorem Residency.allocate (residency : Residency s) : Residency { s with nextPageId := s.nextPageId + 1 } where
  mapping := residency.mapping.newPage
  duties :=
    { residency.duties with
      bringer := fun t p brings =>
        (residency.duties.bringer t p brings).imp_right fun bound => Nat.lt_succ_of_lt bound }

theorem PoolInvariant.allocate (inv : PoolInvariant s) : PoolInvariant { s with nextPageId := s.nextPageId + 1 } where
  residency := Residency.allocate inv.residency
  logged :=
    { inv.logged with
      recordPage := fun r member change changes => Nat.lt_succ_of_lt (inv.logged.recordPage r member change changes)
      pendingBound := fun u member =>
        (inv.logged.pendingBound u member).imp_right fun bound => ⟨bound.1, Nat.lt_succ_of_lt bound.2⟩ }
  images :=
    { inv.images with
      unallocated := fun p beyond => inv.images.unallocated p (Nat.le_of_succ_le beyond) }
  leased := fun lease held => (inv.leased lease held).of_eq rfl rfl rfl rfl rfl rfl
  evictions := inv.evictions.of_eq rfl rfl rfl fun _ _ _ _ _ => rfl

end BufferPool

namespace FaultyPool
open BufferPool
variable {s s' : FaultyPool} {t : Nat} {a : Action} {lease : Lease} {failure : FlushFailure}

structure Untouched (before after : BufferPool) : Prop where
  poolSize : after.poolSize = before.poolSize
  frames : after.frames = before.frames
  index : after.index = before.index
  nextPageId : after.nextPageId = before.nextPageId
  nextLsn : after.log.nextLsn = before.log.nextLsn
  tasks : after.tasks = before.tasks
  guards : after.guards = before.guards
  pending : after.pending = before.pending
  history : after.history = before.history

theorem dropped_untouched (pool : BufferPool) (lease : Lease) (failure : FlushFailure) :
    Untouched pool { interrupted pool lease failure with lease := none } := by
  cases failure with
  | log => exact ⟨rfl, rfl, rfl, rfl, rfl, rfl, rfl, rfl, rfl⟩
  | doubleWrite | pages => exact ⟨rfl, rfl, rfl, rfl, LogManager.flush_nextLsn _ _, rfl, rfl, rfl, rfl⟩

theorem interrupted_images (inv : PoolInvariant s.pool) (held : s.pool.lease = some lease) (failure : FlushFailure) :
    Images { interrupted s.pool lease failure with lease := none } ∧
      ∀ p, Image.Behind (s.pool.disk p) ((interrupted s.pool lease failure).disk p) := by
  cases failure with
  | log => exact ⟨inv.images.of_eq rfl rfl rfl rfl rfl rfl fun _ _ => id, fun p => Image.Behind.refl _⟩
  | doubleWrite =>
    exact ⟨inv.images.of_eq rfl rfl rfl (LogManager.flush_nextLsn _ _) rfl rfl fun _ _ => id,
      fun p => Image.Behind.refl _⟩
  | pages written =>
    have leased := (inv.leased lease held).take written
    refine ⟨inv.images.writeSnapshot inv.residency leased _ (LogManager.flush_nextLsn _ _) none, fun p => ?_⟩
    rcases Images.written_cases leased p with untouched | ⟨image, -, rfl, same, older⟩
    · exact untouched ▸ Image.Behind.refl _
    · exact older.trans same.behind

theorem flushError_pool (s : FaultyPool) (t : Nat) (busy : s.pool.tasks t = .idle ∨
      ∃ c f v, s.pool.tasks t = .examined c f v) :
    ∃ batches, (s.flushError t).pool = { s.pool with flushList := update s.pool.flushList t batches } ∧
      (s.pool.tasks t = .idle ∨ ∃ c f v, s.pool.tasks t = .examined c f v ∧ batches = [[(f, v)]]) := by
  rcases busy with idle | ⟨c, f, v, examined⟩
  · exact ⟨[], by simp [flushError, idle], .inl idle⟩
  · exact ⟨[[(f, v)]], by simp [flushError, examined], .inr ⟨c, f, v, examined, rfl⟩⟩

inductive Steps (s : FaultyPool) : Action → BufferPool → Prop
  | proceed {action : PoolAction} {pool : BufferPool} : s.pool.step action = some pool → Steps s (.proceed action) pool
  | readFails {t p f : Nat} : s.pool.tasks t = .ownsFrame (.fetchPage p) f →
      Steps s (.readFails t) ((s.pool.releaseOwnedFrame f).setTask t (.finishing p))
  | appendFails {t : Nat} : Steps s (.appendFails t) { s.pool with nextPageId := s.pool.nextPageId + 1 }
  | flushRefused {t : Nat} : s.pool.inFlush t = true → (∀ lease, s.pool.lease = some lease → lease.thread ≠ t) →
      Steps s (.flushRefused t) (s.flushError t).pool
  | flushFails {t : Nat} {lease : Lease} {failure : FlushFailure} {poisoned : Bool} :
      s.pool.lease = some lease → lease.thread = t →
      Steps s (.flushFails t failure)
        (flushError { s with
          pool := { interrupted s.pool lease failure with lease := none }
          flushPoisoned := poisoned } t).pool

theorem step_steps (stepped : s.step a = some s') : Steps s a s'.pool := by
  cases a with
  | proceed action =>
    refine .proceed ?_
    simp only [step, FaultyPool.proceed] at stepped
    split at stepped
    · split at stepped
      · simp at stepped
      · obtain ⟨pool, ran, rfl⟩ := Option.map_eq_some_iff.mp stepped
        exact ran
    · obtain ⟨pool, ran, rfl⟩ := Option.map_eq_some_iff.mp stepped
      exact ran
    · obtain ⟨pool, ran, rfl⟩ := Option.map_eq_some_iff.mp stepped
      exact ran
  | readFails t =>
    simp only [step, FaultyPool.readFails] at stepped
    split at stepped
    · rename_i p f task
      obtain rfl := Option.some.inj stepped
      exact .readFails task
    · simp at stepped
  | appendFails t =>
    simp only [step, FaultyPool.appendFails] at stepped
    split at stepped
    · split at stepped
      · simp at stepped
      · obtain rfl := Option.some.inj stepped
        exact .appendFails
    · simp at stepped
  | flushRefused t =>
    simp only [step, FaultyPool.flushRefused] at stepped
    split at stepped
    · simp at stepped
    · rename_i waiting
      have refused : s' = s.flushError t := by
        split at stepped
        · split at stepped
          · exact (Option.some.inj stepped).symm
          · simp at stepped
        · exact (Option.some.inj stepped).symm
        · simp at stepped
      have batches : s.pool.flushList t ≠ [] := fun nothing => waiting (by simp [nothing])
      subst refused
      refine .flushRefused (by simp [inFlush, batches]) fun lease held mine => waiting ?_
      simp [held, mine]
  | flushFails t failure =>
    simp only [step, FaultyPool.flushFails] at stepped
    split at stepped
    · rename_i lease held
      split at stepped
      · rename_i mine
        obtain rfl := Option.some.inj stepped
        exact .flushFails held mine.1
      · simp at stepped
    · simp at stepped

def FetchInstalled (s : FaultyPool) : Action → Prop
  | .proceed action => Storage.FetchInstalled s.pool action
  | .readFails _ | .appendFails _ | .flushRefused _ | .flushFails _ _ => True

def Disciplined (s : FaultyPool) : Action → Prop
  | .proceed action => Storage.Disciplined s.pool action
  | .readFails _ | .appendFails _ | .flushRefused _ | .flushFails _ _ => True

theorem Disciplined.fetchInstalled {s : FaultyPool} {a : Action} (disciplined : Disciplined s a) :
    FetchInstalled s a := by
  cases a with
  | proceed => exact Storage.Disciplined.fetchInstalled disciplined
  | _ => trivial

theorem flushError_untouched (s : FaultyPool) (t : Nat) : Untouched s.pool (s.flushError t).pool := by
  unfold flushError
  split
  · exact ⟨rfl, rfl, rfl, rfl, rfl, rfl, rfl, rfl, rfl⟩
  · exact ⟨rfl, rfl, rfl, rfl, rfl, rfl, rfl, rfl, rfl⟩

theorem Untouched.trans {first second third : BufferPool} (before : Untouched first second)
    (after : Untouched second third) : Untouched first third where
  poolSize := after.poolSize.trans before.poolSize
  frames := after.frames.trans before.frames
  index := after.index.trans before.index
  nextPageId := after.nextPageId.trans before.nextPageId
  nextLsn := after.nextLsn.trans before.nextLsn
  tasks := after.tasks.trans before.tasks
  guards := after.guards.trans before.guards
  pending := after.pending.trans before.pending
  history := after.history.trans before.history

theorem Untouched.apart {before after : BufferPool} (untouched : Untouched before after) : Apart before after :=
  ⟨untouched.poolSize, untouched.nextPageId, untouched.index, untouched.guards, fun t => by rw [untouched.tasks]⟩

variable {pool : BufferPool}

theorem Steps.placed (steps : Steps s a pool) (allowed : FetchInstalled s a) (residency : Residency s.pool)
    (coverage : Coverage s.pool) : Residency pool ∧ Coverage pool := by
  cases steps with
  | proceed ran => exact ⟨residency.step allowed ran, coverage.step residency ran⟩
  | readFails task => exact ⟨residency.releaseOwnedFrame task, coverage.releaseOwnedFrame task⟩
  | appendFails => exact ⟨Residency.allocate residency, coverage.of_eq rfl rfl rfl rfl rfl fun _ => rfl⟩
  | @flushRefused t =>
    have untouched := flushError_untouched s t
    exact ⟨residency.of_apart untouched.apart, coverage.of_apart untouched.apart⟩
  | @flushFails t lease failure poisoned =>
    have untouched := (dropped_untouched s.pool lease failure).trans (flushError_untouched
      { s with pool := { interrupted s.pool lease failure with lease := none }, flushPoisoned := poisoned } t)
    exact ⟨residency.of_apart untouched.apart, coverage.of_apart untouched.apart⟩

theorem Untouched.kept {before after : BufferPool} (untouched : Untouched before after) (inv : PoolInvariant before)
    (recorded : Recorded before) (images : Images after) (disk : ∀ p, Image.Behind (before.disk p) (after.disk p))
    (leased : ∀ lease, after.lease = some lease → Leased after lease) (evictions : Evictions after) :
    PoolInvariant after ∧ Recorded after := by
  refine ⟨⟨inv.residency.of_apart untouched.apart, ?_, images, leased, evictions⟩, ?_⟩
  · refine inv.logged.of_eq untouched.nextLsn untouched.history untouched.nextPageId untouched.pending ?_ ?_
    · exact untouched.guards ▸ List.Subset.refl _
    · exact fun f => by rw [pageLsn, pageLsn, untouched.frames]
  · exact recorded.writeSnapshot untouched.frames untouched.index untouched.history untouched.pending
      untouched.tasks untouched.nextLsn disk

theorem Steps.kept (steps : Steps s a pool) (allowed : Disciplined s a) (inv : PoolInvariant s.pool)
    (recorded : Recorded s.pool) : PoolInvariant pool ∧ Recorded pool := by
  cases steps with
  | proceed ran => exact ⟨inv.step allowed ran, recorded.step inv allowed ran⟩
  | readFails task =>
    refine ⟨inv.releaseOwnedFrame task, recorded.of_eq rfl rfl rfl rfl rfl rfl rfl fun t x created => ?_⟩
    exact creates_update (.inl rfl) t created
  | appendFails => exact ⟨inv.allocate, recorded.of_eq rfl rfl rfl rfl rfl rfl rfl fun _ _ => id⟩
  | @flushRefused t flushing free =>
    obtain ⟨batches, after, fits⟩ := flushError_pool s t (inv.evictions.flushing t flushing)
    refine (flushError_untouched s t).kept inv recorded ?_ ?_ ?_ ?_
    · rw [after]
      exact inv.images.of_eq rfl rfl rfl rfl rfl rfl fun _ _ => id
    · rw [after]
      exact fun p => Image.Behind.refl _
    · rw [after]
      exact fun lease held => (inv.leased lease held).of_eq rfl rfl rfl rfl rfl rfl
    · rw [after]
      exact inv.evictions.giveUp rfl rfl rfl (fun lease => ⟨fun held => ⟨held, free lease held⟩, And.left⟩) fits
  | @flushFails t lease failure poisoned held mine =>
    have flushing : s.pool.inFlush t = true := by simp [inFlush, held, mine]
    have dropped := dropped_untouched s.pool lease failure
    have flushList : (interrupted s.pool lease failure).flushList = s.pool.flushList := by cases failure <;> rfl
    have busy := inv.evictions.flushing t flushing
    rw [← dropped.tasks] at busy
    obtain ⟨images, disk⟩ := interrupted_images inv held failure
    obtain ⟨batches, after, fits⟩ := flushError_pool
      { s with pool := { interrupted s.pool lease failure with lease := none }, flushPoisoned := poisoned } t busy
    rw [after]
    refine Untouched.kept (dropped.trans ⟨rfl, rfl, rfl, rfl, rfl, rfl, rfl, rfl, rfl⟩) inv recorded
      (images.of_eq rfl rfl rfl rfl rfl rfl fun _ _ => id) disk (by simp) ?_
    refine inv.evictions.giveUp (t := t) dropped.frames dropped.tasks ?_ ?_ (dropped.tasks ▸ fits)
    · exact congrArg (update · t batches) flushList
    · intro other
      simp only [reduceCtorEq, held, Option.some.injEq, false_iff, not_and, not_not]
      rintro rfl
      exact mine

/-- A frame is free, owned by one thread or mapped; two of these only while it is evicted. -/
structure Accounted (s : BufferPool) : Prop where
  inverse : ∀ p f, s.index.pageTable p = some f ↔ s.index.framePage f = some p
  placed : ∀ f < s.poolSize, f ∈ s.index.freeList ∨ s.index.owned f = true ∨ s.index.framePage f ≠ none
  free : ∀ f ∈ s.index.freeList, s.index.owned f = false ∧ s.index.framePage f = none
  freeOnce : s.index.freeList.Nodup
  owned : ∀ f, s.index.owned f = true ↔ ∃! t, (s.tasks t).holds = some f
  evicted : ∀ f p, s.index.framePage f = some p → (s.index.owned f = true ↔ s.index.evicting p = true)
  victim : ∀ t f s', s.step (.chooseVictim t f) = some s' → s.pinned f = false
  unpinned : ∀ f ∈ s.index.freeList, s.pinned f = false
  loader : ∀ t t' p, (s.tasks t).loads = some p → (s.tasks t').loads = some p → t = t'
  guarded : ∀ f p, (f, p) ∈ s.guards → s.index.framePage f = some p

theorem pinned_eq_false {s : BufferPool} {f : Nat} : s.pinned f = false ↔ ∀ p, (f, p) ∉ s.guards := by
  simp only [pinned, List.any_eq_false, beq_iff_eq]
  constructor
  · exact fun none p member => none (f, p) member rfl
  · rintro none ⟨_, p⟩ member rfl
    exact none p member

theorem accounted {s : BufferPool} (residency : Residency s) (coverage : Coverage s) : Accounted s where
  inverse := fun p f => ⟨residency.mapping.tableFrame p f, residency.mapping.frameTable f p⟩
  placed := coverage.placed
  free := fun f member => (residency.mapping.free f member).2.symm
  freeOnce := residency.mapping.freeNodup
  owned := by
    intro f
    constructor
    · intro owned
      obtain ⟨t, holds⟩ := coverage.owner f owned
      exact ⟨t, holds, fun t' holds' => residency.duties.holderUnique t' t f holds' holds⟩
    · rintro ⟨t, holds, _⟩
      exact residency.duties.holder t f holds
  evicted := by
    intro f p mapped
    refine ⟨residency.mapping.ownedMapped f p mapped, fun evicting => ?_⟩
    obtain ⟨t, f', evicts⟩ := coverage.evictor p evicting
    have table := residency.mapping.frameTable f' p (residency.duties.evictor t f' p evicts)
    rw [residency.mapping.frameTable f p mapped] at table
    obtain rfl := Option.some.inj table
    exact residency.duties.holder t f (Task.holds_of_evicts evicts)
  victim := by
    intro t f s' chosen
    obtain ⟨_, _, evictable, _⟩ := chooseVictim_cases chosen
    exact pinned_eq_false.mpr fun p => residency.mapping.evictable f p evictable
  unpinned := by
    intro f member
    refine pinned_eq_false.mpr fun p guarded => ?_
    have mapped := (residency.mapping.guarded f p guarded).1
    rw [(residency.mapping.free f member).2.1] at mapped
    simp at mapped
  loader := residency.duties.loaderUnique
  guarded := fun f p member => (residency.mapping.guarded f p member).1

def HoldsPage (s : BufferPool) (f p : Nat) : Prop :=
  (s.frames f).image.page.id = p ∧
    ∀ record ∈ s.history, ∀ change, record.kind.pageChange = some change → change.1 = p →
      (∃ pending ∈ s.pending, pending.lsn = record.lsn ∧ pending.pageId = p) ∨
        record.lsn ∈ (s.frames f).image.applied

/-- Frames are never shared or lost, whatever device calls fail, and a guard shows the bytes of its page. -/
theorem frames_never_shared (reached : system.ReachableBy FetchInstalled s) :
    Accounted s.pool ∧
      (system.ReachableBy Disciplined s → ∀ f p, (f, p) ∈ s.pool.guards → HoldsPage s.pool f p) := by
  have places : Residency s.pool ∧ Coverage s.pool := by
    refine reached.invariant (P := fun s => Residency s.pool ∧ Coverage s.pool) ?_ ?_
    · exact fun s initial => ⟨(PoolInvariant.init initial.1).residency, Coverage.init initial.1⟩
    · exact fun s a s' places allowed stepped => (step_steps stepped).placed allowed places.1 places.2
  refine ⟨accounted places.1 places.2, fun disciplined f p guarded => ?_⟩
  have kept : PoolInvariant s.pool ∧ Recorded s.pool := by
    refine disciplined.invariant (P := fun s => PoolInvariant s.pool ∧ Recorded s.pool) ?_ ?_
    · exact fun s initial => ⟨PoolInvariant.init initial.1, Recorded.init initial.1⟩
    · exact fun s a s' kept allowed stepped => (step_steps stepped).kept allowed kept.1 kept.2
  have mapped := (places.1.mapping.guarded f p guarded).1
  refine ⟨kept.1.images.frameId f p mapped, fun record member change changes samePage => ?_⟩
  subst samePage
  exact (kept.2.complete record member change changes).imp_right fun applied => applied.1 f mapped

def smallFaultyPool : FaultyPool := { pool := smallPool, flushPoisoned := false, aborting := fun _ => false }

theorem smallFaultyPool_init : system.init smallFaultyPool := ⟨smallPool_init, rfl, fun _ => rfl⟩

/-- Page 1 is changed in frame 1, and the second new page takes that frame. -/
def crowdOut : List PoolAction :=
  load 0 1 ++ [.appendUpdate 7 1 1 100 [1], .applyUpdate 16, .unpinFrame 1 1, .setEvictable 1] ++
    [.newPage 0 7, .popFreeFrame 0, .tryInstall 0, .newPage 0 7, .chooseVictim 0 1, .examineVictim 0]

def takeOver : List PoolAction :=
  flushBatch 0 ++ [.completeEviction 0, .tryInstall 0, .appendUpdate 7 1 4 100 [2], .applyUpdate 151]

theorem frames_never_shared_loaded :
    ∃ s, system.ReachableBy FetchInstalled s ∧ Accounted s.pool ∧ (0, 3) ∈ s.pool.guards ∧ (1, 4) ∈ s.pool.guards ∧
      s.pool.index.pageTable 1 = none ∧ HoldsPage s.pool 1 4 := by
  have found : (system.run smallFaultyPool (crowdOut.map .proceed)).any (fun s =>
      decide (∀ batch ∈ (s.pool.flushList 0).head?, ∀ entry ∈ batch, s.pool.index.framePage entry.1 ≠ none) &&
        (system.run s (takeOver.map .proceed ++ [.appendFails 0])).any fun s' =>
          decide ((0, 3) ∈ s'.pool.guards ∧ (1, 4) ∈ s'.pool.guards ∧ s'.pool.index.pageTable 1 = none)) = true := by
    decide +kernel
  obtain ⟨crowded, executed, found⟩ := (Option.any_eq_true _ _).mp found
  obtain ⟨held, found⟩ := Bool.and_eq_true_iff.mp found
  have held := of_decide_eq_true held
  have flushes : Disciplined crowded (.proceed (.beginFlush 0)) := held
  obtain ⟨s, takes, found⟩ := (Option.any_eq_true _ _).mp found
  obtain ⟨created, guarded, evicted⟩ := of_decide_eq_true found
  obtain ⟨announced, first, rest⟩ := Option.bind_eq_some_iff.mp executed
  obtain ⟨leased, begun, others⟩ := Option.bind_eq_some_iff.mp takes
  have fetches : Disciplined smallFaultyPool (.proceed (.fetchFrame 0 1)) :=
    ⟨by decide, by simp [smallFaultyPool, smallPool, start, Task.creates, Task.caller]⟩
  have reached : system.ReachableBy Disciplined crowded :=
    .run (.next (.start smallFaultyPool_init) fetches first) rest (by simp [Disciplined, Storage.Disciplined])
  have disciplined : system.ReachableBy Disciplined s :=
    .run (.next reached flushes begun) others (by simp [Disciplined, Storage.Disciplined])
  have installed : system.ReachableBy FetchInstalled s := disciplined.mono fun _ _ => Disciplined.fetchInstalled
  have result := frames_never_shared installed
  exact ⟨s, installed, result.1, created, guarded, evicted, result.2 disciplined 1 4 guarded⟩

def fetchDuringCreation : List PoolAction :=
  [.newPage 1 7, .fetchFrame 0 3, .popFreeFrame 0, .popFreeFrame 1, .tryInstall 1] ++
  -- Thread 1 drops its guard and flushes the page, so its frame is evictable and clean.
  [.unpinFrame 0 3, .setEvictable 0, .flushPage 1 3] ++ flushBatch 1 ++
  -- Thread 2 chooses this frame.
  [.fetchFrame 2 1, .chooseVictim 2 0, .examineVictim 2] ++
  [.readPage 0, .tryInstall 0, .completeEviction 2]

theorem fetch_during_creation_loses_frame :
    ∃ s, system.Reachable s ∧ (0, 3) ∈ s.pool.guards ∧ s.pool.index.framePage 0 = none := by
  have found : (system.run smallFaultyPool (fetchDuringCreation.map .proceed)).any (fun s =>
      decide ((0, 3) ∈ s.pool.guards ∧ s.pool.index.framePage 0 = none)) = true := by decide +kernel
  obtain ⟨s, executed, found⟩ := (Option.any_eq_true _ _).mp found
  exact ⟨s, .run (.start smallFaultyPool_init) executed fun _ _ _ => trivial, of_decide_eq_true found⟩

end FaultyPool

end SimpleRdbms.Storage
