import SimpleRdbms.Proof.PoolImages

namespace SimpleRdbms.Storage
open Function (update update_eq_self update_of_ne update_self)

namespace BufferPool

variable {s s' : BufferPool} {t f p lsn txnId : Nat} {kind : LogRecordKind} {lease : Lease}

namespace Leased

theorem of_eq (leased : Leased s lease) (frames : s'.frames = s.frames) (disk : s'.disk = s.disk)
    (pageTable : s'.index.pageTable = s.index.pageTable)
    (framePage : s'.index.framePage = s.index.framePage) (nextLsn : s'.log.nextLsn = s.log.nextLsn)
    (pending : s'.pending = s.pending) : Leased s' lease where
  settled := fun image member => (leased.settled image member).of_eq nextLsn pending
  distinct := leased.distinct
  ahead := by rw [disk]; exact leased.ahead
  mapped := by rw [frames, framePage]; exact leased.mapped
  unmapped := by rw [disk, pageTable]; exact leased.unmapped
  written := by rw [disk]; exact leased.written
  pairs := by
    simp only [pageLsn, diskLsn, frames, disk, framePage]
    exact leased.pairs

theorem of_unmoved {a : PoolAction} (leased : Leased s lease) (unmoved : Unmoved a s s') : Leased s' lease :=
  leased.of_eq unmoved.frames unmoved.disk unmoved.pageTable unmoved.framePage (congrArg _ unmoved.log) unmoved.pending

theorem append {pending : List PendingChange} (leased : Leased s lease)
    (added : ∀ u ∈ pending, u ∈ s.pending ∨ u.lsn = s.log.nextLsn) :
    Leased { s.appendLog txnId kind with pending } lease :=
  { leased with settled := fun image member => (leased.settled image member).append added }

theorem appendQuiet (leased : Leased s lease) : Leased (s.appendLog txnId kind) lease :=
  leased.append fun _ member => Or.inl member

theorem begin {batch : List (Nat × Nat)} (residency : Residency s)
    (images : Images s) (holding : ∀ entry ∈ batch, s.index.framePage entry.1 ≠ none)
    (copied : lease.snapshot = batch.map fun entry => (s.frames entry.1).image)
    (unwritten : lease.written = false) (isBatch : lease.batch = batch) : Leased s lease := by
  have copy : ∀ image ∈ lease.snapshot, ∃ f, s.index.framePage f = some image.page.id ∧
      (s.frames f).image = image := by
    intro image member
    rw [copied] at member
    obtain ⟨entry, inBatch, rfl⟩ := List.mem_map.mp member
    obtain ⟨p, mapped⟩ := Option.ne_none_iff_exists'.mp (holding entry inBatch)
    exact ⟨entry.1, by rw [mapped, images.frameId _ _ mapped], rfl⟩
  have unique : ∀ f f' p, s.index.framePage f = some p → s.index.framePage f' = some p → f = f' := by
    intro f f' p mapped mapped'
    have := residency.mapping.frameTable f p mapped
    rw [residency.mapping.frameTable f' p mapped'] at this
    exact (Option.some.inj this).symm
  refine ⟨?_, ?_, ?_, ?_, ?_, ?_, ?_⟩
  · intro image member
    obtain ⟨f, -, rfl⟩ := copy image member
    exact images.frameSettled f
  · intro a inA b inB sameId
    obtain ⟨f, mapped, rfl⟩ := copy a inA
    obtain ⟨f', mapped', rfl⟩ := copy b inB
    rw [unique f f' _ mapped (sameId ▸ mapped')]
  · intro image member
    obtain ⟨f, mapped, equal⟩ := copy image member
    have ahead := images.ahead f _ mapped
    rwa [equal] at ahead
  · intro image member f mapped
    obtain ⟨f', mapped', rfl⟩ := copy image member
    rw [unique f f' _ mapped mapped']
    exact Image.Behind.refl _
  · intro image member absent
    obtain ⟨f, mapped, -⟩ := copy image member
    simp [residency.mapping.frameTable f _ mapped] at absent
  · simp [unwritten]
  · intro f image pair p mapped _
    have equal : image = (s.frames f).image := by
      unfold Lease.pairs at pair
      rw [copied, isBatch, List.zip_map'] at pair
      obtain ⟨entry, -, isPair⟩ := List.mem_map.mp pair
      obtain ⟨rfl, rfl⟩ := Prod.mk.inj isPair
      rfl
    exact .inl (by rw [equal, images.frameId f p mapped])

theorem completeEviction {index : PoolIndex} (leased : Leased s lease) (images : Images s)
    (mapped : s.index.framePage f = some p) (clean : (s.frames f).dirtySinceLsn = 0)
    (pageTable : index.pageTable = update s.index.pageTable p none)
    (framePage : index.framePage = update s.index.framePage f none) : Leased { s with index } lease := by
  have onDisk : Image.Same (s.disk p) (s.frames f).image :=
    (images.ahead f p mapped).same (images.clean f p mapped clean).symm
  refine { leased with mapped := ?_, unmapped := ?_, pairs := ?_ }
  · intro image member f' mapped'
    by_cases mine : f' = f
    · simp [framePage, mine] at mapped'
    · simp only [framePage, update_of_ne mine] at mapped'
      exact leased.mapped image member f' mapped'
  · intro image member absent
    by_cases mine : image.page.id = p
    · subst mine
      have behind := (leased.mapped image member f mapped).trans onDisk.symm.behind
      exact behind.antisymm (leased.ahead image member)
    · simp only [pageTable, update_of_ne mine] at absent
      exact leased.unmapped image member absent
  · intro f' image pair p' mapped'
    by_cases mine : f' = f
    · simp [framePage, mine] at mapped'
    · simp only [framePage, update_of_ne mine] at mapped'
      exact leased.pairs f' image pair p' mapped'

theorem install {image : Image} {dirtySinceLsn : Nat} (leased : Leased s lease) (residency : Residency s)
    (brings : (s.tasks t).brings = some p) (fromDisk : Image.Same image (s.disk p)) :
    Leased (s.install f p image dirtySinceLsn) lease := by
  rw [residency.install_eq brings]
  refine { leased with mapped := ?_, unmapped := ?_, pairs := ?_ }
  · intro copy member f' mapped
    by_cases mine : f' = f
    · subst mine
      simp only [update_self, Option.some.injEq] at mapped ⊢
      have absent := (residency.duties.bringer t p brings).1
      rw [mapped] at absent fromDisk
      exact ((leased.unmapped copy member absent).trans fromDisk.symm).behind
    · simp only [update_of_ne mine] at mapped ⊢
      exact leased.mapped copy member f' mapped
  · intro copy member absent
    by_cases mine : copy.page.id = p
    · simp [mine] at absent
    · simp only [update_of_ne mine] at absent
      exact leased.unmapped copy member absent
  · intro f' copy pair p' mapped equal
    by_cases mine : f' = f
    · subst mine
      simp only [pageLsn, diskLsn, update_self, Option.some.injEq] at mapped equal ⊢
      exact .inr (mapped ▸ fromDisk.lsn)
    · simp only [pageLsn, diskLsn, update_of_ne mine] at mapped equal ⊢
      exact leased.pairs f' copy pair p' mapped equal

theorem applyChange {change : PendingChange} (leased : Leased s lease) (member : change ∈ s.pending)
    (later : s.pageLsn f < change.lsn) : Leased (s.applyChange f change) lease := by
  refine
    { leased with
      settled := fun image copied => (leased.settled image copied).applyChange
      mapped := ?_, pairs := ?_ }
  · intro image copied f' mapped
    by_cases mine : f' = f
    · subst mine
      simp only [BufferPool.applyChange, update_self]
      exact (leased.mapped image copied f' mapped).change later
    · simp only [BufferPool.applyChange, update_of_ne mine]
      exact leased.mapped image copied f' mapped
  · intro f' image pair p mapped equal
    by_cases mine : f' = f
    · subst mine
      simp only [pageLsn, BufferPool.applyChange, update_self] at equal
      exact absurd equal ((leased.settled image (List.of_mem_zip pair).2).2 change member)
    · simp only [pageLsn, BufferPool.applyChange, update_of_ne mine] at equal ⊢
      exact leased.pairs f' image pair p mapped equal

theorem writeSnapshot (leased : Leased s lease) (log : LogManager) (nextLsn : log.nextLsn = s.log.nextLsn) :
    Leased
      { s with
        log
        disk := writePages s.disk lease.snapshot
        lease := some { lease with written := true } }
      { lease with written := true } := by
  have written : ∀ image ∈ lease.snapshot,
      Image.Same image (writePages s.disk lease.snapshot image.page.id) := by
    intro image member
    rcases @writePages_cases s.disk lease.snapshot image.page.id with
      ⟨copy, copied, sameId, isWritten⟩ | ⟨absent, -⟩
    · rw [isWritten, leased.distinct copy copied image member sameId]
      exact Image.Same.stamped image
    · exact absurd rfl (absent image member)
  refine ⟨?_, leased.distinct, ?_, leased.mapped, fun image member _ => written image member,
    fun _ => written, ?_⟩
  · exact fun image member => (leased.settled image member).of_eq nextLsn rfl
  · exact fun image member => (written image member).symm.behind
  · intro f image pair p mapped equal
    rcases leased.pairs f image pair p mapped equal with same | onDisk
    · exact .inl same
    · -- The page on disk can only have been replaced by a copy of the same age.
      rcases Images.written_cases leased p with untouched | ⟨copy, copied, rfl, same, older⟩
      · refine .inr ?_
        simp only [diskLsn, untouched]
        exact onDisk
      · refine .inr ?_
        have := (leased.mapped copy copied f mapped).lsn
        have := older.lsn
        have := same.lsn
        simp only [pageLsn, diskLsn] at onDisk ⊢
        omega

theorem step {a : PoolAction} (inv : PoolInvariant s) (allowed : Disciplined s a)
    (action : s.step a = some s') (held : s'.lease = some lease) : Leased s' lease := by
  have residency := inv.residency
  cases a with
  | fetchFrame | popFreeFrame | chooseVictim | frameTimeout | examineVictim | abortEviction | readPage | finishFetch
  | setEvictable | flushPage | flushAll | activeSnapshot | dirtyPageTable =>
    have unmoved := step_unmoved action rfl
    exact (inv.leased lease (unmoved.lease ▸ held)).of_unmoved unmoved
  | beginTxn | endTxn | checkpointBegin | checkpointEnd =>
    obtain ⟨txnId, kind, -, unmoved⟩ := step_recorded action rfl
    exact (inv.leased lease (unmoved.lease ▸ held)).appendQuiet.of_unmoved unmoved
  | completeEviction t =>
    obtain ⟨caller, frameId, v, task, finished, rfl⟩ := completeEviction_cases action
    have mapped := residency.duties.evictor t frameId v (by rw [task]; rfl)
    have clean := inv.evictions.flushed t caller frameId v task finished
    exact ((inv.leased lease held).completeEviction inv.images mapped clean rfl rfl).of_eq
      rfl rfl rfl rfl rfl rfl
  | tryInstall t =>
    obtain ⟨pageId, frameId, image, task, rfl⟩ | ⟨pageId, lsn, frameId, task, rfl⟩ :=
      tryInstall_cases action
    all_goals
      have brings : (s.tasks t).brings = some pageId := by rw [task]; rfl
      have held : s.lease = some lease := by rw [← held, residency.install_eq brings]; rfl
    · exact ((inv.leased lease held).install residency brings (inv.images.loaded t _ _ _ task)).of_eq
        rfl rfl rfl rfl rfl rfl
    · have created := inv.images.creating t pageId lsn (by rw [task]; rfl)
      exact ((inv.leased lease held).install residency brings created).of_eq rfl rfl rfl rfl rfl rfl
  | newPage =>
    obtain ⟨-, -, rfl⟩ := newPage_cases action
    exact (inv.leased lease held).appendQuiet.of_eq rfl rfl rfl rfl rfl rfl
  | unpinFrame =>
    obtain ⟨-, -, unpinning, rfl⟩ := unpinFrame_cases action
    exact (inv.leased lease held).of_eq rfl rfl rfl rfl rfl rfl
  | beginFlush =>
    obtain ⟨batch, rest, -, gathered, -, rfl⟩ := beginFlush_cases action
    obtain rfl := Option.some.inj held
    have holding : ∀ entry ∈ batch, s.index.framePage entry.1 ≠ none :=
      allowed batch (by simp [gathered])
    exact (begin residency inv.images holding rfl rfl rfl).of_eq rfl rfl rfl rfl rfl rfl
  | writeSnapshot =>
    obtain ⟨lease, held', -, -, rfl⟩ := writeSnapshot_cases action
    obtain rfl := Option.some.inj held
    exact (inv.leased lease held').writeSnapshot _ (LogManager.flush_nextLsn _ _)
  | clearDirty =>
    obtain ⟨lease, -, -, -, rfl⟩ := clearDirty_cases action
    simp at held
  | appendUpdate | appendClr =>
    obtain ⟨txnId, kind, change, new, -, rfl⟩ := step_appends action rfl
    exact (inv.leased lease held).append fun u => mem_added new
  | applyUpdate | stampWrite =>
    obtain ⟨change, member, frameId, -, older, rfl⟩ := inv.logged.step_applies allowed action rfl
    exact (inv.leased lease held).applyChange member older

end Leased

theorem inFlush_eq_false :
    s.inFlush t = false ↔ s.flushList t = [] ∧ ∀ lease, s.lease = some lease → lease.thread ≠ t := by
  cases held : s.lease <;> simp [inFlush, held]

namespace Evictions

theorem quiet (evictions : Evictions s) (busy : s.tasks t ≠ .idle)
    (unexamined : ∀ c f v, s.tasks t ≠ .examined c f v) : s.inFlush t = false := by
  by_contra flushing
  rcases evictions.flushing t (by simpa using flushing) with idle | ⟨c, f, v, examined⟩
  · exact busy idle
  · exact unexamined c f v examined

theorem of_eq (evictions : Evictions s) (tasks : s'.tasks = s.tasks) (flushList : s'.flushList = s.flushList)
    (lease : s'.lease = s.lease)
    (frames : ∀ t c f v, s.tasks t = .examined c f v → s'.frames f = s.frames f) : Evictions s' := by
  have flush : ∀ t, s'.inFlush t = s.inFlush t := by
    intro t
    simp only [inFlush, flushList, lease]
  refine ⟨?_, ?_, ?_, ?_⟩
  · intro t busy
    rw [tasks]
    exact evictions.flushing t (flush t ▸ busy)
  · rw [tasks, flushList, lease]
    exact evictions.waiting
  · intro t c f v held examined
    rw [tasks] at examined
    rw [lease, pageLsn, frames t c f v examined]
    exact evictions.leasing t c f v held examined
  · intro t c f v examined finished
    rw [tasks] at examined
    rw [frames t c f v examined]
    exact evictions.flushed t c f v examined (flush t ▸ finished)

theorem assign {task : Task} {batches : List (List (Nat × Nat))} (evictions : Evictions s)
    (released : ∀ lease, s.lease = some lease → lease.thread ≠ t) (frames : s'.frames = s.frames)
    (tasks : s'.tasks = update s.tasks t task) (flushList : s'.flushList = update s.flushList t batches)
    (lease : s'.lease = s.lease)
    (fits : (batches = [] ∧ ∀ c f v, task = .examined c f v → (s.frames f).dirtySinceLsn = 0) ∨
      task = .idle ∨ ∃ c f v, task = .examined c f v ∧ batches = [[(f, v)]]) : Evictions s' := by
  have others : ∀ t', t' ≠ t → s'.inFlush t' = s.inFlush t' ∧ s'.tasks t' = s.tasks t' ∧
      s'.flushList t' = s.flushList t' := by
    intro t' other
    simp [inFlush, tasks, flushList, lease, update_of_ne other]
  have mine : s'.tasks t = task ∧ s'.flushList t = batches := by simp [tasks, flushList]
  have leaseFree : ∀ lease, s'.lease = some lease → lease.thread ≠ t := lease ▸ released
  refine ⟨?_, ?_, ?_, ?_⟩
  · intro t' busy
    by_cases isMine : t' = t
    · subst isMine
      rw [mine.1]
      rcases fits with ⟨none, -⟩ | idle | ⟨c, f, v, examined, -⟩
      · have := inFlush_eq_false.mpr ⟨mine.2.trans none, leaseFree⟩
        simp [this] at busy
      · exact .inl idle
      · exact .inr ⟨c, f, v, examined⟩
    · obtain ⟨flush, task', -⟩ := others t' isMine
      rw [task']
      exact evictions.flushing t' (flush ▸ busy)
  · intro t' c f v examined
    by_cases isMine : t' = t
    · subst isMine
      rw [mine.1] at examined
      rw [mine.2]
      rcases fits with ⟨none, -⟩ | idle | ⟨c', f', v', examined', isBatch⟩
      · exact .inl none
      · simp [idle] at examined
      · rw [examined'] at examined
        cases examined
        exact .inr ⟨isBatch, leaseFree⟩
    · obtain ⟨-, task', list'⟩ := others t' isMine
      rw [task'] at examined
      rw [list', lease]
      exact evictions.waiting t' c f v examined
  · intro t' c f v held examined isHeld isThread
    have isMine : t' ≠ t := fun equal => leaseFree held isHeld (equal ▸ isThread)
    rw [(others t' isMine).2.1] at examined
    rw [pageLsn, frames]
    exact evictions.leasing t' c f v held examined (lease ▸ isHeld) isThread
  · intro t' c f v examined finished
    by_cases isMine : t' = t
    · subst isMine
      rw [mine.1] at examined
      have waiting := (inFlush_eq_false.mp finished).1
      rw [mine.2] at waiting
      rw [frames]
      rcases fits with ⟨-, clean⟩ | idle | ⟨c', f', v', -, isBatch⟩
      · exact clean c f v examined
      · simp [idle] at examined
      · simp [isBatch] at waiting
    · obtain ⟨flush, task', -⟩ := others t' isMine
      rw [task'] at examined
      rw [frames]
      exact evictions.flushed t' c f v examined (flush ▸ finished)

theorem retask {task : Task} (evictions : Evictions s) (quiet : s.inFlush t = false)
    (unexamined : ∀ c f v, task ≠ .examined c f v) (frames : s'.frames = s.frames)
    (tasks : s'.tasks = update s.tasks t task) (flushList : s'.flushList = s.flushList)
    (lease : s'.lease = s.lease) : Evictions s' := by
  obtain ⟨nothing, released⟩ := inFlush_eq_false.mp quiet
  have unchanged : s'.flushList = update s.flushList t [] := by
    rw [flushList, ← nothing, update_eq_self]
  exact evictions.assign released frames tasks unchanged lease
    (Or.inl ⟨rfl, fun c f v examined => absurd examined (unexamined c f v)⟩)

theorem pass {old task : Task} (evictions : Evictions s) (isOld : s.tasks t = old) (busy : old ≠ .idle)
    (other : ∀ c f v, old ≠ .examined c f v) (unexamined : ∀ c f v, task ≠ .examined c f v)
    (frames : s'.frames = s.frames)
    (tasks : s'.tasks = update s.tasks t task) (flushList : s'.flushList = s.flushList) (lease : s'.lease = s.lease) :
    Evictions s' :=
  evictions.retask (evictions.quiet (isOld ▸ busy) (isOld ▸ other)) unexamined frames tasks flushList lease

theorem beginFlush (inv : PoolInvariant s) (action : s.beginFlush t = some s') : Evictions s' := by
  have evictions := inv.evictions
  obtain ⟨batch, rest, free, gathered, -, rfl⟩ := beginFlush_cases action
  have only : ∀ c f v, s.tasks t = .examined c f v → batch = [(f, v)] ∧ rest = [] := by
    intro c f v examined
    rcases evictions.waiting t c f v examined with none | ⟨isBatch, -⟩
    · simp [none] at gathered
    · simp only [isBatch, List.cons.injEq] at gathered
      exact ⟨gathered.1.symm, gathered.2.symm⟩
  refine ⟨?_, ?_, ?_, ?_⟩
  · intro t' busy
    apply evictions.flushing t'
    by_cases isMine : t' = t
    · simp [inFlush, isMine, gathered]
    · simpa [inFlush, free, update_of_ne isMine, Ne.symm isMine] using busy
  · intro t' c f v examined
    by_cases isMine : t' = t
    · subst isMine
      exact .inl (by simp [(only c f v examined).2])
    · simp only [update_of_ne isMine]
      rcases evictions.waiting t' c f v examined with none | ⟨isBatch, -⟩
      · exact .inl none
      · refine .inr ⟨isBatch, ?_⟩
        rintro _ ⟨⟩
        exact Ne.symm isMine
  · rintro t' c f v _ examined ⟨⟩ rfl
    obtain ⟨rfl, -⟩ := only c f v examined
    exact ⟨(s.frames f).image, rfl, rfl⟩
  · intro t' c f v examined finished
    have isMine : t' ≠ t := by
      rintro rfl
      simp [inFlush] at finished
    apply evictions.flushed t' c f v examined
    simpa [inFlush, free, update_of_ne isMine, Ne.symm isMine] using finished

theorem writeSnapshot (inv : PoolInvariant s) (action : s.writeSnapshot t = some s') : Evictions s' := by
  have evictions := inv.evictions
  obtain ⟨lease, held, -, -, rfl⟩ := writeSnapshot_cases action
  have flush : ∀ t', inFlush
      { s with
        log := s.log.flush (maxPageLsn lease.snapshot)
        disk := writePages s.disk lease.snapshot
        lease := some { lease with written := true } } t' = s.inFlush t' := by
    intro t'
    simp [inFlush, held]
  refine ⟨fun t' busy => evictions.flushing t' (flush t' ▸ busy), ?_, ?_,
    fun t' c f v examined finished => evictions.flushed t' c f v examined (flush t' ▸ finished)⟩
  · intro t' c f v examined
    rcases evictions.waiting t' c f v examined with none | ⟨isBatch, other⟩
    · exact .inl none
    · refine .inr ⟨isBatch, ?_⟩
      rintro _ ⟨⟩
      exact other lease held
  · rintro t' c f v _ examined ⟨⟩ isThread
    exact evictions.leasing t' c f v lease examined held isThread

theorem clearDirty (inv : PoolInvariant s) (action : s.clearDirty t = some s') : Evictions s' := by
  have evictions := inv.evictions
  obtain ⟨lease, held, rfl, -, rfl⟩ := clearDirty_cases action
  refine ⟨?_, ?_, ?_, ?_⟩
  · intro t' busy
    apply evictions.flushing t'
    simp only [inFlush, Option.any_none, Bool.or_false, Bool.not_eq_true'] at busy
    simp [inFlush, busy]
  · intro t' c f v examined
    rcases evictions.waiting t' c f v examined with none | ⟨isBatch, -⟩
    · exact .inl none
    · exact .inr ⟨isBatch, by simp⟩
  · rintro t' c f v _ examined ⟨⟩
  · intro t' c f v examined finished
    by_cases isMine : lease.thread = t'
    · obtain ⟨image, pairs, equal⟩ := evictions.leasing t' c f v lease examined held isMine
      exact clearMarks_clean (by rw [pairs]; exact List.mem_singleton_self _) equal.symm
    · have still : s.inFlush t' = false := by
        refine inFlush_eq_false.mpr ⟨(inFlush_eq_false.mp finished).1, ?_⟩
        intro lease' held'
        rw [held] at held'
        exact Option.some.inj held' ▸ isMine
      have clean := evictions.flushed t' c f v examined still
      rcases clearMarks_dirty s.frames lease.pairs f with kept | ⟨cleared, -⟩
      · exact kept.trans clean
      · exact cleared

theorem frame_ne {c : Caller} {v : Nat} (residency : Residency s) (examined : s.tasks t = .examined c f v)
    {f' : Nat} (unowned : s.index.owned f' = false) : f ≠ f' := by
  rintro rfl
  have owned := residency.duties.holder t f (by rw [examined]; rfl)
  simp [owned] at unowned

theorem applyChange {change : PendingChange} (inv : PoolInvariant s)
    (guarded : (f, change.pageId) ∈ s.guards) : Evictions (s.applyChange f change) := by
  refine inv.evictions.of_eq rfl rfl rfl fun t c f' v examined => ?_
  have other := frame_ne inv.residency examined (inv.residency.mapping.guarded f _ guarded).2
  exact update_of_ne other _ _

theorem install {image : Image} {dirtySinceLsn : Nat} {task : Task} (inv : PoolInvariant s)
    (fills : (s.tasks t).fills = some f) (brings : (s.tasks t).brings = some p)
    (unexamined : ∀ c f v, task ≠ .examined c f v) :
    Evictions ((s.install f p image dirtySinceLsn).setTask t task) := by
  have before : ∀ c f v, s.tasks t ≠ .examined c f v := by
    intro c f v examined
    simp [examined, Task.fills] at fills
  have quiet : s.inFlush t = false := by
    refine inv.evictions.quiet (fun idle => ?_) before
    simp [idle, Task.fills] at fills
  rw [inv.residency.install_eq brings]
  have retasked : Evictions (s.setTask t task) :=
    inv.evictions.retask quiet unexamined rfl rfl rfl rfl
  refine retasked.of_eq rfl rfl rfl fun t' c f' v examined => ?_
  have other : f' ≠ f := by
    rintro rfl
    by_cases isMine : t' = t
    · subst isMine
      simp only [setTask, update_self] at examined
      exact unexamined c f' v examined
    · simp only [setTask, update_of_ne isMine] at examined
      have held : (s.tasks t').holds = some f' := by rw [examined]; rfl
      exact isMine (inv.residency.duties.holderUnique t' t f' held (Task.holds_of_fills fills))
  exact update_of_ne other _ _

theorem step {a : PoolAction} (inv : PoolInvariant s) (allowed : Disciplined s a) (action : s.step a = some s') :
    Evictions s' := by
  have evictions := inv.evictions
  cases a with
  | fetchFrame t =>
    obtain ⟨-, quiet, -, ⟨frameId, -, rfl⟩ | ⟨-, -, rfl⟩⟩ := fetchFrame_cases action
    · exact evictions.of_eq rfl rfl rfl fun _ _ _ _ _ => rfl
    · exact evictions.retask quiet (by simp) rfl rfl rfl rfl
  | popFreeFrame t =>
    obtain ⟨caller, frameId, rest, task, -, rfl⟩ := popFreeFrame_cases action
    exact evictions.pass task (by simp) (by simp) (by simp) rfl rfl rfl rfl
  | chooseVictim t =>
    obtain ⟨caller, task, -, next⟩ := chooseVictim_cases action
    obtain ⟨v, -, rfl⟩ | ⟨-, rfl⟩ := next
    all_goals exact evictions.pass task (by simp) (by simp) (by simp) rfl rfl rfl rfl
  | frameTimeout t =>
    obtain ⟨caller, task, rfl⟩ := frameTimeout_cases action
    exact evictions.pass task (by simp) (by simp) (by cases caller <;> simp [failed]) rfl rfl rfl rfl
  | examineVictim t =>
    obtain ⟨caller, frameId, v, task, next⟩ := examineVictim_cases action
    have quiet : s.inFlush t = false := evictions.quiet (by simp [task]) (by simp [task])
    obtain ⟨nothing, released⟩ := inFlush_eq_false.mp quiet
    obtain ⟨clean, rfl⟩ | ⟨-, rfl⟩ := next
    · have unchanged : s.flushList = update s.flushList t [] := by
        rw [← nothing, update_eq_self]
      refine evictions.assign released rfl rfl unchanged rfl (Or.inl ⟨rfl, ?_⟩)
      rintro _ _ _ ⟨⟩
      exact clean
    · exact evictions.assign released rfl rfl rfl rfl (Or.inr (Or.inr ⟨_, _, _, rfl, rfl⟩))
  | abortEviction t =>
    obtain ⟨caller, frameId, v, task, waiting, rfl⟩ := abortEviction_cases action
    have released : ∀ lease, s.lease = some lease → lease.thread ≠ t := by
      rcases evictions.waiting t caller frameId v task with none | ⟨-, other⟩
      · exact absurd none waiting
      · exact other
    refine evictions.assign released rfl rfl rfl rfl (Or.inl ⟨rfl, ?_⟩)
    cases caller <;> simp [failed]
  | completeEviction t =>
    obtain ⟨caller, frameId, v, -, quiet, rfl⟩ := completeEviction_cases action
    exact evictions.retask quiet (by simp) rfl rfl rfl rfl
  | readPage t =>
    obtain ⟨pageId, frameId, task, next⟩ := readPage_cases action
    obtain ⟨-, rfl⟩ | ⟨-, rfl⟩ := next
    all_goals exact evictions.pass task (by simp) (by simp) (by simp) rfl rfl rfl rfl
  | tryInstall t =>
    obtain ⟨pageId, frameId, image, task, rfl⟩ | ⟨pageId, lsn, frameId, task, rfl⟩ :=
      tryInstall_cases action
    all_goals exact install inv (by rw [task]; rfl) (by rw [task]; rfl) (by simp)
  | finishFetch t =>
    obtain ⟨pageId, task, rfl⟩ := finishFetch_cases action
    exact evictions.pass task (by simp) (by simp) (by simp) rfl rfl rfl rfl
  | newPage t =>
    obtain ⟨-, quiet, rfl⟩ := newPage_cases action
    exact evictions.retask quiet (by simp) rfl rfl rfl rfl
  | unpinFrame =>
    obtain ⟨-, -, unpinning, rfl⟩ := unpinFrame_cases action
    exact evictions.of_eq rfl rfl rfl fun _ _ _ _ _ => rfl
  | setEvictable =>
    obtain ⟨unpinning, replacer, rfl, -⟩ := setEvictable_cases action
    exact evictions.of_eq rfl rfl rfl fun _ _ _ _ _ => rfl
  | flushPage t =>
    obtain ⟨idle, quiet, batches, rfl⟩ := flushPage_cases action
    exact evictions.assign (inFlush_eq_false.mp quiet).2 rfl (by rw [← idle, update_eq_self])
      rfl rfl (Or.inr (Or.inl rfl))
  | flushAll t =>
    obtain ⟨idle, quiet, batches, rfl⟩ := flushAll_cases action
    exact evictions.assign (inFlush_eq_false.mp quiet).2 rfl (by rw [← idle, update_eq_self])
      rfl rfl (Or.inr (Or.inl rfl))
  | beginFlush => exact beginFlush inv action
  | writeSnapshot => exact writeSnapshot inv action
  | clearDirty => exact clearDirty inv action
  | appendUpdate | appendClr =>
    obtain ⟨txnId, kind, change, -, -, rfl⟩ := step_appends action rfl
    exact evictions.of_eq rfl rfl rfl fun _ _ _ _ _ => rfl
  | applyUpdate | stampWrite =>
    obtain ⟨change, -, frameId, guarded, -, rfl⟩ := inv.logged.step_applies allowed action rfl
    exact applyChange inv guarded
  | beginTxn =>
    obtain ⟨active, rfl⟩ := beginTxn_cases action
    exact evictions.of_eq rfl rfl rfl fun _ _ _ _ _ => rfl
  | endTxn =>
    obtain ⟨active, rfl⟩ := endTxn_cases action
    exact evictions.of_eq rfl rfl rfl fun _ _ _ _ _ => rfl
  | checkpointBegin t =>
    obtain ⟨-, quiet, rfl⟩ := checkpointBegin_cases action
    exact evictions.retask quiet (by simp) rfl rfl rfl rfl
  | activeSnapshot t =>
    obtain ⟨beginLsn, task, rfl⟩ := activeSnapshot_cases action
    exact evictions.pass task (by simp) (by simp) (by simp) rfl rfl rfl rfl
  | dirtyPageTable t =>
    obtain ⟨beginLsn, att, task, rfl⟩ := dirtyPageTable_cases action
    exact evictions.pass task (by simp) (by simp) (by simp) rfl rfl rfl rfl
  | checkpointEnd t =>
    obtain ⟨beginLsn, att, dpt, task, rfl⟩ := checkpointEnd_cases action
    exact evictions.pass task (by simp) (by simp) (by simp) rfl rfl rfl rfl

end Evictions

end BufferPool

end SimpleRdbms.Storage
