import SimpleRdbms.Proof.PoolInvariant

namespace SimpleRdbms.Storage
open Function (update update_of_ne update_self)

namespace BufferPool

variable {s s' : BufferPool} {t f p lsn txnId : Nat} {kind : LogRecordKind}

theorem Settled.of_eq (settled : s.Settled lsn) (nextLsn : s'.log.nextLsn = s.log.nextLsn)
    (pending : s'.pending = s.pending) : s'.Settled lsn := by
  unfold Settled
  rw [nextLsn, pending]
  exact settled

theorem Settled.append {pending : List PendingChange} (settled : s.Settled lsn)
    (added : ∀ u ∈ pending, u ∈ s.pending ∨ u.lsn = s.log.nextLsn) :
    Settled { s.appendLog txnId kind with pending } lsn := by
  refine ⟨Nat.lt_of_lt_of_le settled.1 (Nat.le_add_right _ _), ?_⟩
  intro u member
  rcases added u member with old | new
  · exact settled.2 u old
  · exact new ▸ (Nat.ne_of_gt settled.1)

theorem Settled.applyChange {change : PendingChange} (settled : s.Settled lsn) :
    (s.applyChange f change).Settled lsn :=
  ⟨settled.1, fun u erased => settled.2 u (List.mem_of_mem_erase erased)⟩

namespace Images

theorem of_tasks (images : Images s) (frames : s'.frames = s.frames) (disk : s'.disk = s.disk)
    (nextPageId : s'.nextPageId = s.nextPageId) (nextLsn : s'.log.nextLsn = s.log.nextLsn)
    (pending : s'.pending = s.pending) (creates : ∀ t x, (s'.tasks t).creates = some x → (s.tasks t).creates = some x)
    (loaded : ∀ t p f image, s'.tasks t = .loaded p f image →
      s.tasks t = .loaded p f image ∨ Image.Same image (s.disk p))
    (framePage : ∀ f p, s'.index.framePage f = some p → s.index.framePage f = some p) : Images s' where
  diskId := by rw [disk]; exact images.diskId
  frameId := by
    rw [frames]
    exact fun f p mapped => images.frameId f p (framePage f p mapped)
  diskSettled := fun p => by
    rw [diskLsn, disk]
    exact (images.diskSettled p).of_eq nextLsn pending
  frameSettled := fun f => by
    rw [pageLsn, frames]
    exact (images.frameSettled f).of_eq nextLsn pending
  unallocated := by rw [nextPageId, disk]; exact images.unallocated
  creating := by
    rw [disk]
    exact fun t p lsn created => images.creating t p lsn (creates t _ created)
  loaded := by
    rw [disk]
    exact fun t p f image isLoaded => (loaded t p f image isLoaded).elim (images.loaded t p f image) id
  ahead := by
    rw [frames, disk]
    exact fun f p mapped => images.ahead f p (framePage f p mapped)
  clean := by
    simp only [pageLsn, diskLsn, frames, disk]
    exact fun f p mapped => images.clean f p (framePage f p mapped)

theorem of_eq (images : Images s) (frames : s'.frames = s.frames) (disk : s'.disk = s.disk)
    (nextPageId : s'.nextPageId = s.nextPageId) (nextLsn : s'.log.nextLsn = s.log.nextLsn)
    (pending : s'.pending = s.pending) (tasks : s'.tasks = s.tasks)
    (framePage : ∀ f p, s'.index.framePage f = some p → s.index.framePage f = some p) : Images s' :=
  images.of_tasks frames disk nextPageId nextLsn pending (tasks ▸ fun _ _ => id) (tasks ▸ fun _ _ _ _ => .inl) framePage

theorem of_unmoved {a : PoolAction} (images : Images s) (unmoved : Unmoved a s s') : Images s' :=
  images.of_tasks unmoved.frames unmoved.disk unmoved.nextPageId
    (congrArg _ unmoved.log) unmoved.pending unmoved.creates
    (fun t p f image isLoaded => (unmoved.loaded t p f image isLoaded).imp_right Image.Same.of_eq)
    (unmoved.framePage ▸ fun _ _ => id)

theorem retask {task : Task} (images : Images s) (creates : task.creates = none ∨ task.creates = (s.tasks t).creates)
    (loaded : ∀ p f image, task = .loaded p f image → Image.Same image (s.disk p)) : Images (s.setTask t task) :=
  images.of_tasks rfl rfl rfl rfl rfl (fun t' _ => creates_update creates t')
    (fun _ p f image isLoaded => (loaded_update isLoaded).imp_right (loaded p f image)) fun _ _ => id

theorem append {pending : List PendingChange} (images : Images s)
    (added : ∀ u ∈ pending, u ∈ s.pending ∨ u.lsn = s.log.nextLsn) : Images { s.appendLog txnId kind with pending } :=
  { images with
    diskSettled := fun p => (images.diskSettled p).append added
    frameSettled := fun f => (images.frameSettled f).append added }

theorem appendQuiet (images : Images s) : Images (s.appendLog txnId kind) :=
  images.append fun _ member => Or.inl member

theorem install {image : Image} {dirtySinceLsn : Nat} (images : Images s) (residency : Residency s)
    (brings : (s.tasks t).brings = some p) (fromDisk : Image.Same image (s.disk p)) :
    Images (s.install f p image dirtySinceLsn) := by
  rw [residency.install_eq brings]
  refine { images with frameId := ?_, frameSettled := ?_, ahead := ?_, clean := ?_ }
  · intro f' p' mapped
    by_cases mine : f' = f
    · subst mine
      simp only [update_self, Option.some.injEq] at mapped ⊢
      rw [fromDisk.id, images.diskId, mapped]
    · simp only [update_of_ne mine] at mapped ⊢
      exact images.frameId f' p' mapped
  · intro f'
    by_cases mine : f' = f
    · subst mine
      simp only [pageLsn, update_self, fromDisk.lsn]
      exact images.diskSettled p
    · simp only [pageLsn, update_of_ne mine]
      exact images.frameSettled f'
  · intro f' p' mapped
    by_cases mine : f' = f
    · subst mine
      simp only [update_self, Option.some.injEq] at mapped ⊢
      exact mapped ▸ fromDisk.symm.behind
    · simp only [update_of_ne mine] at mapped ⊢
      exact images.ahead f' p' mapped
  · intro f' p' mapped
    by_cases mine : f' = f
    · subst mine
      simp only [pageLsn, update_self, Option.some.injEq] at mapped ⊢
      exact fun _ => mapped ▸ fromDisk.lsn
    · simp only [pageLsn, update_of_ne mine] at mapped ⊢
      exact images.clean f' p' mapped

theorem applyChange {change : PendingChange} (images : Images s) (logged : Logged s)
    (member : change ∈ s.pending) (mapped : s.index.framePage f = some change.pageId)
    (later : s.pageLsn f < change.lsn) : Images (s.applyChange f change) := by
  have positive := (logged.pendingBound change member).1
  refine
    { images with
      diskSettled := fun p => (images.diskSettled p).applyChange
      frameId := ?_, frameSettled := ?_, ahead := ?_, clean := ?_ }
  · intro f' p' mapped'
    by_cases mine : f' = f
    · subst mine
      simp only [BufferPool.applyChange, update_self]
      exact images.frameId f' p' mapped'
    · simp only [BufferPool.applyChange, update_of_ne mine]
      exact images.frameId f' p' mapped'
  · intro f'
    by_cases mine : f' = f
    · subst mine
      simp only [pageLsn, BufferPool.applyChange, update_self]
      refine ⟨(logged.pendingBound change member).2.1, ?_⟩
      intro u erased
      exact logged.lsn_ne_of_mem_erase member erased
    · simp only [pageLsn, BufferPool.applyChange, update_of_ne mine]
      exact (images.frameSettled f').applyChange
  · intro f' p' mapped'
    by_cases mine : f' = f
    · subst mine
      simp only [BufferPool.applyChange, update_self]
      exact (images.ahead f' p' mapped').change later
    · simp only [BufferPool.applyChange, update_of_ne mine]
      exact images.ahead f' p' mapped'
  · intro f' p' mapped' isClean
    by_cases mine : f' = f
    · subst mine
      simp only [BufferPool.applyChange, update_self, Frame.change] at isClean
      split at isClean <;> omega
    · simp only [pageLsn, diskLsn, BufferPool.applyChange, update_of_ne mine] at isClean ⊢
      exact images.clean f' p' mapped' isClean

theorem newPage (images : Images s) :
    Images (({ s with nextPageId := s.nextPageId + 1 }.appendLog txnId kind).setTask t
      (.needFrame (.newPage s.nextPageId lsn))) := by
  have grown : Images { s with nextPageId := s.nextPageId + 1 } :=
    { images with unallocated := fun p beyond => images.unallocated p (Nat.le_of_succ_le beyond) }
  have appended : Images ({ s with nextPageId := s.nextPageId + 1 }.appendLog txnId kind) :=
    grown.appendQuiet
  refine { appended with creating := ?_, loaded := ?_ }
  · intro t' p lsn' created
    by_cases mine : t' = t
    · subst mine
      simp only [setTask, update_self, Task.creates, Task.caller, Caller.created,
        Option.bind_some, Option.some.injEq, Prod.mk.injEq] at created
      exact created.1 ▸ images.unallocated s.nextPageId (Nat.le_refl _)
    · simp only [setTask, update_of_ne mine] at created
      exact images.creating t' p lsn' created
  · intro t' p f image isLoaded
    by_cases mine : t' = t
    · subst mine
      simp [setTask] at isLoaded
    · simp only [setTask, update_of_ne mine] at isLoaded
      exact images.loaded t' p f image isLoaded

theorem written_cases {lease : Lease} (leased : Leased s lease) (p : Nat) :
    writePages s.disk lease.snapshot p = s.disk p ∨
      ∃ image ∈ lease.snapshot, image.page.id = p ∧
        Image.Same image (writePages s.disk lease.snapshot p) ∧ Image.Behind (s.disk p) image := by
  rcases @writePages_cases s.disk lease.snapshot p with ⟨image, member, rfl, written⟩ | ⟨-, untouched⟩
  · exact .inr ⟨image, member, rfl, written ▸ Image.Same.stamped image, leased.ahead image member⟩
  · exact .inl untouched

theorem writeSnapshot {lease : Lease} (images : Images s) (residency : Residency s)
    (leased : Leased s lease) (log : LogManager) (nextLsn : log.nextLsn = s.log.nextLsn) (next : Option Lease) :
    Images { s with log, disk := writePages s.disk lease.snapshot, lease := next } := by
  have settles : ∀ {lsn}, s.Settled lsn →
      Settled { s with log, disk := writePages s.disk lease.snapshot, lease := next } lsn :=
    fun settled => settled.of_eq nextLsn rfl
  -- A page that is not resident keeps its image up to the checksum.
  have absent : ∀ p, s.index.pageTable p = none →
      Image.Same (s.disk p) (writePages s.disk lease.snapshot p) := by
    intro p unmapped
    rcases written_cases leased p with untouched | ⟨image, member, rfl, same, -⟩
    · rw [untouched]
      exact Image.Same.refl _
    · exact (leased.unmapped image member unmapped).symm.trans same
  refine ⟨?_, images.frameId, ?_, fun f => settles (images.frameSettled f), ?_, ?_, ?_, ?_, ?_⟩
  · intro p
    rcases written_cases leased p with untouched | ⟨image, member, rfl, same, -⟩
    · exact (congrArg (·.page.id) untouched).trans (images.diskId p)
    · exact same.id.symm
  · intro p
    rcases written_cases leased p with untouched | ⟨image, member, rfl, same, -⟩
    · simp only [diskLsn, untouched]
      exact settles (images.diskSettled p)
    · simp only [diskLsn, ← same.lsn]
      exact settles (leased.settled image member)
  · intro p beyond
    refine (images.unallocated p beyond).trans (absent p ?_)
    by_contra present
    obtain ⟨f, mapped⟩ := Option.ne_none_iff_exists'.mp present
    have := residency.mapping.allocated f p (residency.mapping.tableFrame p f mapped)
    exact absurd beyond (Nat.not_le.mpr this)
  · intro t p lsn created
    have brings : (s.tasks t).brings = some p := Task.brings_of_creates created
    exact (images.creating t p lsn created).trans (absent p (residency.duties.bringer t p brings).1)
  · intro t p f image isLoaded
    have brings : (s.tasks t).brings = some p := by rw [isLoaded]; rfl
    exact (images.loaded t p f image isLoaded).trans (absent p (residency.duties.bringer t p brings).1)
  · intro f p mapped
    rcases written_cases leased p with untouched | ⟨image, member, rfl, same, -⟩
    · simp only [untouched]
      exact images.ahead f p mapped
    · exact same.symm.behind.trans (leased.mapped image member f mapped)
  · intro f p mapped isClean
    have equal := images.clean f p mapped isClean
    rcases written_cases leased p with untouched | ⟨image, member, rfl, same, older⟩
    · simp only [diskLsn, untouched]
      exact equal
    · have := (leased.mapped image member f mapped).lsn
      have := older.lsn
      have := same.lsn
      simp only [pageLsn, diskLsn] at equal ⊢
      omega

theorem clearDirty {lease : Lease} (images : Images s) (leased : Leased s lease) (written : lease.written = true) :
    Images { s with frames := clearMarks s.frames lease.pairs, lease := none } := by
  refine { images with frameId := ?_, frameSettled := ?_, ahead := ?_, clean := ?_ }
  · simpa using images.frameId
  · intro f
    simp only [pageLsn, clearMarks_image]
    exact images.frameSettled f
  · simpa using images.ahead
  · intro f p mapped isClean
    simp only [pageLsn, diskLsn, clearMarks_image]
    rcases clearMarks_dirty s.frames lease.pairs f with kept | ⟨-, image, copied, equal⟩
    · exact images.clean f p mapped (kept ▸ isClean)
    · rcases leased.pairs f image copied p mapped equal with rfl | onDisk
      · exact equal.trans (leased.written written image (List.of_mem_zip copied).2).lsn
      · exact onDisk

theorem step {a : PoolAction} (inv : PoolInvariant s) (allowed : Disciplined s a)
    (action : s.step a = some s') : Images s' := by
  have images := inv.images
  have residency := inv.residency
  cases a with
  | fetchFrame | popFreeFrame | chooseVictim | frameTimeout | examineVictim | abortEviction | readPage | finishFetch
  | setEvictable | flushPage | flushAll | activeSnapshot | dirtyPageTable =>
    exact images.of_unmoved (step_unmoved action rfl)
  | beginTxn | endTxn | checkpointBegin | checkpointEnd =>
    obtain ⟨txnId, kind, -, unmoved⟩ := step_recorded action rfl
    exact images.appendQuiet.of_unmoved unmoved
  | completeEviction =>
    obtain ⟨caller, frameId, v, task, -, rfl⟩ := completeEviction_cases action
    refine retask (images.of_eq rfl rfl rfl rfl rfl rfl ?_) (Or.inr (Task.creates_of_caller (by rw [task]; rfl))) ?_
    · intro f p mapped
      by_cases mine : f = frameId
      · simp [mine] at mapped
      · simpa [update_of_ne mine] using mapped
    · rintro _ _ _ ⟨⟩
  | tryInstall t =>
    obtain ⟨pageId, frameId, image, task, rfl⟩ | ⟨pageId, lsn, frameId, task, rfl⟩ :=
      tryInstall_cases action
    all_goals have brings : (s.tasks t).brings = some pageId := by rw [task]; rfl
    · refine retask (images.install residency brings (images.loaded t _ _ _ task)) (Or.inl rfl) ?_
      rintro _ _ _ ⟨⟩
    · have created := images.creating t pageId lsn (by rw [task]; rfl)
      refine retask (images.install residency brings created) (Or.inl rfl) ?_
      rintro _ _ _ ⟨⟩
  | newPage =>
    obtain ⟨-, -, rfl⟩ := newPage_cases action
    exact images.newPage
  | unpinFrame =>
    obtain ⟨-, -, unpinning, rfl⟩ := unpinFrame_cases action
    exact images.of_eq rfl rfl rfl rfl rfl rfl fun _ _ => id
  | beginFlush =>
    obtain ⟨batch, rest, -, -, -, rfl⟩ := beginFlush_cases action
    exact images.of_eq rfl rfl rfl rfl rfl rfl fun _ _ => id
  | writeSnapshot =>
    obtain ⟨lease, held, -, -, rfl⟩ := writeSnapshot_cases action
    exact images.writeSnapshot residency (inv.leased lease held) _ (LogManager.flush_nextLsn _ _) _
  | clearDirty =>
    obtain ⟨lease, held, -, written, rfl⟩ := clearDirty_cases action
    exact images.clearDirty (inv.leased lease held) written
  | appendUpdate | appendClr =>
    obtain ⟨txnId, kind, change, new, -, rfl⟩ := step_appends action rfl
    exact images.append fun u => mem_added new
  | applyUpdate | stampWrite =>
    obtain ⟨change, member, frameId, guarded, older, rfl⟩ := inv.logged.step_applies allowed action rfl
    exact images.applyChange inv.logged member (residency.mapping.guarded _ _ guarded).1 older

end Images

end BufferPool

end SimpleRdbms.Storage
