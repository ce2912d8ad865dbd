import SimpleRdbms.Proof.FlushOrder

namespace SimpleRdbms.Storage
open Function (update update_of_ne update_self)

namespace BufferPool

variable {s s' : BufferPool} {t f p lsn txnId : Nat} {kind : LogRecordKind} {a : PoolAction}

def Applied (s : BufferPool) (pageId lsn : Nat) : Prop :=
  (∀ f, s.index.framePage f = some pageId → lsn ∈ (s.frames f).image.applied) ∧
    (s.index.pageTable pageId = none → lsn ∈ (s.disk pageId).applied)

/-- Every logged change is pending or applied; one that is not on disk is no older than its dirty mark. -/
structure Recorded (s : BufferPool) : Prop where
  complete : ∀ r ∈ s.history, ∀ change, r.kind.pageChange = some change →
    (∃ u ∈ s.pending, u.lsn = r.lsn ∧ u.pageId = change.1) ∨ s.Applied change.1 r.lsn
  recovery : ∀ f p, s.index.framePage f = some p → ∀ lsn ∈ (s.frames f).image.applied,
    lsn ∈ (s.disk p).applied ∨ (s.frames f).dirtySinceLsn ≤ lsn
  dirtyBound : ∀ f p, s.index.framePage f = some p → (s.frames f).dirtySinceLsn < s.log.nextLsn
  dirtyPending : ∀ f p, s.index.framePage f = some p → (s.frames f).dirtySinceLsn ≤ s.pageLsn f ∨
    ∀ u ∈ s.pending, u.pageId = p → (s.frames f).dirtySinceLsn ≤ u.lsn
  createdBound : ∀ t p lsn, (s.tasks t).creates = some (p, lsn) → lsn < s.log.nextLsn
  createdPending : ∀ t p lsn, (s.tasks t).creates = some (p, lsn) →
    ∀ u ∈ s.pending, u.pageId = p → lsn ≤ u.lsn

namespace Recorded

section
variable (recorded : Recorded s)
include recorded

theorem of_eq (frames : s'.frames = s.frames) (disk : s'.disk = s.disk)
    (history : s'.history = s.history) (pending : s'.pending = s.pending)
    (nextLsn : s'.log.nextLsn = s.log.nextLsn) (framePage : s'.index.framePage = s.index.framePage)
    (pageTable : s'.index.pageTable = s.index.pageTable)
    (creates : ∀ t x, (s'.tasks t).creates = some x → (s.tasks t).creates = some x) : Recorded s' where
  complete := by
    unfold Applied
    rw [history, pending, frames, disk, framePage, pageTable]
    exact recorded.complete
  recovery := by rw [framePage, frames, disk]; exact recorded.recovery
  dirtyBound := by rw [framePage, frames, nextLsn]; exact recorded.dirtyBound
  dirtyPending := by
    simp only [pageLsn, framePage, frames, pending]
    exact recorded.dirtyPending
  createdBound := by
    rw [nextLsn]
    exact fun t p lsn created => recorded.createdBound t p lsn (creates t _ created)
  createdPending := by
    rw [pending]
    exact fun t p lsn created => recorded.createdPending t p lsn (creates t _ created)

theorem of_unmoved (unmoved : Unmoved a s s') : Recorded s' :=
  recorded.of_eq unmoved.frames unmoved.disk unmoved.history unmoved.pending (congrArg _ unmoved.log) unmoved.framePage
    unmoved.pageTable unmoved.creates

theorem append {pending : List PendingChange}
    (added : ∀ u ∈ pending, u ∈ s.pending ∨ u.lsn = s.log.nextLsn) (kept : s.pending ⊆ pending)
    (logged : ∀ change, kind.pageChange = some change →
      ∃ u ∈ pending, u.lsn = s.log.nextLsn ∧ u.pageId = change.1) :
    Recorded { s.appendLog txnId kind with pending } where
  complete := by
    intro r member change changes
    rcases List.mem_append.mp member with old | new
    · rcases recorded.complete r old change changes with ⟨u, inPending, same⟩ | applied
      · exact .inl ⟨u, kept inPending, same⟩
      · exact .inr applied
    · simp only [List.mem_singleton] at new
      subst new
      exact .inl (logged change changes)
  recovery := recorded.recovery
  dirtyBound := fun f p mapped =>
    Nat.lt_of_lt_of_le (recorded.dirtyBound f p mapped) (Nat.le_add_right _ _)
  dirtyPending := by
    intro f p mapped
    rcases recorded.dirtyPending f p mapped with below | before
    · exact .inl below
    · refine .inr fun u member samePage => ?_
      rcases added u member with old | new
      · exact before u old samePage
      · rw [new]
        exact Nat.le_of_lt (recorded.dirtyBound f p mapped)
  createdBound := fun t p lsn created =>
    Nat.lt_of_lt_of_le (recorded.createdBound t p lsn created) (Nat.le_add_right _ _)
  createdPending := by
    intro t p lsn created u member samePage
    rcases added u member with old | new
    · exact recorded.createdPending t p lsn created u old samePage
    · rw [new]
      exact Nat.le_of_lt (recorded.createdBound t p lsn created)

theorem appendQuiet (quiet : kind.pageChange = none) : Recorded (s.appendLog txnId kind) :=
  recorded.append (fun _ member => Or.inl member) (List.Subset.refl _)
    fun change changes => by simp [quiet] at changes

theorem applyChange {change : PendingChange} (inv : PoolInvariant s)
    (member : change ∈ s.pending) (mapped : s.index.framePage f = some change.pageId)
    (later : s.pageLsn f < change.lsn) : Recorded (s.applyChange f change) := by
  have only : ∀ f', s.index.framePage f' = some change.pageId → f' = f := by
    intro f' mapped'
    have := inv.residency.mapping.frameTable f' _ mapped'
    rw [inv.residency.mapping.frameTable f _ mapped] at this
    exact (Option.some.inj this).symm
  have bound := inv.logged.pendingBound change member
  have since : (s.frames f).dirtySinceLsn ≤ change.lsn := by
    rcases recorded.dirtyPending f _ mapped with below | before
    · exact Nat.le_trans below (Nat.le_of_lt later)
    · exact before change member rfl
  refine ⟨?_, ?_, ?_, ?_, recorded.createdBound,
    fun t p lsn created u erased => recorded.createdPending t p lsn created u (List.mem_of_mem_erase erased)⟩
  · intro r logged page changes
    rcases recorded.complete r logged page changes with ⟨u, inPending, sameLsn, samePage⟩ | applied
    · by_cases mine : u = change
      · subst mine
        refine .inr ⟨?_, ?_⟩
        · intro f' mapped'
          obtain rfl := only f' (samePage ▸ mapped')
          simp [BufferPool.applyChange, Frame.change, Image.change, sameLsn]
        · intro absent
          have absent : s.index.pageTable page.1 = none := absent
          rw [← samePage, inv.residency.mapping.frameTable f _ mapped] at absent
          simp at absent
      · exact .inl ⟨u, (List.mem_erase_of_ne mine).mpr inPending, sameLsn, samePage⟩
    · refine .inr ⟨?_, applied.2⟩
      intro f' mapped'
      by_cases mine : f' = f
      · subst mine
        have := applied.1 f' mapped'
        simp [BufferPool.applyChange, Frame.change, Image.change, this]
      · simp only [BufferPool.applyChange, update_of_ne mine]
        exact applied.1 f' mapped'
  · intro f' p mapped' lsn inFrame
    by_cases mine : f' = f
    · subst mine
      simp only [BufferPool.applyChange, update_self, Frame.change, Image.change,
        List.mem_append, List.mem_singleton] at inFrame ⊢
      rcases inFrame with old | rfl
      · split
        · rename_i clean
          have same := (inv.images.ahead f' p mapped').same (inv.images.clean f' p mapped' clean).symm
          exact .inl (same.applied ▸ old)
        · exact recorded.recovery f' p mapped' lsn old
      · refine .inr ?_
        split <;> omega
    · simp only [BufferPool.applyChange, update_of_ne mine] at inFrame ⊢
      exact recorded.recovery f' p mapped' lsn inFrame
  · intro f' p mapped'
    have old := recorded.dirtyBound f' p mapped'
    by_cases mine : f' = f
    · subst mine
      simp only [BufferPool.applyChange, update_self, Frame.change]
      split <;> omega
    · simpa only [BufferPool.applyChange, update_of_ne mine] using old
  · intro f' p mapped'
    by_cases mine : f' = f
    · subst mine
      refine .inl ?_
      simp only [pageLsn, BufferPool.applyChange, update_self, Frame.change, Image.change]
      split <;> omega
    · simp only [pageLsn, BufferPool.applyChange, update_of_ne mine]
      rcases recorded.dirtyPending f' p mapped' with below | before
      · exact .inl below
      · exact .inr fun u erased => before u (List.mem_of_mem_erase erased)

theorem install {image : Image} {dirtySinceLsn : Nat} (residency : Residency s)
    (brings : (s.tasks t).brings = some p) (fromDisk : Image.Same image (s.disk p))
    (mark : dirtySinceLsn = 0 ∨ (s.tasks t).creates = some (p, dirtySinceLsn)) (positive : 0 < s.log.nextLsn) :
    Recorded (s.install f p image dirtySinceLsn) := by
  rw [residency.install_eq brings]
  have absent := (residency.duties.bringer t p brings).1
  refine ⟨?_, ?_, ?_, ?_, recorded.createdBound, recorded.createdPending⟩
  · intro r logged change changes
    rcases recorded.complete r logged change changes with pending | applied
    · exact .inl pending
    · refine .inr ⟨?_, ?_⟩
      · intro f' mapped
        by_cases mine : f' = f
        · subst mine
          simp only [update_self, Option.some.injEq] at mapped ⊢
          rw [fromDisk.applied, mapped]
          exact applied.2 (mapped ▸ absent)
        · simp only [update_of_ne mine] at mapped ⊢
          exact applied.1 f' mapped
      · intro missing
        by_cases mine : change.1 = p
        · simp [mine] at missing
        · simp only [update_of_ne mine] at missing
          exact applied.2 missing
  · intro f' p' mapped lsn inFrame
    by_cases mine : f' = f
    · subst mine
      simp only [update_self, Option.some.injEq] at mapped inFrame ⊢
      exact .inl (mapped ▸ fromDisk.applied ▸ inFrame)
    · simp only [update_of_ne mine] at mapped inFrame ⊢
      exact recorded.recovery f' p' mapped lsn inFrame
  · intro f' p' mapped
    by_cases mine : f' = f
    · subst mine
      simp only [update_self]
      rcases mark with rfl | created
      · exact positive
      · exact recorded.createdBound t p _ created
    · simp only [update_of_ne mine] at mapped ⊢
      exact recorded.dirtyBound f' p' mapped
  · intro f' p' mapped
    by_cases mine : f' = f
    · subst mine
      simp only [update_self, Option.some.injEq] at mapped ⊢
      rcases mark with rfl | created
      · exact .inl (Nat.zero_le _)
      · exact .inr fun u pending samePage =>
          recorded.createdPending t p _ created u pending (mapped ▸ samePage)
    · simp only [pageLsn, update_of_ne mine] at mapped ⊢
      exact recorded.dirtyPending f' p' mapped

theorem completeEviction {index : PoolIndex} (images : Images s)
    (mapped : s.index.framePage f = some p) (clean : (s.frames f).dirtySinceLsn = 0)
    (pageTable : index.pageTable = update s.index.pageTable p none)
    (framePage : index.framePage = update s.index.framePage f none) : Recorded { s with index } := by
  have onDisk : Image.Same (s.disk p) (s.frames f).image :=
    (images.ahead f p mapped).same (images.clean f p mapped clean).symm
  have still : ∀ f' p', index.framePage f' = some p' → s.index.framePage f' = some p' := by
    intro f' p' mapped'
    by_cases mine : f' = f
    · simp [framePage, mine] at mapped'
    · simpa only [framePage, update_of_ne mine] using mapped'
  refine ⟨?_, fun f' p' mapped' => recorded.recovery f' p' (still f' p' mapped'),
    fun f' p' mapped' => recorded.dirtyBound f' p' (still f' p' mapped'),
    fun f' p' mapped' => recorded.dirtyPending f' p' (still f' p' mapped'),
    recorded.createdBound, recorded.createdPending⟩
  intro r logged change changes
  rcases recorded.complete r logged change changes with pending | applied
  · exact .inl pending
  · refine .inr ⟨fun f' mapped' => applied.1 f' (still f' _ mapped'), ?_⟩
    intro missing
    by_cases mine : change.1 = p
    · have := applied.1 f (mine ▸ mapped)
      rw [mine]
      exact onDisk.applied ▸ this
    · simp only [pageTable, update_of_ne mine] at missing
      exact applied.2 missing

theorem writeSnapshot (frames : s'.frames = s.frames) (index : s'.index = s.index)
    (history : s'.history = s.history) (pending : s'.pending = s.pending) (tasks : s'.tasks = s.tasks)
    (nextLsn : s'.log.nextLsn = s.log.nextLsn) (disk : ∀ p, Image.Behind (s.disk p) (s'.disk p)) :
    Recorded s' where
  complete := by
    rw [history, pending]
    intro r logged change changes
    rcases recorded.complete r logged change changes with inPending | applied
    · exact .inl inPending
    · refine .inr ⟨?_, ?_⟩
      · rw [index, frames]
        exact applied.1
      · rw [index]
        exact fun missing => (disk _).applied (applied.2 missing)
  recovery := by
    rw [index, frames]
    intro f p mapped lsn inFrame
    rcases recorded.recovery f p mapped lsn inFrame with onDisk | since
    · exact .inl ((disk p).applied onDisk)
    · exact .inr since
  dirtyBound := by rw [index, frames, nextLsn]; exact recorded.dirtyBound
  dirtyPending := by
    simp only [pageLsn, index, frames, pending]
    exact recorded.dirtyPending
  createdBound := by rw [tasks, nextLsn]; exact recorded.createdBound
  createdPending := by rw [tasks, pending]; exact recorded.createdPending

theorem clearDirty {written : List (Nat × Image)} {lease : Option Lease} :
    Recorded { s with frames := clearMarks s.frames written, lease } := by
  have lower : ∀ f, (clearMarks s.frames written f).dirtySinceLsn ≤ (s.frames f).dirtySinceLsn := by
    intro f
    rcases clearMarks_dirty s.frames written f with kept | ⟨cleared, -⟩ <;> omega
  refine ⟨?_, ?_, ?_, ?_, recorded.createdBound, recorded.createdPending⟩
  · simpa only [Applied, clearMarks_image] using recorded.complete
  · intro f p mapped lsn inFrame
    rw [clearMarks_image] at inFrame
    rcases recorded.recovery f p mapped lsn inFrame with onDisk | since
    · exact .inl onDisk
    · exact .inr (Nat.le_trans (lower f) since)
  · exact fun f p mapped => Nat.lt_of_le_of_lt (lower f) (recorded.dirtyBound f p mapped)
  · intro f p mapped
    simp only [pageLsn, clearMarks_image]
    rcases recorded.dirtyPending f p mapped with below | before
    · exact .inl (Nat.le_trans (lower f) below)
    · exact .inr fun u pending samePage => Nat.le_trans (lower f) (before u pending samePage)

theorem newPage (logged : Logged s) :
    Recorded (({ s with nextPageId := s.nextPageId + 1 }.appendLog txnId (.allocPage s.nextPageId)).setTask t
      (.needFrame (.newPage s.nextPageId s.log.nextLsn))) := by
  have appended : Recorded (s.appendLog txnId (.allocPage s.nextPageId)) := recorded.appendQuiet rfl
  have longer := (LogRecordKind.allocPage s.nextPageId).encodedLen_pos
  have created : ∀ t' x, (update s.tasks t (.needFrame (.newPage s.nextPageId s.log.nextLsn)) t').creates = some x →
      (t' = t ∧ x = (s.nextPageId, s.log.nextLsn)) ∨ (s.tasks t').creates = some x := by
    intro t' x creates
    by_cases mine : t' = t
    · subst mine
      simp only [update_self, Task.creates, Task.caller, Caller.created, Option.bind_some,
        Option.some.injEq] at creates
      exact .inl ⟨rfl, creates.symm⟩
    · rw [update_of_ne mine] at creates
      exact .inr creates
  refine ⟨appended.complete, appended.recovery, appended.dirtyBound, appended.dirtyPending, ?_, ?_⟩
  · intro t' p lsn creates
    rcases created t' _ creates with ⟨-, equal⟩ | old
    · cases equal
      exact Nat.lt_add_of_pos_right longer
    · exact appended.createdBound t' p lsn old
  · intro t' p lsn creates u pending samePage
    rcases created t' _ creates with ⟨-, equal⟩ | old
    · cases equal
      have := (logged.pendingBound u pending).2.2
      omega
    · exact appended.createdPending t' p lsn old u pending samePage

theorem step (inv : PoolInvariant s) (allowed : Disciplined s a) (action : s.step a = some s') : Recorded s' := by
  have residency := inv.residency
  cases a with
  | fetchFrame | popFreeFrame | chooseVictim | frameTimeout | examineVictim | abortEviction | readPage | finishFetch
  | setEvictable | flushPage | flushAll | activeSnapshot | dirtyPageTable =>
    exact recorded.of_unmoved (step_unmoved action rfl)
  | beginTxn | endTxn | checkpointBegin | checkpointEnd =>
    obtain ⟨txnId, kind, quiet, unmoved⟩ := step_recorded action rfl
    exact (recorded.appendQuiet quiet).of_unmoved unmoved
  | completeEviction t =>
    obtain ⟨caller, frameId, v, task, finished, rfl⟩ := completeEviction_cases action
    have mapped := residency.duties.evictor t frameId v (by rw [task]; rfl)
    have clean := inv.evictions.flushed t caller frameId v task finished
    exact (recorded.completeEviction inv.images mapped clean rfl rfl).of_eq rfl rfl rfl rfl rfl rfl rfl
      fun t' _ => creates_update (Or.inr (Task.creates_of_caller (by rw [task]; rfl))) t'
  | tryInstall t =>
    obtain ⟨pageId, frameId, image, task, rfl⟩ | ⟨pageId, lsn, frameId, task, rfl⟩ :=
      tryInstall_cases action
    all_goals have brings : (s.tasks t).brings = some pageId := by rw [task]; rfl
    · have installed := @recorded.install _ t frameId pageId image 0 residency brings
        (inv.images.loaded t _ _ _ task) (Or.inl rfl) inv.logged.positive
      refine installed.of_eq rfl rfl rfl rfl rfl rfl rfl fun t' _ => ?_
      exact creates_update (Or.inl rfl) t'
    · have created : (s.tasks t).creates = some (pageId, lsn) := by rw [task]; rfl
      have installed := @recorded.install _ t frameId pageId _ lsn residency brings
        (inv.images.creating t pageId lsn created) (Or.inr created) inv.logged.positive
      refine installed.of_eq rfl rfl rfl rfl rfl rfl rfl fun t' _ => ?_
      exact creates_update (Or.inl rfl) t'
  | newPage =>
    obtain ⟨-, -, rfl⟩ := newPage_cases action
    exact recorded.newPage inv.logged
  | unpinFrame =>
    obtain ⟨-, -, unpinning, rfl⟩ := unpinFrame_cases action
    exact recorded.of_eq rfl rfl rfl rfl rfl rfl rfl fun _ _ => id
  | beginFlush =>
    obtain ⟨batch, rest, -, -, -, rfl⟩ := beginFlush_cases action
    exact recorded.of_eq rfl rfl rfl rfl rfl rfl rfl fun _ _ => id
  | writeSnapshot =>
    have behind := disk_behind inv action
    obtain ⟨lease, -, -, -, rfl⟩ := writeSnapshot_cases action
    exact recorded.writeSnapshot rfl rfl rfl rfl rfl (LogManager.flush_nextLsn _ _) behind
  | clearDirty =>
    obtain ⟨lease, -, -, -, rfl⟩ := clearDirty_cases action
    exact recorded.clearDirty
  | appendUpdate | appendClr =>
    obtain ⟨txnId, kind, change, new, pages, rfl⟩ := step_appends action rfl
    exact recorded.append (fun u => mem_added new) (List.subset_cons_self _ _) fun written changes =>
      ⟨change, List.mem_cons_self, new, pages written changes⟩
  | applyUpdate | stampWrite =>
    obtain ⟨change, member, frameId, guarded, older, rfl⟩ := inv.logged.step_applies allowed action rfl
    exact recorded.applyChange inv member (residency.mapping.guarded _ _ guarded).1 older

end

end Recorded

def Covers (s : BufferPool) (beginLsn : Nat) (dpt : List (Nat × Nat)) : Prop :=
  ∀ r ∈ s.history, r.lsn < beginLsn → ∀ change, r.kind.pageChange = some change →
    r.lsn ∈ (s.disk change.1).applied ∨ ∃ recoveryLsn, (change.1, recoveryLsn) ∈ dpt ∧ recoveryLsn ≤ r.lsn

structure Checkpointed (s : BufferPool) : Prop where
  taking : ∀ t beginLsn dpt, (s.tasks t).checkpoint = some (beginLsn, dpt) →
    beginLsn < s.log.nextLsn ∧ ∀ table ∈ dpt, s.Covers beginLsn table
  completed : ∀ c ∈ s.checkpoints, c.beginLsn < s.log.nextLsn ∧ s.Covers c.beginLsn c.dpt

structure Quiet (s s' : BufferPool) : Prop where
  nextLsn : s.log.nextLsn ≤ s'.log.nextLsn
  history : ∀ r ∈ s'.history, r ∈ s.history ∨ r.lsn = s.log.nextLsn
  checkpoints : s'.checkpoints = s.checkpoints
  taking : ∀ t x, (s'.tasks t).checkpoint = some x → (s.tasks t).checkpoint = some x

theorem Quiet.of_eq (nextLsn : s'.log.nextLsn = s.log.nextLsn) (history : s'.history = s.history)
    (checkpoints : s'.checkpoints = s.checkpoints)
    (taking : ∀ t x, (s'.tasks t).checkpoint = some x → (s.tasks t).checkpoint = some x) : Quiet s s' :=
  ⟨Nat.le_of_eq nextLsn.symm, fun _ member => Or.inl (history ▸ member), checkpoints, taking⟩

theorem Quiet.append (log : s'.log = s.log.append txnId kind)
    (history : s'.history = s.history ++ [s.log.nextRecord txnId kind]) (checkpoints : s'.checkpoints = s.checkpoints)
    (taking : ∀ t x, (s'.tasks t).checkpoint = some x → (s.tasks t).checkpoint = some x) : Quiet s s' := by
  refine ⟨log ▸ Nat.le_add_right _ _, ?_, checkpoints, taking⟩
  intro r member
  rw [history] at member
  rcases List.mem_append.mp member with old | new
  · exact .inl old
  · exact .inr (List.mem_singleton.mp new ▸ rfl)

theorem step_quiet (action : s.step a = some s') (other : ¬ a.ofCheckpoint) : Quiet s s' := by
  cases a with
  | checkpointBegin | activeSnapshot | dirtyPageTable | checkpointEnd => exact absurd trivial other
  | fetchFrame | popFreeFrame | chooseVictim | frameTimeout | examineVictim | abortEviction | readPage | finishFetch
  | setEvictable | flushPage | flushAll =>
    have unmoved := step_unmoved action rfl
    exact .of_eq (congrArg _ unmoved.log) unmoved.history (unmoved.checkpoint other).1 (unmoved.checkpoint other).2
  | beginTxn | endTxn =>
    obtain ⟨txnId, kind, -, unmoved⟩ := step_recorded action rfl
    exact .append unmoved.log unmoved.history (unmoved.checkpoint other).1 (unmoved.checkpoint other).2
  | completeEviction =>
    obtain ⟨caller, frameId, v, -, -, rfl⟩ := completeEviction_cases action
    exact .of_eq rfl rfl rfl fun t' _ => checkpoint_update rfl t'
  | tryInstall =>
    obtain ⟨frames, index, guards, task, rfl | ⟨pageId, rfl⟩, rfl⟩ := tryInstall_frame action
    all_goals exact .of_eq rfl rfl rfl fun t' _ => checkpoint_update rfl t'
  | newPage =>
    obtain ⟨-, -, rfl⟩ := newPage_cases action
    exact .append rfl rfl rfl fun t' _ => checkpoint_update rfl t'
  | unpinFrame =>
    obtain ⟨-, -, unpinning, rfl⟩ := unpinFrame_cases action
    exact .of_eq rfl rfl rfl fun _ _ => id
  | beginFlush =>
    obtain ⟨batch, rest, -, -, -, rfl⟩ := beginFlush_cases action
    exact .of_eq rfl rfl rfl fun _ _ => id
  | writeSnapshot =>
    obtain ⟨lease, -, -, -, rfl⟩ := writeSnapshot_cases action
    exact .of_eq (LogManager.flush_nextLsn _ _) rfl rfl fun _ _ => id
  | clearDirty =>
    obtain ⟨lease, -, -, -, rfl⟩ := clearDirty_cases action
    exact .of_eq rfl rfl rfl fun _ _ => id
  | appendUpdate | appendClr =>
    obtain ⟨txnId, kind, change, -, -, rfl⟩ := step_appends action rfl
    exact .append rfl rfl rfl fun _ _ => id
  | applyUpdate | stampWrite =>
    obtain ⟨change, -, frameId, rfl⟩ := step_applies action rfl
    exact .of_eq rfl rfl rfl fun _ _ => id

theorem Covers.mono {beginLsn : Nat} {dpt : List (Nat × Nat)} (covers : s.Covers beginLsn dpt)
    (earlier : beginLsn < s.log.nextLsn) (history : ∀ r ∈ s'.history, r ∈ s.history ∨ r.lsn = s.log.nextLsn)
    (disk : ∀ p, Image.Behind (s.disk p) (s'.disk p)) : s'.Covers beginLsn dpt := by
  intro r member below change changes
  rcases history r member with old | new
  · rcases covers r old below change changes with onDisk | listed
    · exact .inl ((disk _).applied onDisk)
    · exact .inr listed
  · omega

namespace Checkpointed

theorem of_quiet (checkpointed : Checkpointed s) (quiet : Quiet s s')
    (disk : ∀ p, Image.Behind (s.disk p) (s'.disk p)) : Checkpointed s' where
  taking := by
    intro t beginLsn dpt taking
    obtain ⟨earlier, covers⟩ := checkpointed.taking t beginLsn dpt (quiet.taking t _ taking)
    exact ⟨Nat.lt_of_lt_of_le earlier quiet.nextLsn,
      fun table isTable => (covers table isTable).mono earlier quiet.history disk⟩
  completed := by
    rw [quiet.checkpoints]
    intro c member
    obtain ⟨earlier, covers⟩ := checkpointed.completed c member
    exact ⟨Nat.lt_of_lt_of_le earlier quiet.nextLsn, covers.mono earlier quiet.history disk⟩

theorem retask {task : Task} (checkpointed : Checkpointed s)
    (moves : ∀ beginLsn dpt, task.checkpoint = some (beginLsn, dpt) →
      beginLsn < s.log.nextLsn ∧ ∀ table ∈ dpt, s.Covers beginLsn table) :
    Checkpointed (s.setTask t task) where
  taking := by
    intro t' beginLsn dpt taking
    by_cases mine : t' = t
    · subst mine
      simp only [setTask, update_self] at taking
      exact moves beginLsn dpt taking
    · simp only [setTask, update_of_ne mine] at taking
      exact checkpointed.taking t' beginLsn dpt taking
  completed := checkpointed.completed

end Checkpointed

theorem dirtyTable_covers {beginLsn : Nat} (inv : PoolInvariant s) (recorded : Recorded s)
    (marked : ∀ u ∈ s.pending, u.lsn < beginLsn → ∃ f, s.index.pageTable u.pageId = some f ∧
      (s.frames f).dirtySinceLsn ≠ 0 ∧ (s.frames f).dirtySinceLsn ≤ u.lsn) : s.Covers beginLsn s.dirtyTable := by
  have listed : ∀ f p, s.index.framePage f = some p → (s.frames f).dirtySinceLsn ≠ 0 →
      (p, (s.frames f).dirtySinceLsn) ∈ s.dirtyTable := by
    intro f p mapped dirty
    refine List.mem_map.mpr ⟨(f, p, (s.frames f).dirtySinceLsn), ?_, rfl⟩
    refine List.mem_filterMap.mpr ⟨f, List.mem_range.mpr (inv.residency.mapping.mappedBound f p mapped), ?_⟩
    simp [mapped, dirty]
  intro r member below change changes
  rcases recorded.complete r member change changes with ⟨u, pending, sameLsn, samePage⟩ | applied
  · obtain ⟨f, resident, dirty, since⟩ := marked u pending (sameLsn ▸ below)
    have mapped := inv.residency.mapping.tableFrame _ _ resident
    exact .inr ⟨_, listed f change.1 (samePage ▸ mapped) dirty, sameLsn ▸ since⟩
  · cases resident : s.index.pageTable change.1 with
    | none => exact .inl (applied.2 resident)
    | some f =>
      have mapped := inv.residency.mapping.tableFrame _ _ resident
      have inFrame := applied.1 f mapped
      by_cases clean : (s.frames f).dirtySinceLsn = 0
      · have equal := inv.images.clean f _ mapped clean
        have same := (inv.images.ahead f _ mapped).same equal.symm
        exact .inl (same.applied ▸ inFrame)
      · rcases recorded.recovery f _ mapped r.lsn inFrame with onDisk | since
        · exact .inl onDisk
        · exact .inr ⟨_, listed f _ mapped clean, since⟩

/-- When the dirty page table is read, no change below the checkpoint's begin is pending, unless its page is marked
dirty since no later than the change. -/
def CheckpointSafe (s : BufferPool) (a : PoolAction) : Prop :=
  Disciplined s a ∧ ∀ t beginLsn att, a = .dirtyPageTable t → s.tasks t = .activeRead beginLsn att →
    ∀ u ∈ s.pending, u.lsn < beginLsn → ∃ f, s.index.pageTable u.pageId = some f ∧
      (s.frames f).dirtySinceLsn ≠ 0 ∧ (s.frames f).dirtySinceLsn ≤ u.lsn

theorem Checkpointed.step (checkpointed : Checkpointed s) (inv : PoolInvariant s) (recorded : Recorded s)
    (allowed : CheckpointSafe s a) (action : s.step a = some s') : Checkpointed s' := by
  have behind := disk_behind inv action
  by_cases other : a.ofCheckpoint
  · cases a with
    | checkpointBegin t =>
      obtain ⟨-, -, rfl⟩ := checkpointBegin_cases action
      have appended : Checkpointed (s.appendLog CHECKPOINT_TXN .checkpointBegin) :=
        checkpointed.of_quiet (.append rfl rfl rfl fun _ _ => id) fun _ => Image.Behind.refl _
      refine appended.retask ?_
      rintro _ _ ⟨⟩
      exact ⟨Nat.lt_add_of_pos_right (LogRecordKind.encodedLen_pos _), by simp⟩
    | activeSnapshot t =>
      obtain ⟨beginLsn, task, rfl⟩ := activeSnapshot_cases action
      refine checkpointed.retask ?_
      rintro _ _ ⟨⟩
      exact checkpointed.taking t beginLsn none (by rw [task]; rfl)
    | dirtyPageTable t =>
      obtain ⟨beginLsn, att, task, rfl⟩ := dirtyPageTable_cases action
      refine checkpointed.retask ?_
      rintro _ _ ⟨⟩
      refine ⟨(checkpointed.taking t beginLsn none (by rw [task]; rfl)).1, ?_⟩
      rintro _ ⟨⟩
      exact dirtyTable_covers inv recorded (allowed.2 t beginLsn att rfl task)
    | checkpointEnd t =>
      obtain ⟨beginLsn, att, dpt, task, rfl⟩ := checkpointEnd_cases action
      have appended : Checkpointed (s.appendLog CHECKPOINT_TXN (.checkpointEnd att dpt)) :=
        checkpointed.of_quiet (.append rfl rfl rfl fun _ _ => id) fun _ => Image.Behind.refl _
      have ended : Checkpointed ((s.appendLog CHECKPOINT_TXN (.checkpointEnd att dpt)).setTask t .idle) :=
        appended.retask (by rintro _ _ ⟨⟩)
      refine ⟨ended.taking, ?_⟩
      intro c member
      rcases List.mem_cons.mp member with rfl | old
      · obtain ⟨earlier, covers⟩ := appended.taking t beginLsn (some dpt) (by
          change (s.tasks t).checkpoint = _
          rw [task]; rfl)
        exact ⟨earlier, covers dpt rfl⟩
      · exact ended.completed c old
    | _ => exact absurd other id
  · exact checkpointed.of_quiet (step_quiet action other) behind

theorem Recorded.init (initial : system.init s) : Recorded s := by
  obtain ⟨poolSize, dwbCapacity, pages, lsns, log, rfl, -, -⟩ := initial
  constructor <;> simp [start, Task.creates, Task.caller]

theorem Checkpointed.init (initial : system.init s) : Checkpointed s := by
  obtain ⟨poolSize, dwbCapacity, pages, lsns, log, rfl, -, -⟩ := initial
  constructor <;> simp [start, Task.checkpoint]

theorem checkpoint_hides_no_change (reachable : system.ReachableBy CheckpointSafe s) :
    ∀ c ∈ s.checkpoints, s.Covers c.beginLsn c.dpt := by
  have all : PoolInvariant s ∧ Recorded s ∧ Checkpointed s := by
    refine reachable.invariant (P := fun s => PoolInvariant s ∧ Recorded s ∧ Checkpointed s)
      (fun s initial => ⟨.init initial, .init initial, .init initial⟩) ?_
    rintro s a s' ⟨inv, recorded, checkpointed⟩ allowed action
    exact ⟨inv.step allowed.1 action, recorded.step inv allowed.1 action,
      checkpointed.step inv recorded allowed action⟩
  exact fun c member => (all.2.2.completed c member).2

def takeCheckpoint (thread : Nat) : List PoolAction :=
  [.checkpointBegin thread, .activeSnapshot thread, .dirtyPageTable thread, .checkpointEnd thread]

theorem checkpoint_hides_no_change_applied :
    ∃ s, system.ReachableBy CheckpointSafe s ∧ (∃ c ∈ s.checkpoints, c.dpt = [(1, 16)]) ∧
      ∀ c ∈ s.checkpoints, s.Covers c.beginLsn c.dpt := by
  have found : ((system.run smallPool (load 0 1 ++
      [.appendUpdate 7 1 1 100 [1], .applyUpdate 16, .checkpointBegin 1, .activeSnapshot 1])).any fun s =>
        decide (s.pending = []) && (system.run s [.dirtyPageTable 1, .checkpointEnd 1]).any fun s' =>
          decide (∃ c ∈ s'.checkpoints, c.dpt = [(1, 16)])) = true := by decide +kernel
  obtain ⟨s, executed, found⟩ := (Option.any_eq_true _ _).mp found
  obtain ⟨nothing, found⟩ := (Bool.and_eq_true_iff).mp found
  obtain ⟨s', ended, found⟩ := (Option.any_eq_true _ _).mp found
  obtain ⟨announced, first, rest⟩ := Option.bind_eq_some_iff.mp executed
  obtain ⟨read, dirty, last⟩ := Option.bind_eq_some_iff.mp ended
  have nothing : s.pending = [] := of_decide_eq_true nothing
  have fetches : CheckpointSafe smallPool (.fetchFrame 0 1) :=
    ⟨⟨by decide, by simp [smallPool, start, Task.creates, Task.caller]⟩, by simp⟩
  have reachable : system.ReachableBy CheckpointSafe s :=
    .run (.next (.start smallPool_init) fetches first) rest (by simp [CheckpointSafe, Disciplined])
  have reads : CheckpointSafe s (.dirtyPageTable 1) := ⟨trivial, by simp [nothing]⟩
  have reachable : system.ReachableBy CheckpointSafe s' :=
    .run (.next reachable reads dirty) last (by simp [CheckpointSafe, Disciplined])
  exact ⟨s', reachable, of_decide_eq_true found, checkpoint_hides_no_change reachable⟩

theorem checkpoint_hides_pending_change :
    ∃ s, system.Reachable s ∧ ∃ c ∈ s.checkpoints, ¬ s.Covers c.beginLsn c.dpt := by
  have found : (system.run smallPool
      (load 0 1 ++ [.appendUpdate 7 1 1 100 [1]] ++ takeCheckpoint 1)).any (fun s =>
        decide (∃ c ∈ s.checkpoints, ∃ r ∈ s.history, r.lsn < c.beginLsn ∧
          r.kind.pageChange = some (1, 100, [1]) ∧ r.lsn ∉ (s.disk 1).applied ∧ c.dpt = [])) = true := by
    decide +kernel
  obtain ⟨s, executed, found⟩ := (Option.any_eq_true _ _).mp found
  obtain ⟨c, completed, r, logged, below, changes, missing, empty⟩ := of_decide_eq_true found
  refine ⟨s, .run (.start smallPool_init) executed fun _ _ _ => trivial, c, completed, ?_⟩
  intro covers
  rcases covers r logged below _ changes with onDisk | ⟨recoveryLsn, listed, -⟩
  · exact missing onDisk
  · simp [empty] at listed

/-- Once a logged change has been applied its frame has it, and until the disk has it too its page is marked dirty since
no later than the change. -/
theorem no_change_lost (reachable : system.ReachableBy Disciplined s) {r : LoggedRecord} (logged : r ∈ s.history)
    {change : Nat × Nat × List UInt8} (changes : r.kind.pageChange = some change)
    (settled : ∀ u ∈ s.pending, u.lsn ≠ r.lsn) :
    (∀ f, s.index.framePage f = some change.1 → r.lsn ∈ (s.frames f).image.applied) ∧
    (r.lsn ∈ (s.disk change.1).applied ∨ ∃ f, s.index.pageTable change.1 = some f ∧
      (s.frames f).dirtySinceLsn ≠ 0 ∧ (s.frames f).dirtySinceLsn ≤ r.lsn) := by
  obtain ⟨inv, recorded⟩ : PoolInvariant s ∧ Recorded s := by
    refine reachable.invariant (P := fun s => PoolInvariant s ∧ Recorded s)
      (fun s initial => ⟨.init initial, .init initial⟩) ?_
    rintro s a s' ⟨inv, recorded⟩ allowed action
    exact ⟨inv.step allowed action, recorded.step inv allowed action⟩
  rcases recorded.complete r logged change changes with ⟨u, pending, same, -⟩ | applied
  · exact absurd same (settled u pending)
  refine ⟨applied.1, ?_⟩
  cases resident : s.index.pageTable change.1 with
  | none => exact .inl (applied.2 resident)
  | some f =>
    have mapped := inv.residency.mapping.tableFrame _ _ resident
    rcases recorded.recovery f _ mapped r.lsn (applied.1 f mapped) with onDisk | since
    · exact .inl onDisk
    by_cases clean : (s.frames f).dirtySinceLsn = 0
    · have same := (inv.images.ahead f _ mapped).same (inv.images.clean f _ mapped clean).symm
      exact .inl (same.applied ▸ applied.1 f mapped)
    · exact .inr ⟨f, rfl, clean, since⟩

theorem no_change_lost_applied : ∃ s, system.ReachableBy Disciplined s ∧ (s.disk 1).applied = [] ∧
    ∃ f, s.index.pageTable 1 = some f ∧ (s.frames f).dirtySinceLsn ≤ 16 := by
  have found : (system.run smallPool (load 0 1 ++ [.appendUpdate 7 1 1 100 [1], .applyUpdate 16])).any (fun s =>
      decide ((s.disk 1).applied = [] ∧ s.pending = [] ∧ ∃ r ∈ s.history,
        r.lsn = 16 ∧ r.kind.pageChange = some (1, 100, [1]))) = true := by decide +kernel
  obtain ⟨s, executed, found⟩ := (Option.any_eq_true _ _).mp found
  obtain ⟨missing, nothing, r, logged, lsn, changes⟩ := of_decide_eq_true found
  obtain ⟨announced, first, rest⟩ := Option.bind_eq_some_iff.mp executed
  have allowed : Disciplined smallPool (.fetchFrame 0 1) :=
    ⟨by decide, by simp [smallPool, start, Task.creates, Task.caller]⟩
  have reachable : system.ReachableBy Disciplined s :=
    .run (.next (.start smallPool_init) allowed first) rest (by simp [Disciplined])
  rcases (no_change_lost reachable logged changes (by simp [nothing])).2 with onDisk | ⟨f, resident, -, since⟩
  · simp [missing] at onDisk
  · exact ⟨s, reachable, missing, f, resident, lsn ▸ since⟩

end BufferPool

end SimpleRdbms.Storage
