import SimpleRdbms.Storage.Buffer

namespace SimpleRdbms.Storage

def PoolAction.appends : PoolAction → Bool
  | .appendUpdate .. | .appendClr _ => true
  | _ => false

def PoolAction.applies : PoolAction → Bool
  | .applyUpdate _ | .stampWrite .. => true
  | _ => false

namespace BufferPool
open Function (update)

variable {s s' : BufferPool} {t : Nat} {f : Nat} {p : Nat} {lsn : Nat} {txnId : Nat}

theorem fetchFrame_cases (action : s.fetchFrame t p = some s') :
    s.tasks t = .idle ∧ s.inFlush t = false ∧ s.index.evicting p = false ∧
      ((∃ f, s.index.pageTable p = some f ∧ s' = s.pinLocked f p) ∨
        (s.index.pageTable p = none ∧ s.index.loading p = false ∧
          s' = { s with index := { s.index with loading := update s.index.loading p true } }.setTask t
            (.needFrame (.fetchPage p)))) := by
  unfold fetchFrame at action
  split at action
  · rename_i idle
    split at action
    · simp at action
    · rename_i ready
      simp only [Bool.or_eq_true, not_or, Bool.not_eq_true] at ready
      refine ⟨idle, ready.1, ready.2, ?_⟩
      split at action
      · rename_i frameId mapped
        exact .inl ⟨frameId, mapped, (Option.some.inj action).symm⟩
      · rename_i absent
        split at action
        · simp at action
        · rename_i unannounced
          exact .inr ⟨absent, by simpa using unannounced, (Option.some.inj action).symm⟩
  · simp at action

theorem popFreeFrame_cases (action : s.popFreeFrame t = some s') :
    ∃ caller frameId rest, s.tasks t = .needFrame caller ∧ s.index.freeList = frameId :: rest ∧
      s' = { s with
        index := { s.index with
          freeList := rest
          owned := update s.index.owned frameId true } }.setTask t (.ownsFrame caller frameId) := by
  unfold popFreeFrame at action
  split at action
  · rename_i caller frameId rest task free
    exact ⟨caller, frameId, rest, task, free, (Option.some.inj action).symm⟩
  · simp at action

theorem chooseVictim_cases (action : s.chooseVictim t f = some s') :
    ∃ caller, s.tasks t = .needFrame caller ∧ s.index.replacer f = some true ∧
      ((∃ v, s.index.framePage f = some v ∧
          s' = { s with
            index := { s.index with
              replacer := update s.index.replacer f none
              owned := update s.index.owned f true
              evicting := update s.index.evicting v true } }.setTask t (.victim caller f v)) ∨
        (s.index.framePage f = none ∧
          s' = { s with
            index := { s.index with
              replacer := update s.index.replacer f none
              owned := update s.index.owned f true } }.setTask t (.ownsFrame caller f))) := by
  unfold chooseVictim at action
  split at action
  · rename_i caller task _ evictable
    refine ⟨caller, task, evictable, ?_⟩
    split at action
    · rename_i v mapped
      exact .inl ⟨v, mapped, (Option.some.inj action).symm⟩
    · rename_i unmapped
      exact .inr ⟨unmapped, (Option.some.inj action).symm⟩
  · simp at action

theorem frameTimeout_cases (action : s.frameTimeout t = some s') :
    ∃ caller, s.tasks t = .needFrame caller ∧ s' = s.setTask t (failed caller) := by
  unfold frameTimeout at action
  split at action
  · rename_i caller task
    exact ⟨caller, task, (Option.some.inj action).symm⟩
  · simp at action

theorem examineVictim_cases (action : s.examineVictim t = some s') :
    ∃ caller frameId v, s.tasks t = .victim caller frameId v ∧
      (((s.frames frameId).dirtySinceLsn = 0 ∧ s' = s.setTask t (.examined caller frameId v)) ∨
        ((s.frames frameId).dirtySinceLsn ≠ 0 ∧
          s' = { s.setTask t (.examined caller frameId v) with
            flushList := update s.flushList t [[(frameId, v)]] })) := by
  unfold examineVictim at action
  split at action
  · rename_i caller frameId v task
    refine ⟨caller, frameId, v, task, ?_⟩
    dsimp only at action
    split at action
    · rename_i clean
      exact .inl ⟨clean, (Option.some.inj action).symm⟩
    · rename_i dirty
      exact .inr ⟨dirty, (Option.some.inj action).symm⟩
  · simp at action

theorem abortEviction_cases (action : s.abortEviction t = some s') :
    ∃ caller frameId v, s.tasks t = .examined caller frameId v ∧ s.flushList t ≠ [] ∧
      s' = { s with
        flushList := update s.flushList t []
        index := { s.index with
          owned := update s.index.owned frameId false
          evicting := update s.index.evicting v false
          replacer := update s.index.replacer frameId (some true) } }.setTask t (failed caller) := by
  unfold abortEviction at action
  split at action
  · rename_i caller frameId v _ _ task waiting
    exact ⟨caller, frameId, v, task, by simp [waiting], (Option.some.inj action).symm⟩
  · simp at action

theorem completeEviction_cases (action : s.completeEviction t = some s') :
    ∃ caller frameId v, s.tasks t = .examined caller frameId v ∧ s.inFlush t = false ∧
      s' = { s with
        index := { s.index with
          pageTable := update s.index.pageTable v none
          framePage := update s.index.framePage frameId none
          evicting := update s.index.evicting v false } }.setTask t (.ownsFrame caller frameId) := by
  unfold completeEviction at action
  split at action
  · rename_i caller frameId v task
    split at action
    · simp at action
    · rename_i finished
      exact ⟨caller, frameId, v, task, by simpa using finished, (Option.some.inj action).symm⟩
  · simp at action

theorem readPage_cases (action : s.readPage t = some s') :
    ∃ pageId frameId, s.tasks t = .ownsFrame (.fetchPage pageId) frameId ∧
      ((pageId < s.nextPageId ∧ s' = s.setTask t (.loaded pageId frameId (s.disk pageId))) ∨
        (s.nextPageId ≤ pageId ∧
          s' = (s.releaseOwnedFrame frameId).setTask t (.finishing pageId))) := by
  unfold readPage at action
  split at action
  · rename_i pageId frameId task
    refine ⟨pageId, frameId, task, ?_⟩
    split at action
    · rename_i found
      exact .inl ⟨found, (Option.some.inj action).symm⟩
    · rename_i missing
      exact .inr ⟨Nat.le_of_not_lt missing, (Option.some.inj action).symm⟩
  · simp at action

theorem tryInstall_cases (action : s.tryInstall t = some s') :
    (∃ pageId frameId image, s.tasks t = .loaded pageId frameId image ∧
        s' = (s.install frameId pageId image 0).setTask t (.finishing pageId)) ∨
      ∃ pageId lsn frameId, s.tasks t = .ownsFrame (.newPage pageId lsn) frameId ∧
        s' = (s.install frameId pageId (Image.new pageId) lsn).setTask t .idle := by
  unfold tryInstall at action
  split at action
  · rename_i pageId frameId image task
    exact .inl ⟨pageId, frameId, image, task, (Option.some.inj action).symm⟩
  · rename_i pageId lsn frameId task
    exact .inr ⟨pageId, lsn, frameId, task, (Option.some.inj action).symm⟩
  · simp at action

theorem finishFetch_cases (action : s.finishFetch t = some s') :
    ∃ pageId, s.tasks t = .finishing pageId ∧
      s' = { s with
        index := { s.index with loading := update s.index.loading pageId false } }.setTask t .idle := by
  unfold finishFetch at action
  split at action
  · rename_i pageId task
    exact ⟨pageId, task, (Option.some.inj action).symm⟩
  · simp at action

theorem newPage_cases (action : s.newPage t txnId = some s') :
    s.tasks t = .idle ∧ s.inFlush t = false ∧
      s' = ({ s with nextPageId := s.nextPageId + 1 }.appendLog txnId (.allocPage s.nextPageId)).setTask
        t (.needFrame (.newPage s.nextPageId s.log.nextLsn)) := by
  unfold newPage at action
  split at action
  · rename_i idle
    split at action
    · simp at action
    · rename_i ready
      exact ⟨idle, by simpa using ready, (Option.some.inj action).symm⟩
  · simp at action

theorem unpinFrame_cases (action : s.unpinFrame f p = some s') :
    (f, p) ∈ s.guards ∧ s.latched f = false ∧ ∃ unpinning,
      s' = { s with guards := s.guards.erase (f, p), unpinning } := by
  unfold unpinFrame at action
  split at action
  · rename_i held
    refine ⟨held.1, held.2, ?_⟩
    dsimp only at action
    split at action
    · exact ⟨s.unpinning, (Option.some.inj action).symm⟩
    · exact ⟨f :: s.unpinning, (Option.some.inj action).symm⟩
  · simp at action

theorem setEvictable_cases (action : s.setEvictable f = some s') :
    ∃ unpinning replacer, s' = { s with unpinning, index := { s.index with replacer } } ∧
      (replacer = s.index.replacer ∨
        ((∀ p, (f, p) ∉ s.guards) ∧ s.index.owned f = false ∧
          replacer = update s.index.replacer f ((s.index.replacer f).map fun _ => true))) := by
  unfold setEvictable at action
  split at action
  · dsimp only at action
    split at action
    · exact ⟨_, _, (Option.some.inj action).symm, Or.inl rfl⟩
    · rename_i settled
      simp only [pinned, Bool.or_eq_true, List.any_eq_true, beq_iff_eq, not_or, not_exists, not_and,
        Bool.not_eq_true] at settled
      exact ⟨_, _, (Option.some.inj action).symm,
        Or.inr ⟨fun p guarded => settled.1 _ guarded rfl, settled.2, rfl⟩⟩
  · simp at action

theorem flushPage_cases (action : s.flushPage t p = some s') :
    s.tasks t = .idle ∧ s.inFlush t = false ∧ ∃ batches,
      s' = { s with flushList := update s.flushList t batches } := by
  unfold flushPage at action
  split at action
  · rename_i idle _
    split at action
    · simp at action
    · rename_i ready
      simp only [Bool.or_eq_true, not_or, Bool.not_eq_true] at ready
      exact ⟨idle, ready.1, _, (Option.some.inj action).symm⟩
  · simp at action

theorem flushAll_cases (action : s.flushAll t = some s') :
    s.tasks t = .idle ∧ s.inFlush t = false ∧ ∃ batches,
      s' = { s with flushList := update s.flushList t batches } := by
  unfold flushAll at action
  split at action
  · rename_i idle
    split at action
    · simp at action
    · rename_i ready
      exact ⟨idle, by simpa using ready, _, (Option.some.inj action).symm⟩
  · simp at action

theorem beginFlush_cases (action : s.beginFlush t = some s') :
    ∃ batch rest, s.lease = none ∧ s.flushList t = batch :: rest ∧
      (∀ entry ∈ batch, s.latched entry.1 = false) ∧
      s' = { s with
        flushList := update s.flushList t rest
        lease := some
          { thread := t
            batch
            snapshot := batch.map fun entry => (s.frames entry.1).image
            written := false } } := by
  unfold beginFlush at action
  split at action
  · rename_i batch rest free gathered
    split at action
    · simp at action
    · rename_i unlatched
      exact ⟨batch, rest, free, gathered, by simpa using unlatched, (Option.some.inj action).symm⟩
  · simp at action

theorem writeSnapshot_cases (action : s.writeSnapshot t = some s') :
    ∃ lease, s.lease = some lease ∧ lease.thread = t ∧ lease.written = false ∧
      s' = { s with
        log := s.log.flush (maxPageLsn lease.snapshot)
        disk := writePages s.disk lease.snapshot
        lease := some { lease with written := true } } := by
  unfold writeSnapshot at action
  split at action
  · rename_i lease held
    split at action
    · rename_i mine
      exact ⟨lease, held, mine.1, mine.2, (Option.some.inj action).symm⟩
    · simp at action
  · simp at action

theorem clearDirty_cases (action : s.clearDirty t = some s') :
    ∃ lease, s.lease = some lease ∧ lease.thread = t ∧ lease.written = true ∧
      s' = { s with frames := clearMarks s.frames lease.pairs, lease := none } := by
  unfold clearDirty at action
  split at action
  · rename_i lease held
    split at action
    · rename_i mine
      exact ⟨lease, held, mine.1, mine.2.1, (Option.some.inj action).symm⟩
    · simp at action
  · simp at action

theorem appendUpdate_cases {offset : Nat} {bytes : List UInt8}
    (action : s.appendUpdate txnId f p offset bytes = some s') :
    (f, p) ∈ s.guards ∧ s.latched f = false ∧ ∃ before,
      s' = { s.appendLog txnId (.update p offset before bytes) with
        pending := { lsn := s.log.nextLsn, pageId := p, offset, bytes, latch := some f } :: s.pending } := by
  unfold appendUpdate at action
  split at action
  · rename_i held
    exact ⟨held.1, held.2.1, _, (Option.some.inj action).symm⟩
  · simp at action

theorem appendClr_cases (action : s.appendClr lsn = some s') :
    ∃ record ∈ s.history, ∃ pageId offset before after,
      record.kind = .update pageId offset before after ∧
      s' = { s.appendLog record.txnId (.clr pageId offset before (record.prevLsn.getD 0)) with
        pending :=
          { lsn := s.log.nextLsn, pageId, offset, bytes := before, latch := none } :: s.pending } := by
  unfold appendClr at action
  split at action
  · rename_i found
    exact ⟨_, List.mem_of_find?_eq_some found, _, _, _, _, rfl, (Option.some.inj action).symm⟩
  · simp at action

theorem applyUpdate_cases (action : s.applyUpdate lsn = some s') :
    ∃ change ∈ s.pending, ∃ frameId, change.lsn = lsn ∧ change.latch = some frameId ∧
      s' = s.applyChange frameId change := by
  unfold applyUpdate at action
  split at action
  · rename_i change found
    split at action
    · rename_i frameId latch
      exact ⟨change, List.mem_of_find?_eq_some found, frameId, by simpa using List.find?_some found, latch,
        (Option.some.inj action).symm⟩
    · simp at action
  · simp at action

theorem stampWrite_cases (action : s.stampWrite lsn f = some s') :
    ∃ change ∈ s.pending, change.lsn = lsn ∧ change.latch = none ∧ (f, change.pageId) ∈ s.guards ∧
      s.latched f = false ∧ s' = s.applyChange f change := by
  unfold stampWrite at action
  split at action
  · rename_i change found
    split at action
    · rename_i ready
      exact ⟨change, List.mem_of_find?_eq_some found, by simpa using List.find?_some found, ready.1,
        ready.2.1, ready.2.2, (Option.some.inj action).symm⟩
    · simp at action
  · simp at action

theorem beginTxn_cases (action : s.beginTxn txnId = some s') :
    ∃ active, s' = { s.appendLog txnId .begin with active } := by
  unfold beginTxn at action
  split at action
  · simp at action
  · exact ⟨_, (Option.some.inj action).symm⟩

theorem endTxn_cases (action : s.endTxn txnId = some s') :
    ∃ active, s' = { s.appendLog txnId .endTxn with active } := by
  unfold endTxn at action
  split at action
  · exact ⟨_, (Option.some.inj action).symm⟩
  · simp at action

theorem checkpointBegin_cases (action : s.checkpointBegin t = some s') :
    s.tasks t = .idle ∧ s.inFlush t = false ∧
      s' = (s.appendLog CHECKPOINT_TXN .checkpointBegin).setTask t (.checkpointBegun s.log.nextLsn) := by
  unfold checkpointBegin at action
  split at action
  · rename_i idle
    split at action
    · simp at action
    · rename_i ready
      exact ⟨idle, by simpa using ready, (Option.some.inj action).symm⟩
  · simp at action

theorem activeSnapshot_cases (action : s.activeSnapshot t = some s') :
    ∃ beginLsn, s.tasks t = .checkpointBegun beginLsn ∧
      s' = s.setTask t (.activeRead beginLsn s.activeTable) := by
  unfold activeSnapshot at action
  split at action
  · rename_i beginLsn task
    exact ⟨beginLsn, task, (Option.some.inj action).symm⟩
  · simp at action

theorem dirtyPageTable_cases (action : s.dirtyPageTable t = some s') :
    ∃ beginLsn att, s.tasks t = .activeRead beginLsn att ∧
      s' = s.setTask t (.dirtyRead beginLsn att s.dirtyTable) := by
  unfold dirtyPageTable at action
  split at action
  · rename_i beginLsn att task
    exact ⟨beginLsn, att, task, (Option.some.inj action).symm⟩
  · simp at action

theorem checkpointEnd_cases (action : s.checkpointEnd t = some s') :
    ∃ beginLsn att dpt, s.tasks t = .dirtyRead beginLsn att dpt ∧
      s' = { (s.appendLog CHECKPOINT_TXN (.checkpointEnd att dpt)).setTask t .idle with
        checkpoints := { beginLsn, att, dpt } :: s.checkpoints } := by
  unfold checkpointEnd at action
  split at action
  · rename_i beginLsn att dpt task
    exact ⟨beginLsn, att, dpt, task, (Option.some.inj action).symm⟩
  · simp at action

variable {a : PoolAction}

theorem step_appends (action : s.step a = some s') (appends : a.appends = true) :
    ∃ txnId kind, ∃ change : PendingChange, change.lsn = s.log.nextLsn ∧
      (∀ written, LogRecordKind.pageChange kind = some written → change.pageId = written.1) ∧
      s' = { s.appendLog txnId kind with pending := change :: s.pending } := by
  cases a with
  | appendUpdate =>
    obtain ⟨-, -, before, rfl⟩ := appendUpdate_cases action
    exact ⟨_, _, _, rfl, by rintro _ ⟨⟩; rfl, rfl⟩
  | appendClr =>
    obtain ⟨record, -, pageId, offset, before, after, -, rfl⟩ := appendClr_cases action
    exact ⟨_, _, _, rfl, by rintro _ ⟨⟩; rfl, rfl⟩
  | _ => cases appends

theorem mem_added {change u : PendingChange} (new : change.lsn = lsn) (member : u ∈ change :: s.pending) :
    u ∈ s.pending ∨ u.lsn = lsn := by
  rcases List.mem_cons.mp member with rfl | old
  · exact .inr new
  · exact .inl old

theorem step_applies (action : s.step a = some s') (applies : a.applies = true) :
    ∃ change ∈ s.pending, ∃ frameId, s' = s.applyChange frameId change := by
  cases a with
  | applyUpdate =>
    obtain ⟨change, member, frameId, -, -, same⟩ := applyUpdate_cases action
    exact ⟨change, member, frameId, same⟩
  | stampWrite =>
    obtain ⟨change, member, -, -, -, -, same⟩ := stampWrite_cases action
    exact ⟨change, member, _, same⟩
  | _ => cases applies

theorem tryInstall_frame (action : s.tryInstall t = some s') : ∃ frames index guards task,
    (task = .idle ∨ ∃ pageId, task = .finishing pageId) ∧ s' = { s with frames, index, guards }.setTask t task := by
  obtain ⟨pageId, frameId, image, -, rfl⟩ | ⟨pageId, lsn, frameId, -, rfl⟩ := tryInstall_cases action
  all_goals
    simp only [install]
    split
  · exact ⟨_, _, _, _, .inr ⟨_, rfl⟩, rfl⟩
  · exact ⟨_, _, _, _, .inr ⟨_, rfl⟩, rfl⟩
  · exact ⟨_, _, _, _, .inl rfl, rfl⟩
  · exact ⟨_, _, _, _, .inl rfl, rfl⟩

end BufferPool

end SimpleRdbms.Storage
