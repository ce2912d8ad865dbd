import SimpleRdbms.Proof.Restarts

namespace SimpleRdbms.Storage
open SimpleRdbms.Lib SerialPool.Analysis

section Frame
variable {pool pool' : SerialPool} {pageId : Nat}

theorem fetchPage_frames {resident : Resident} (fetched : pool.fetchPage pageId = .ok (pool', resident)) :
    ∃ frames, pool' = { pool with frames } := by
  unfold SerialPool.fetchPage at fetched
  split at fetched
  · cases fetched
    exact ⟨pool.frames, rfl⟩
  · cases read : pool.disk.readPage pageId with
    | error failure => simp [read, bind, Except.bind] at fetched
    | ok page =>
      simp only [read, bind, Except.bind, pure, Except.pure, Except.ok.injEq, Prod.mk.injEq] at fetched
      exact ⟨_, fetched.1.symm⟩

theorem stampWrite_frames {offset lsn : Nat} {bytes : List UInt8}
    (written : pool.stampWrite pageId offset bytes lsn = .ok pool') : ∃ frames, pool' = { pool with frames } := by
  unfold SerialPool.stampWrite at written
  cases fetched : pool.fetchPage pageId with
  | error failure => simp [fetched, bind, Except.bind] at written
  | ok found =>
    obtain ⟨frames, same⟩ := fetchPage_frames fetched
    simp only [fetched, bind, Except.bind] at written
    split at written
    · cases written
      exact ⟨_, by rw [SerialPool.install, same]⟩
    · cases written

theorem pageLsn_frames {lsn : Nat} (read : pool.pageLsn pageId = .ok (pool', lsn)) :
    ∃ frames, pool' = { pool with frames } := by
  unfold SerialPool.pageLsn at read
  cases fetched : pool.fetchPage pageId with
  | error failure => simp [fetched, bind, Except.bind] at read
  | ok found =>
    obtain ⟨frames, same⟩ := fetchPage_frames fetched
    simp only [fetched, bind, Except.bind, pure, Except.pure, Except.ok.injEq, Prod.mk.injEq] at read
    exact ⟨frames, read.1 ▸ same⟩

theorem redoRecord_frame {record : LoggedRecord}
    (redone : SerialPool.redoRecord (fun _ => []) pool record = .ok pool') :
    pool'.log = pool.log ∧ pool'.disk.images = pool.disk.images ∧
      pool'.disk.syncedLength = pool.disk.syncedLength := by
  have changed : ∀ {pageId offset bytes}, (do
      let found ← (pool.evictAll []).pageLsn pageId
      if found.2 < record.lsn then found.1.stampWrite pageId offset bytes record.lsn else return found.1) = .ok pool' →
      ∃ frames, pool' = { pool with frames } := by
    intro pageId offset bytes result
    cases read : pool.pageLsn pageId with
    | error failure =>
      have read' : (pool.evictAll []).pageLsn pageId = _ := read
      simp [read', bind, Except.bind] at result
    | ok found =>
      have read' : (pool.evictAll []).pageLsn pageId = _ := read
      obtain ⟨frames, same⟩ := pageLsn_frames read
      simp only [read', bind, Except.bind] at result
      split at result
      · obtain ⟨frames', rfl⟩ := stampWrite_frames result
        exact ⟨frames', by rw [same]⟩
      · cases result
        exact ⟨frames, same⟩
  unfold SerialPool.redoRecord at redone
  split at redone
  · obtain ⟨frames, rfl⟩ := changed redone
    exact ⟨rfl, rfl, rfl⟩
  · obtain ⟨frames, rfl⟩ := changed redone
    exact ⟨rfl, rfl, rfl⟩
  · cases redone
    exact ⟨rfl, rfl, rfl⟩
  all_goals
    cases redone
    exact ⟨rfl, rfl, rfl⟩

end Frame

namespace Continues
variable {initial : Nat → PageData} {known : Nat} {leaked : List Nat} {gone : List LoggedRecord}
  {first pool' : SerialPool} {attempt : RecoveryRun} {tasks : Option (List RecoveryTask)}

section
variable (continues : Continues initial known leaked gone first attempt)
include continues

theorem moved (history : pool'.history = attempt.pool.history) (pages : Pages initial pool' pool'.history)
    (holds : pool'.log.Holds pool'.history gone)
    (base : pool'.log.base = attempt.pool.log.base) (durable : attempt.pool.log.durableLsn ≤ pool'.log.durableLsn)
    (disk : ∀ pageId, (attempt.pool.disk.images pageId).lsn ≤ (pool'.disk.images pageId).lsn)
    (synced : attempt.pool.disk.syncedLength ≤ pool'.disk.syncedLength) :
    Continues initial known leaked gone first { attempt with pool := pool', tasks } where
  pages := pages
  holds := holds
  base := base.trans continues.base
  added := history ▸ continues.added
  durable := Nat.le_trans continues.durable durable
  ranges := history ▸ continues.ranges
  used := history ▸ continues.used
  wellFormed := history ▸ continues.wellFormed
  undone := history ▸ continues.undone
  headers := history ▸ continues.headers
  images := history ▸ continues.images
  checks := continues.checks
  written := continues.written
  older := continues.older
  newer pageId := Nat.le_trans (continues.newer pageId) (disk pageId)
  shorter := continues.shorter
  longer := Nat.le_trans continues.longer synced

theorem flushed (result : Pages.FlushResult initial attempt.pool pool' attempt.pool.history gone) :
    Continues initial known leaked gone first { attempt with pool := pool', tasks } :=
  have same := result.flushed.history
  continues.moved same (same ▸ result.pages) (same ▸ result.holds) result.flushed.base result.flushed.durable
    result.flushed.disk result.flushed.synced

theorem reframed {frames : AList fun _ : Nat => Resident}
    (pages : Pages initial { attempt.pool with frames } attempt.pool.history) :
    Continues initial known leaked gone first { attempt with pool := { attempt.pool with frames }, tasks } :=
  continues.moved rfl pages continues.holds rfl (Nat.le_refl _) (fun _ => Nat.le_refl _) (Nat.le_refl _)

theorem append {txnId : Nat} {kind : LogRecordKind} (added : Added first (attempt.pool.log.nextRecord txnId kind))
    (ranged : Ranged known attempt.pool.history (attempt.pool.log.nextRecord txnId kind))
    (used : ∀ pageId, (attempt.pool.log.nextRecord txnId kind).changes pageId = true → pageId ∉ leaked)
    (wellFormed : UndoLog.WellFormed (fun x => initial x.1 x.2)
      (entries (attempt.pool.history ++ [attempt.pool.log.nextRecord txnId kind])))
    (undone : ∀ after next, kind.act = .restore after next → ∃ write ∈ entries attempt.pool.history,
      write.txn = txnId ∧ write.prev.getD 0 = next ∧
        ∃ deeper, UndoLog.stack (entries attempt.pool.history) txnId = (write.pos, after) :: deeper)
    (header : ∀ offset bytes, kind.pageChange = some (0, offset, bytes) →
      HeaderWrite (Anchored first.disk leaked first.log.base first.log.nextLsn first.history) offset bytes) :
    Continues initial known leaked gone first { attempt with pool := attempt.pool.appendLog txnId kind, tasks } := by
  have holds := continues.holds
  obtain ⟨rest, split, before⟩ := continues.added
  have late : ∀ pageId, (attempt.pool.disk.images pageId).lsn < attempt.pool.log.nextLsn := fun pageId =>
    Nat.lt_of_lt_of_le (continues.pages.wal pageId) holds.buffered.le
  exact {
    pages := continues.pages.appendLog holds txnId kind
    holds := holds.append txnId kind
    base := continues.base
    added := by
      refine ⟨rest ++ [attempt.pool.log.nextRecord txnId kind], ?_, ?_⟩
      · simp [SerialPool.appendLog, split]
      · intro record member
        rcases List.mem_append.mp member with old | last
        · exact before record old
        · obtain rfl := List.mem_singleton.mp last
          exact added
    durable := continues.durable
    ranges := .snoc continues.ranges ranged
    used := by
      intro record member pageId changes
      rcases List.mem_append.mp member with old | last
      · exact continues.used record old pageId changes
      · obtain rfl := List.mem_singleton.mp last
        exact used pageId changes
    wellFormed := wellFormed
    undone := by
      rw [SerialPool.appendLog, entries_snoc]
      exact continues.undone.snoc undone
    headers := by
      refine continues.headers.snoc ?_ header
      exact Nat.lt_of_le_of_lt (Nat.le_trans (continues.older 0) (continues.newer 0)) (late 0)
    images := by
      intro pageId
      refine (continues.images pageId).append fun record member => ?_
      obtain rfl := List.mem_singleton.mp member
      exact Nat.lt_of_le_of_lt (continues.newer pageId) (late pageId)
    checks := continues.checks
    written := continues.written
    older := continues.older
    newer := continues.newer
    shorter := continues.shorter
    longer := continues.longer }

theorem undoLog_eq : undoLog (committed first.history) attempt.pool.history = entries attempt.pool.history := by
  obtain ⟨rest, split, added⟩ := continues.added
  have same : ∀ record ∈ attempt.pool.history, (entry record).demote (committed first.history) = entry record := by
    intro record member
    unfold UndoLog.Entry.demote entry
    cases kind : record.kind with
    | commit =>
      have wins : committed first.history record.txnId = true := by
        rw [committed, decide_eq_true_eq, ← commits_append added, ← split]
        exact ⟨record, member, rfl, kind⟩
      simp [LogRecordKind.act, wins]
    | _ => rfl
  unfold undoLog UndoLog.demote entries
  rw [List.map_map]
  exact List.map_congr_left same

theorem undoLog_snoc_eq {record : LoggedRecord} (quiet : record.kind ≠ .commit) :
    undoLog (committed first.history) (attempt.pool.history ++ [record]) =
      entries (attempt.pool.history ++ [record]) := by
  have same : (entry record).demote (committed first.history) = entry record := by
    unfold UndoLog.Entry.demote entry
    cases kind : record.kind with
    | commit => exact absurd kind quiet
    | _ => rfl
  rw [undoLog_snoc, entries_snoc, continues.undoLog_eq, same]

theorem undoing (state : Recovering initial known leaked gone attempt.pool attempt.pool.history) :
    Undoing initial known leaked gone (committed first.history) attempt.pool :=
  ⟨state, continues.ranges, continues.used, continues.undoLog_eq ▸ continues.wellFormed⟩

end

end Continues

section Phases
variable {initial : Nat → PageData} {known : Nat} {leaked : List Nat} {gone : List LoggedRecord}
  {winner : Nat → Bool} {pool pool' : SerialPool} {txnId : Nat} {losers : List (Nat × Nat)}

structure Pending (gone : List LoggedRecord) (winner : Nat → Bool) (pool : SerialPool) (busy : Option Nat)
    (losers : List (Nat × Nat)) : Prop where
  distinct : (losers.map Prod.fst).Nodup
  due : ∀ loser ∈ losers, Due gone winner pool loser
  apart : ∀ loser ∈ losers, busy ≠ some loser.1
  nothing : ∀ txnId, winner txnId = false → busy ≠ some txnId → (∀ loser ∈ losers, loser.1 ≠ txnId) →
    UndoLog.stack (undoLog winner pool.history) txnId = []

theorem Busy.append {rest : List LoggedRecord} (busy : Busy gone winner pool txnId)
    (history : pool'.history = pool.history ++ rest)
    (quiet : ∀ record ∈ rest, record.txnId = txnId → record.kind ≠ .endTxn)
    (later : ∀ record ∈ rest, ∀ base, LaidOut HEADER_LEN gone base → base ≤ record.lsn) :
    Busy gone winner pool' txnId where
  kept := busy.kept.append history later
  running := history ▸ Undoing.running_append busy.running quiet
  user := busy.user
  loses := busy.loses

theorem Busy.congr (busy : Busy gone winner pool txnId) (history : pool'.history = pool.history) :
    Busy gone winner pool' txnId :=
  have grown : pool'.history = pool.history ++ [] := by simp [history]
  busy.append grown (by simp) (by simp)

namespace Pending
variable {busy : Option Nat}

theorem congr (pending : Pending gone winner pool busy losers) (history : pool'.history = pool.history) :
    Pending gone winner pool' busy losers where
  distinct := pending.distinct
  due loser member :=
    have before := pending.due loser member
    ⟨before.toBusy.congr history, history ▸ before.last⟩
  apart := pending.apart
  nothing := history ▸ pending.nothing

theorem append {rest : List LoggedRecord} (pending : Pending gone winner pool (some txnId) losers)
    (history : pool'.history = pool.history ++ rest) (mine : ∀ record ∈ rest, record.txnId = txnId)
    (later : ∀ record ∈ rest, ∀ base, LaidOut HEADER_LEN gone base → base ≤ record.lsn) :
    Pending gone winner pool' (some txnId) losers where
  distinct := pending.distinct
  due loser member := by
    have before := pending.due loser member
    have others : ∀ record ∈ rest, record.txnId ≠ loser.1 := fun record isAdded same =>
      pending.apart loser member (by rw [← same, mine record isAdded])
    refine ⟨before.toBusy.append history (fun record isAdded same => absurd same (others record isAdded)) later, ?_⟩
    rw [history, Undoing.lastLsnOf_append_other others]
    exact before.last
  apart := pending.apart
  nothing other loses idle unlisted := by
    rw [history, Undoing.stack_append_other]
    · exact pending.nothing other loses idle unlisted
    · exact fun record isAdded same => idle (by rw [← same, mine record isAdded])

theorem finish (pending : Pending gone winner pool (some txnId) losers)
    (empty : UndoLog.stack (undoLog winner pool.history) txnId = []) : Pending gone winner pool none losers where
  distinct := pending.distinct
  due := pending.due
  apart := by simp
  nothing other loses _ unlisted := by
    by_cases same : txnId = other
    · exact same ▸ empty
    · exact pending.nothing other loses (by simpa using same) unlisted

theorem begin {loser : Nat × Nat} (pending : Pending gone winner pool none (loser :: losers)) :
    Pending gone winner pool (some loser.1) losers := by
  obtain ⟨fresh, distinct⟩ := List.nodup_cons.mp pending.distinct
  refine ⟨distinct, fun other member => pending.due other (List.mem_cons_of_mem _ member), ?_, ?_⟩
  · intro other member same
    exact fresh (Option.some.inj same ▸ List.mem_map_of_mem member)
  · intro txnId loses idle unlisted
    refine pending.nothing txnId loses (by simp) fun other member => ?_
    rcases List.mem_cons.mp member with rfl | rest
    · exact fun same => idle (congrArg some same)
    · exact unlisted other rest

end Pending

def RecoveryTask.flushes : RecoveryTask → Bool
  | .flushLog | .flushAll | .flushPages _ | .sync => true
  | .redo _ | .undo _ _ | .stamp _ _ _ _ | .append _ _ => false

inductive Phase (initial : Nat → PageData) (known : Nat) (leaked : List Nat) (gone : List LoggedRecord)
    (winner : Nat → Bool) (pool : SerialPool) : Option (List RecoveryTask) → Prop
  | fresh : Phase initial known leaked gone winner pool none
  | redoing {past rest : List LoggedRecord} {losers : List (Nat × Nat)} :
      Recovering initial known leaked gone pool past → pool.history = past ++ rest →
      Pending gone winner pool none losers →
      Phase initial known leaked gone winner pool (some (SerialPool.recoveryTasks rest losers))
  | undoing {txnId : Nat} {cursor : Option Nat} {losers : List (Nat × Nat)} :
      Recovering initial known leaked gone pool pool.history → Busy gone winner pool txnId →
      Undoing.Walks winner pool.history txnId cursor →
      Pending gone winner pool (some txnId) losers →
      Phase initial known leaked gone winner pool (some (.undo txnId cursor :: SerialPool.recoveryTasks [] losers))
  | stamping {txnId : Nat} {cursor : Option Nat} {losers : List (Nat × Nat)} {past : List LoggedRecord}
      {clr : LoggedRecord} {pageId offset : Nat} {bytes : List UInt8} :
      Stamping initial known leaked gone winner pool past clr pageId offset bytes → Busy gone winner pool txnId →
      Undoing.Walks winner pool.history txnId cursor →
      Pending gone winner pool (some txnId) losers →
      Phase initial known leaked gone winner pool
        (some (.stamp pageId offset bytes clr.lsn :: .undo txnId cursor :: SerialPool.recoveryTasks [] losers))
  | ending {txnId : Nat} {kinds : List LogRecordKind} {losers : List (Nat × Nat)} :
      kinds = [.abort, .endTxn] ∨ kinds = [.endTxn] →
      Recovering initial known leaked gone pool pool.history → Busy gone winner pool txnId →
      UndoLog.stack (undoLog winner pool.history) txnId = [] → Pending gone winner pool (some txnId) losers →
      Phase initial known leaked gone winner pool
        (some (kinds.map (.append txnId) ++ SerialPool.recoveryTasks [] losers))
  | closing {tasks : List RecoveryTask} :
      Recovering initial known leaked gone pool pool.history → Pending gone winner pool none [] →
      (∀ task ∈ tasks, task.flushes = true) → Phase initial known leaked gone winner pool (some tasks)

theorem Phase.evict {tasks : Option (List RecoveryTask)} (phase : Phase initial known leaked gone winner pool tasks)
    (pageId : Nat) : Phase initial known leaked gone winner (pool.evict pageId) tasks := by
  have moved : ∀ {past}, Recovering initial known leaked gone pool past →
      Recovering initial known leaked gone (pool.evict pageId) past ∧
        (pool.evict pageId).history = pool.history := by
    intro past state
    obtain ⟨evicted, history, -⟩ := state.evictAll [pageId]
    exact ⟨evicted, history⟩
  cases phase with
  | fresh => exact .fresh
  | redoing state split pending =>
    obtain ⟨evicted, history⟩ := moved state
    exact .redoing evicted (history.trans split) (pending.congr history)
  | undoing state busy cursor pending =>
    obtain ⟨evicted, history⟩ := moved state
    exact .undoing (history.symm ▸ evicted) (busy.congr history) (history.symm ▸ cursor) (pending.congr history)
  | stamping stamping busy cursor pending =>
    have evicted := stamping.evictAll [pageId]
    have history : (pool.evict pageId).history = pool.history := evicted.history.trans stamping.history.symm
    exact .stamping evicted (busy.congr history) (history.symm ▸ cursor) (pending.congr history)
  | ending kinds state busy empty pending =>
    obtain ⟨evicted, history⟩ := moved state
    exact .ending kinds (history.symm ▸ evicted) (busy.congr history) (history.symm ▸ empty) (pending.congr history)
  | closing state pending flushes =>
    obtain ⟨evicted, history⟩ := moved state
    exact .closing (history.symm ▸ evicted) (pending.congr history) flushes

end Phases

structure Sound (initial : Nat → PageData) (known : Nat) (leaked : List Nat) (gone : List LoggedRecord)
    (first : SerialPool) (attempt : RecoveryRun) : Prop where
  continues : Continues initial known leaked gone first attempt
  phase : Phase initial known leaked gone (committed first.history) attempt.pool attempt.tasks

namespace Sound
variable {initial : Nat → PageData} {known : Nat} {leaked : List Nat} {gone : List LoggedRecord}
  {first : SerialPool} {attempt : RecoveryRun}

theorem analyse (crashed : Crashed initial known leaked gone first)
    (continues : Continues initial known leaked gone first attempt) :
    ∃ frames analysis, attempt.pool.analyse = .ok ({ attempt.pool with frames }, analysis) ∧
      ∀ losers, losers.Perm analysis.losers → Sound initial known leaked gone first
        { attempt with
          pool := { attempt.pool with frames }
          tasks := some (SerialPool.recoveryTasks
            (({ attempt.pool with frames } : SerialPool).redoRecords analysis) losers) } := by
  obtain ⟨frames, field, read, start, opened⟩ := (continues.restart crashed).lastCheckpointLsn
  obtain ⟨records, analysed⟩ := opened.analysed
  obtain ⟨rest, history, added⟩ := continues.added
  have winners_eq : winners attempt.pool.history (headerField (attempt.pool.view 0).data) =
    committed first.history := by
    rw [history]
    exact crashed.winners_eq continues.startable added
  generalize whole : (since attempt.pool.history (headerField (attempt.pool.view 0).data)).foldl
    SerialPool.Analysis.scan
    (load (since attempt.pool.history (headerField (attempt.pool.view 0).data))) = analysis at analysed
  refine ⟨frames, analysis, ?_, fun losers permuted => ⟨continues.reframed opened.pages, ?_⟩⟩
  · simp only [SerialPool.analyse, read, bind, Except.bind, start, records, whole]
    rfl
  · obtain ⟨past, state, split⟩ := opened.redoFrom analysed
    refine .redoing state split ⟨?_, ?_, by simp, ?_⟩
    · exact (permuted.map Prod.fst).nodup_iff.mpr (losers_distinct _)
    · intro loser member
      rw [← winners_eq]
      exact opened.loser_due analysed rfl (permuted.mem_iff.mp member)
    · intro txnId loses _ unlisted
      rw [← winners_eq] at loses ⊢
      exact opened.nothing_left analysed loses fun lsn member => unlisted _ (permuted.mem_iff.mpr member) rfl

def Runs (initial : Nat → PageData) (known : Nat) (leaked : List Nat) (gone : List LoggedRecord)
    (first : SerialPool) (attempt : RecoveryRun) (task : RecoveryTask) (rest : List RecoveryTask) : Prop :=
  ∃ attempt', attempt.next task rest = some attempt' ∧ Sound initial known leaked gone first attempt'

theorem visit_passes {pool : SerialPool} {txnId : Nat} {record : LoggedRecord}
    (quiet : ∀ pageId offset before after, record.kind ≠ .update pageId offset before after) :
    pool.visit txnId record = (pool, [.undo txnId (Undoing.nextCursor record)]) := by
  unfold SerialPool.visit Undoing.nextCursor
  cases kind : record.kind with
  | update pageId offset before after => exact absurd kind (quiet _ _ _ _)
  | _ => rfl

section
variable (continues : Continues initial known leaked gone first attempt)
include continues

theorem commits_all {txnId : Nat}
    (wins : committed first.history txnId = true) : Commits attempt.pool.history txnId := by
  obtain ⟨rest, split, added⟩ := continues.added
  rw [split, commits_append added]
  exact of_decide_eq_true wins

theorem contentsBy_first (winner : Nat → Bool) (pageId : Nat) :
    contentsBy winner initial attempt.pool.history pageId = contentsBy winner initial first.history pageId := by
  obtain ⟨rest, split, added⟩ := continues.added
  rw [split]
  exact Restart.contentsBy_append fun record member _ => (added record member).kind.2.1

theorem redo {past rest : List LoggedRecord} {record : LoggedRecord} {losers : List (Nat × Nat)}
    (state : Recovering initial known leaked gone attempt.pool past)
    (split : attempt.pool.history = past ++ record :: rest)
    (pending : Pending gone (committed first.history) attempt.pool none losers) :
    Runs initial known leaked gone first attempt (.redo record) (SerialPool.recoveryTasks rest losers) := by
  have ranged : Ranged known past record := (split ▸ continues.ranges).at_record
  obtain ⟨pool', result, history, after⟩ :=
    state.redoRecord split ranged (continues.used record (by simp [split])) fun _ => []
  obtain ⟨log, images, synced⟩ := redoRecord_frame result
  refine ⟨{ attempt with pool := pool', tasks := some (SerialPool.recoveryTasks rest losers) }, ?_, ?_, ?_⟩
  · simp only [RecoveryRun.next, SerialPool.exec, result]
    rfl
  · refine continues.moved history after.pages after.holds (by rw [log]) (by rw [log]) ?_ (by rw [synced])
    intro pageId
    rw [images]
  · exact .redoing after (by rw [history, split]; simp) (pending.congr history)

theorem stamp {txnId : Nat} {cursor : Option Nat}
    {losers : List (Nat × Nat)} {past : List LoggedRecord} {clr : LoggedRecord} {pageId offset : Nat}
    {bytes : List UInt8}
    (stamping : Stamping initial known leaked gone
      (committed first.history) attempt.pool past clr pageId offset bytes)
    (busy : Busy gone (committed first.history) attempt.pool txnId)
    (here : Undoing.Walks (committed first.history) attempt.pool.history txnId cursor)
    (pending : Pending gone (committed first.history) attempt.pool (some txnId) losers) :
    Runs initial known leaked gone first attempt (.stamp pageId offset bytes clr.lsn)
      (.undo txnId cursor :: SerialPool.recoveryTasks [] losers) := by
  obtain ⟨frames, written, undoing⟩ := stamping.stamp
  refine ⟨_, ?_, continues.reframed undoing.state.pages,
    .undoing undoing.state (busy.congr rfl) here (pending.congr rfl)⟩
  simp only [RecoveryRun.next, SerialPool.exec, written]
  rfl

section
variable {txnId : Nat} {losers : List (Nat × Nat)}
  (state : Recovering initial known leaked gone attempt.pool attempt.pool.history)
  (busy : Busy gone (committed first.history) attempt.pool txnId)
  (pending : Pending gone (committed first.history) attempt.pool (some txnId) losers)
include state busy pending

theorem compensate (crashed : Crashed initial known leaked gone first) {record : LoggedRecord}
    (member : record ∈ attempt.pool.history) (mine : record.txnId = txnId) {pageId offset : Nat}
    {before after : List UInt8} (isUpdate : record.kind = .update pageId offset before after)
    {rest : List (Nat × UndoLog.Patch (Nat × Nat) UInt8)}
    (top : UndoLog.stack (undoLog (committed first.history) attempt.pool.history) txnId =
      (record.lsn, patch pageId offset before) :: rest)
    (cursor : UndoLog.Cursor (undoLog (committed first.history) attempt.pool.history) txnId record.prevLsn rest) :
    Sound initial known leaked gone first
      { attempt with
        pool := attempt.pool.appendLog txnId (.clr pageId offset before (record.prevLsn.getD 0))
        tasks := some (.stamp pageId offset before attempt.pool.log.nextLsn :: .undo txnId record.prevLsn ::
          SerialPool.recoveryTasks [] losers) } := by
  have undoing := continues.undoing state
  have uncommitted : ¬ UndoLog.Committed (undoLog (committed first.history) attempt.pool.history) txnId := by
    rw [UndoLog.committed_demote]
    simp [busy.loses]
  have stamping := undoing.logCompensation busy.kept busy.running busy.user uncommitted member isUpdate top cursor
  have changesOnly : ∀ other,
      (attempt.pool.log.nextRecord txnId (.clr pageId offset before (record.prevLsn.getD 0))).changes other = true →
      pageId = other := by
    simp [LoggedRecord.changes, LogRecordKind.pageChange]
  refine ⟨continues.append ?_ stamping.ranged ?_ ?_ ?_ ?_, ?_⟩
  · exact ⟨txnId, .inl ⟨rfl, pageId, offset, before, _, rfl⟩, busy.loses⟩
  · exact fun other changes => changesOnly other changes ▸ stamping.usedHere
  · rw [← continues.undoLog_snoc_eq (by simp)]
    exact stamping.wellFormed
  · intro restored next act
    obtain ⟨rfl, rfl⟩ : patch pageId offset before = restored ∧ record.prevLsn.getD 0 = next := by
      simpa [LogRecordKind.act] using act
    refine ⟨entry record, List.mem_map_of_mem member, mine, rfl, rest, ?_⟩
    rw [← continues.undoLog_eq]
    exact top
  · intro at_ bytes change
    obtain ⟨rfl, rfl, rfl⟩ : pageId = 0 ∧ offset = at_ ∧ before = bytes := by
      simpa [LogRecordKind.pageChange] using change
    obtain ⟨grown, split, added⟩ := continues.added
    -- undo adds no update, so this one was there at the first crash
    have old : record ∈ first.history := by
      rw [split] at member
      refine (List.mem_append.mp member).resolve_right fun new => ?_
      exact (added record new).kind.2.1 _ _ _ _ isUpdate
    refine crashed.undoable record old ?_ ?_ offset before after isUpdate
    · rw [mine]
      rintro ⟨ended, isEnded, same⟩
      refine busy.running (UndoLog.closed_demote.mpr (closed_entries.mpr ⟨ended, ?_, same⟩))
      rw [split]
      exact List.mem_append_left _ isEnded
    · rw [mine]
      simpa [committed] using busy.loses
  · have later := undoing.next_later txnId (.clr pageId offset before (record.prevLsn.getD 0))
    refine .stamping stamping (busy.append rfl ?_ later) ?_ (pending.append rfl ?_ later)
    · simp
    · exact Undoing.cursor_popped rfl rfl stamping.wellFormed top cursor
    · simp

theorem undo (crashed : Crashed initial known leaked gone first) {cursor : Option Nat}
    (here : Undoing.Walks (committed first.history) attempt.pool.history txnId cursor) :
    Runs initial known leaked gone first attempt (.undo txnId cursor) (SerialPool.recoveryTasks [] losers) := by
  have unmoved : ∀ {tasks}, Continues initial known leaked gone first { attempt with tasks } := fun {_} =>
    continues.reframed continues.pages
  cases cursor with
  | none => exact ⟨_, rfl, unmoved, .ending (.inl rfl) state busy here pending⟩
  | some lsn =>
    obtain ⟨record, isRecord, rfl, mine, read, -, met⟩ := (continues.undoing state).meets busy.kept here
    have result : attempt.pool.exec (.undo txnId (some record.lsn)) = .ok (attempt.pool.visit txnId record) := by
      simp only [SerialPool.exec, read]
    cases met with
    | @update pageId offset before after rest kind top moved =>
      refine ⟨_, ?_, compensate continues state busy pending crashed isRecord mine kind top moved⟩
      simp only [RecoveryRun.next, result, SerialPool.visit, kind]
      rfl
    | passes quiet moved =>
      rw [visit_passes quiet] at result
      refine ⟨{ attempt with tasks := _ }, ?_, unmoved, .undoing state busy moved pending⟩
      simp only [RecoveryRun.next, result]
      rfl

theorem appendEnd {kind : LogRecordKind} {tasks : Option (List RecoveryTask)}
    (ends : kind = .abort ∨ kind = .endTxn)
    (empty : UndoLog.stack (undoLog (committed first.history) attempt.pool.history) txnId = []) :
    Continues initial known leaked gone first { attempt with pool := attempt.pool.appendLog txnId kind, tasks } ∧
      Recovering initial known leaked gone (attempt.pool.appendLog txnId kind)
        (attempt.pool.appendLog txnId kind).history ∧
      UndoLog.stack (undoLog (committed first.history) (attempt.pool.appendLog txnId kind).history) txnId = [] ∧
      Pending gone (committed first.history) (attempt.pool.appendLog txnId kind) (some txnId) losers ∧
      (kind = .abort → Busy gone (committed first.history) (attempt.pool.appendLog txnId kind) txnId) := by
  have undoing := continues.undoing state
  have unchanged : kind.pageChange = none := by rcases ends with rfl | rfl <;> rfl
  have legit : UndoLog.Legit (fun x => initial x.1 x.2) (undoLog (committed first.history) attempt.pool.history)
      ((entry (attempt.pool.log.nextRecord txnId kind)).demote (committed first.history)) := by
    refine undoing.legit (undoing.kept_last busy.kept) busy.running kind ?_
    rcases ends with rfl | rfl
    · trivial
    · exact .inr empty
  have appended := undoing.appendQuiet unchanged (by rcases ends with rfl | rfl <;> simp)
    (by rcases ends with rfl | rfl <;> rfl) busy.user (by rcases ends with rfl | rfl <;> simp) legit
  have later := undoing.next_later txnId kind
  refine ⟨continues.append ?_ appended.ranges.init.2 ?_ ?_ ?_ ?_, appended.state, ?_, pending.append rfl ?_ later, ?_⟩
  · exact ⟨txnId, .inr ⟨rfl, ends⟩, busy.loses⟩
  · simp [LoggedRecord.changes, unchanged]
  · rw [← continues.undoLog_snoc_eq (by rcases ends with rfl | rfl <;> simp)]
    exact appended.wellFormed
  · rcases ends with rfl | rfl <;> simp [LogRecordKind.act]
  · simp [unchanged]
  · rw [SerialPool.appendLog, undoLog_snoc, UndoLog.stack_snoc, empty]
    rcases ends with rfl | rfl <;>
      simp [UndoLog.Entry.stacked, UndoLog.Entry.demote, entry, LogRecordKind.act]
  · simp
  · rintro rfl
    exact busy.append rfl (by simp) later

theorem endUndo {kind : LogRecordKind} {kinds : List LogRecordKind}
    (ends : kind :: kinds = [.abort, .endTxn] ∨ kind :: kinds = [.endTxn])
    (empty : UndoLog.stack (undoLog (committed first.history) attempt.pool.history) txnId = []) :
    Runs initial known leaked gone first attempt (.append txnId kind)
      (kinds.map (.append txnId) ++ SerialPool.recoveryTasks [] losers) := by
  rcases ends with last | last
  · obtain ⟨rfl, rfl⟩ : kind = .abort ∧ kinds = [.endTxn] := by simpa using last
    obtain ⟨moved, state', empty', pending', busy'⟩ := appendEnd continues state busy pending (.inl rfl) empty
    exact ⟨_, rfl, moved, .ending (.inr rfl) state' (busy' rfl) empty' pending'⟩
  · obtain ⟨rfl, rfl⟩ : kind = .endTxn ∧ kinds = [] := by simpa using last
    obtain ⟨moved, state', empty', pending', -⟩ := appendEnd continues state busy pending (.inr rfl) empty
    exact ⟨_, rfl, moved, .redoing state' (List.append_nil _).symm (pending'.finish empty')⟩

end

theorem flush {task : RecoveryTask}
    {rest : List RecoveryTask} (flushes : task.flushes = true) (others : ∀ other ∈ rest, other.flushes = true)
    (state : Recovering initial known leaked gone attempt.pool attempt.pool.history)
    (pending : Pending gone (committed first.history) attempt.pool none []) :
    Runs initial known leaked gone first attempt task rest := by
  have flushed : ∀ {pool'}, Pages.FlushResult initial attempt.pool pool' attempt.pool.history gone →
      attempt.pool.exec task = .ok (pool', []) → Runs initial known leaked gone first attempt task rest := by
    intro pool' result executed
    have history := result.flushed.history
    refine ⟨{ attempt with pool := pool', tasks := some rest }, ?_, continues.flushed result,
      .closing (history ▸ state.flushed result) (pending.congr history) others⟩
    simp only [RecoveryRun.next, executed]
    rfl
  cases task with
  | flushLog =>
    refine flushed ?_ rfl
    unfold LogManager.flushAll
    split
    · exact ⟨continues.pages, Flushed.refl _, continues.holds⟩
    · exact continues.pages.flushLog continues.holds _
  | flushAll =>
    refine ⟨_, rfl, continues.reframed continues.pages, .closing state pending ?_⟩
    intro other member
    rcases List.mem_append.mp member with new | old
    · obtain ⟨batch, -, rfl⟩ := List.mem_map.mp new
      rfl
    · exact others other old
  | flushPages pageIds => exact flushed (continues.pages.flushPages continues.holds pageIds).1 rfl
  | sync =>
    have pages : Pages initial attempt.pool.sync attempt.pool.history := { continues.pages with
      synced := fun pageId changed => Nat.lt_of_lt_of_le (continues.pages.synced pageId changed) continues.pages.length
      length := Nat.le_refl _ }
    refine ⟨{ attempt with pool := attempt.pool.sync, tasks := some rest }, rfl, ?_,
      .closing ?_ (pending.congr rfl) others⟩
    · exact continues.moved rfl pages continues.holds rfl (Nat.le_refl _)
        (fun _ => Nat.le_refl _) continues.pages.length
    · exact state.unseen pages state.holds (Nat.le_refl _) fun _ => Nat.le_refl _
  | redo _ => simp [RecoveryTask.flushes] at flushes
  | undo _ _ => simp [RecoveryTask.flushes] at flushes
  | stamp _ _ _ _ => simp [RecoveryTask.flushes] at flushes
  | append _ _ => simp [RecoveryTask.flushes] at flushes

end

theorem next (crashed : Crashed initial known leaked gone first) (sound : Sound initial known leaked gone first attempt)
    {task : RecoveryTask} {rest : List RecoveryTask} (tasks : attempt.tasks = some (task :: rest)) :
    Runs initial known leaked gone first attempt task rest := by
  obtain ⟨continues, phase⟩ := sound
  rw [tasks] at phase
  generalize here : some (task :: rest) = left at phase
  cases phase with
  | fresh => cases here
  | @redoing past records losers state split pending =>
    cases records with
    | cons record records =>
      obtain ⟨rfl, rfl⟩ := List.cons.inj (Option.some.inj here)
      exact redo continues state split pending
    | nil =>
      rw [List.append_nil] at split
      subst split
      cases losers with
      | nil =>
        obtain ⟨rfl, rfl⟩ := List.cons.inj (Option.some.inj here)
        exact flush continues rfl (by simp [RecoveryTask.flushes]) state pending
      | cons loser losers =>
        obtain ⟨rfl, rfl⟩ := List.cons.inj (Option.some.inj here)
        have due := pending.due loser List.mem_cons_self
        have cursor := UndoLog.Cursor.last loser.1 (continues.undoing state).wellFormed
        rw [UndoLog.lastPos_demote, lastPos_entries, due.last] at cursor
        exact undo continues state due.toBusy pending.begin crashed cursor
  | undoing state busy cursor pending =>
    obtain ⟨rfl, rfl⟩ := List.cons.inj (Option.some.inj here)
    exact undo continues state busy pending crashed cursor
  | stamping stamping busy cursor pending =>
    obtain ⟨rfl, rfl⟩ := List.cons.inj (Option.some.inj here)
    exact stamp continues stamping busy cursor pending
  | @ending txnId kinds losers ends state busy empty pending =>
    cases kinds with
    | nil => simp at ends
    | cons kind kinds =>
      obtain ⟨rfl, rfl⟩ := List.cons.inj (Option.some.inj here)
      exact endUndo continues state busy pending ends empty
  | closing state pending flushes =>
    obtain rfl := Option.some.inj here
    exact flush continues (flushes task List.mem_cons_self)
      (fun other member => flushes other (List.mem_cons_of_mem _ member)) state pending

theorem step (crashed : Crashed initial known leaked gone first) (sound : Sound initial known leaked gone first attempt)
    {action : RecoveryRun.Action} {attempt' : RecoveryRun} (stepped : attempt.step action = some attempt') :
    Sound initial known leaked gone first attempt' := by
  cases action with
  | analyse losers =>
    simp only [RecoveryRun.step] at stepped
    split at stepped
    · obtain ⟨frames, analysis, analysed, begins⟩ := analyse crashed sound.continues
      simp only [RecoveryRun.analyse, analysed] at stepped
      split at stepped
      · rename_i permuted
        exact Option.some.inj stepped ▸ begins losers permuted
      · cases stepped
    · cases stepped
  | run =>
    simp only [RecoveryRun.step] at stepped
    split at stepped
    · rename_i task rest tasks
      obtain ⟨result, executed, after⟩ := sound.next crashed tasks
      exact Option.some.inj (executed.symm.trans stepped) ▸ after
    · cases stepped
    · cases stepped
  | evict pageId =>
    obtain rfl := Option.some.inj stepped
    exact ⟨sound.continues.flushed (sound.continues.pages.evict sound.continues.holds pageId), sound.phase.evict pageId⟩
  | crash kept length survives =>
    simp only [RecoveryRun.step] at stepped
    split at stepped
    · rename_i lengths
      obtain rfl := Option.some.inj stepped
      exact ⟨sound.continues.crash crashed lengths.1, .fresh⟩
    · cases stepped

theorem reachable (crashed : Crashed initial known leaked gone first)
    (reached : (RecoveryRun.system first).Reachable attempt) : Sound initial known leaked gone first attempt := by
  refine System.ReachableBy.invariant (P := Sound initial known leaked gone first) ?_ ?_ reached
  · rintro start rfl
    exact ⟨crashed.continues, .fresh⟩
  · exact fun before action after sound _ stepped => sound.step crashed stepped

theorem contents (sound : Sound initial known leaked gone first attempt) (done : attempt.tasks = some [])
    {pageId i : Nat} (body : Body pageId i) : (attempt.pool.view pageId).data i =
      contentsBy (committed first.history) initial first.history pageId i := by
  obtain ⟨continues, phase⟩ := sound
  rw [done] at phase
  generalize here : some [] = left at phase
  cases phase with
  | fresh => cases here
  | redoing => simp [SerialPool.recoveryTasks] at here
  | undoing => simp at here
  | stamping => simp at here
  | ending => simp [SerialPool.recoveryTasks] at here
  | closing state pending flushes =>
    rw [Restart.view_contents state rfl body, Restart.contents_of_undone (continues.undoing state) body
      (fun txnId wins => commits_all continues wins)
      (fun txnId loses => pending.nothing txnId loses (by simp) (by simp)), contentsBy_first continues]

end Sound

def takesBack (update clr : LoggedRecord) : Bool :=
  match update.kind, clr.kind with
  | .update pageId offset before _, .clr page at_ after undoNextLsn =>
    clr.txnId == update.txnId && page == pageId && at_ == offset && after == before &&
      undoNextLsn == update.prevLsn.getD 0
  | _, _ => false

theorem takesBack_link {update clr : LoggedRecord} (takes : takesBack update clr = true) :
    clr.txnId = update.txnId ∧ ∃ patch, (entry clr).act = .restore patch (update.prevLsn.getD 0) := by
  unfold takesBack at takes
  split at takes
  · rename_i kind kind'
    simp only [Bool.and_eq_true, beq_iff_eq] at takes
    obtain ⟨⟨⟨⟨mine, -⟩, -⟩, -⟩, next⟩ := takes
    exact ⟨mine, _, by rw [← next, entry, kind']; rfl⟩
  · cases takes

theorem takesBack_once {initial : Nat → PageData} {history : List LoggedRecord}
    (wellFormed : UndoLog.WellFormed (fun x => initial x.1 x.2) (entries history))
    (undone : UndoLog.Exact (entries history)) (sorted : history.Pairwise (·.lsn < ·.lsn)) (update : LoggedRecord) :
    (history.filter (takesBack update)).length ≤ 1 := by
  have ordered := sorted.filter (takesBack update)
  cases compensations : history.filter (takesBack update) with
  | nil => simp
  | cons clr rest =>
    cases rest with
    | nil => simp
    | cons other rest =>
      have mine : ∀ {record}, record ∈ history.filter (takesBack update) → record ∈ history ∧
          takesBack update record = true := List.mem_filter.mp
      obtain ⟨isClr, takes⟩ := mine (compensations ▸ List.mem_cons_self)
      obtain ⟨isOther, takes'⟩ := mine (compensations ▸ List.mem_cons_of_mem _ List.mem_cons_self)
      obtain ⟨txn, patch, act⟩ := takesBack_link takes
      obtain ⟨txn', patch', act'⟩ := takesBack_link takes'
      have same := undone.once wellFormed (List.mem_map_of_mem isClr) (List.mem_map_of_mem isOther)
        (txn.trans txn'.symm) act act'
      rw [compensations] at ordered
      have lower := (List.pairwise_cons.mp ordered).1 other List.mem_cons_self
      exact absurd (congrArg UndoLog.Entry.pos same) (Nat.ne_of_lt lower)

end SimpleRdbms.Storage
