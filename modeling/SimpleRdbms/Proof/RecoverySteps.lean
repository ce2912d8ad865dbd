import SimpleRdbms.Lib.Results
import SimpleRdbms.Proof.RecoveryRuns
import SimpleRdbms.Proof.SerialRuns

namespace SimpleRdbms.Storage
open SimpleRdbms.Lib SerialPool.Analysis

namespace Sound
variable {initial : Nat → PageData} {known : Nat} {leaked : List Nat} {gone : List LoggedRecord}
  {first pool : SerialPool} {origin : DiskManager} {attempt : RecoveryRun} {txnId : Nat} {rest : List RecoveryTask}
  {tasks : Option (List RecoveryTask)}

theorem evictAll (crashed : Crashed initial known leaked gone first)
    (sound : Sound initial known leaked gone first ⟨origin, pool, tasks⟩) (pageIds : List Nat) :
    Sound initial known leaked gone first ⟨origin, pool.evictAll pageIds, tasks⟩ := by
  induction pageIds generalizing pool with
  | nil => exact sound
  | cons pageId pageIds ih =>
    have evicted : RecoveryRun.step ⟨origin, pool, tasks⟩ (.evict pageId) =
      some ⟨origin, pool.evict pageId, tasks⟩ := rfl
    exact ih (sound.step crashed evicted)

theorem task (crashed : Crashed initial known leaked gone first) {task : RecoveryTask}
    (sound : Sound initial known leaked gone first ⟨origin, pool, some (task :: rest)⟩) :
    ∃ pool' new, pool.exec task = .ok (pool', new) ∧
      Sound initial known leaked gone first ⟨origin, pool', some (new ++ rest)⟩ := by
  obtain ⟨attempt', executed, after⟩ := sound.next crashed rfl
  unfold RecoveryRun.next at executed
  split at executed
  · cases executed
  · rename_i pool' new result
    obtain rfl := Option.some.inj executed
    exact ⟨pool', new, result, after⟩

theorem redoRecord_evicted (evictions : Nat → List Nat) (pool : SerialPool) (record : LoggedRecord) :
    ∃ pageIds, SerialPool.redoRecord evictions pool record =
      SerialPool.redoRecord (fun _ => []) (pool.evictAll pageIds) record := by
  unfold SerialPool.redoRecord
  cases record.kind with
  | update _ _ _ _ => exact ⟨evictions record.lsn, rfl⟩
  | clr _ _ _ _ => exact ⟨evictions record.lsn, rfl⟩
  | _ => exact ⟨[], rfl⟩

theorem redoAll (crashed : Crashed initial known leaked gone first) (evictions : Nat → List Nat)
    {records : List LoggedRecord}
    (sound : Sound initial known leaked gone first ⟨origin, pool, some (records.map .redo ++ rest)⟩) :
    ∃ pool', records.foldlM (SerialPool.redoRecord evictions) pool = .ok pool' ∧
      Sound initial known leaked gone first ⟨origin, pool', some rest⟩ := by
  induction records generalizing pool with
  | nil => exact ⟨pool, rfl, sound⟩
  | cons record records ih =>
    obtain ⟨pageIds, same⟩ := redoRecord_evicted evictions pool record
    obtain ⟨middle, new, executed, after⟩ := (sound.evictAll crashed pageIds).task crashed
    obtain ⟨redone, first, ended⟩ := bind_eq_ok.mp executed
    obtain ⟨rfl, rfl⟩ := Prod.mk.inj (pure_eq_ok.mp ended)
    obtain ⟨pool', result, done⟩ := ih after
    exact ⟨pool', by rw [List.foldlM_cons, same, first, ok_bind, result], done⟩

theorem reads (sound : Sound initial known leaked gone first attempt) {lsn : Nat}
    (tasks : attempt.tasks = some (.undo txnId (some lsn) :: rest)) :
    ∃ record, record.lsn = lsn ∧ attempt.pool.log.readAt lsn = some record ∧
      ∀ below, Undoing.nextCursor record = some below → below < lsn := by
  obtain ⟨continues, phase⟩ := sound
  rw [tasks] at phase
  have walks : ∀ {txnId}, Recovering initial known leaked gone attempt.pool attempt.pool.history →
      Undoing.Kept gone attempt.pool txnId →
      Undoing.Walks (committed first.history) attempt.pool.history txnId (some lsn) →
      ∃ record, record.lsn = lsn ∧ attempt.pool.log.readAt lsn = some record ∧
        ∀ below, Undoing.nextCursor record = some below → below < lsn := by
    intro txnId state kept cursor
    obtain ⟨record, -, same, -, read, lower, -⟩ := (continues.undoing state).meets kept cursor
    exact ⟨record, same, read, lower⟩
  generalize here : some (.undo txnId (some lsn) :: rest) = left at phase
  cases phase with
  | fresh => cases here
  | @redoing past records losers state split pending =>
    cases records with
    | cons record records => simp [SerialPool.recoveryTasks] at here
    | nil =>
      rw [List.append_nil] at split
      subst split
      cases losers with
      | nil => simp [SerialPool.recoveryTasks] at here
      | cons loser losers =>
        obtain ⟨-, same⟩ : txnId = loser.1 ∧ lsn = loser.2 := by
          simpa [SerialPool.recoveryTasks, SerialPool.undoTask] using (List.cons.inj (Option.some.inj here)).1
        have due := pending.due loser List.mem_cons_self
        have cursor := UndoLog.Cursor.last loser.1 (continues.undoing state).wellFormed
        rw [UndoLog.lastPos_demote, lastPos_entries, due.last, ← same] at cursor
        exact walks state due.kept cursor
  | undoing state busy cursor pending =>
    obtain ⟨rfl, rfl⟩ : txnId = _ ∧ some lsn = _ := by simpa using (List.cons.inj (Option.some.inj here)).1
    exact walks state busy.kept cursor
  | stamping => simp at here
  | @ending _ kinds _ ends =>
    rcases ends with rfl | rfl <;> simp at here
  | closing state pending flushes =>
    obtain rfl := Option.some.inj here
    simpa [RecoveryTask.flushes] using flushes _ List.mem_cons_self

section
variable (crashed : Crashed initial known leaked gone first)
include crashed

theorem undoLoop (evictions : Nat → List Nat) (fuel : Nat) {cursor : Option Nat}
    (sound : Sound initial known leaked gone first ⟨origin, pool, some (.undo txnId cursor :: rest)⟩)
    (enough : ∀ lsn, cursor = some lsn → lsn < fuel) :
    ∃ pool', SerialPool.undoLoop evictions txnId fuel pool cursor = .ok pool' ∧
      Sound initial known leaked gone first ⟨origin, pool', some (SerialPool.endUndo txnId ++ rest)⟩ := by
  obtain ⟨middle, new, executed, after⟩ := sound.task crashed
  induction fuel generalizing pool cursor middle new with
  | zero =>
    cases cursor with
    | some lsn => exact absurd (enough lsn rfl) (Nat.not_lt_zero _)
    | none =>
      obtain ⟨rfl, rfl⟩ := Prod.mk.inj (Except.ok.inj executed)
      exact ⟨pool, rfl, after⟩
  | succ fuel ih =>
    cases cursor with
    | none =>
      obtain ⟨rfl, rfl⟩ := Prod.mk.inj (Except.ok.inj executed)
      exact ⟨pool, rfl, after⟩
    | some lsn =>
      obtain ⟨record, same, read, lower⟩ := sound.reads rfl
      have read' : pool.log.readAt lsn = some record := read
      have visited : pool.visit txnId record = (middle, new) := by
        simpa only [SerialPool.exec, read', Except.ok.injEq] using executed
      simp only [SerialPool.undoLoop, read']
      have goOn {pool : SerialPool} {next : Option Nat} (back : ∀ below, next = some below → below < lsn)
          (sound : Sound initial known leaked gone first ⟨origin, pool, some (.undo txnId next :: rest)⟩) :
          ∃ pool', SerialPool.undoLoop evictions txnId fuel pool next = .ok pool' ∧
            Sound initial known leaked gone first ⟨origin, pool', some (SerialPool.endUndo txnId ++ rest)⟩ := by
        obtain ⟨middle, new, executed, after⟩ := sound.task crashed
        refine ih sound (fun below isNext => ?_) middle new executed after
        have := back below isNext
        have := enough lsn rfl
        omega
      by_cases isUpdate : ∃ pageId offset before after, record.kind = .update pageId offset before after
      · obtain ⟨pageId, offset, before, _, kind⟩ := isUpdate
        simp only [SerialPool.visit, kind, Prod.mk.injEq] at visited
        obtain ⟨rfl, rfl⟩ := visited
        obtain ⟨_, _, executed, after⟩ := (after.evictAll crashed (evictions record.lsn)).task crashed
        obtain ⟨stamped, written, ended⟩ := bind_eq_ok.mp executed
        obtain ⟨rfl, rfl⟩ := Prod.mk.inj (pure_eq_ok.mp ended)
        simp only [SerialPool.undoRecord, kind, written, ok_bind]
        exact goOn (by simpa [Undoing.nextCursor, kind] using lower) after
      · push Not at isUpdate
        rw [visit_passes isUpdate, Prod.mk.injEq] at visited
        obtain ⟨rfl, rfl⟩ := visited
        rw [Undoing.undoRecord_passes evictions isUpdate]
        exact goOn lower after

theorem undoAll (evictions : Nat → List Nat) {losers : List (Nat × Nat)}
    (sound : Sound initial known leaked gone first ⟨origin, pool, some (losers.map SerialPool.undoTask ++ rest)⟩) :
    ∃ pool', pool.undoAll evictions losers = .ok pool' ∧
      Sound initial known leaked gone first ⟨origin, pool', some rest⟩ := by
  induction losers generalizing pool with
  | nil => exact ⟨pool, rfl, sound⟩
  | cons loser losers ih =>
    obtain ⟨walked, result, after⟩ := sound.undoLoop crashed evictions (loser.2 + 1)
      fun _ same => Option.some.inj same ▸ Nat.lt_succ_self _
    obtain ⟨_, _, aborted, after⟩ := after.task crashed
    obtain ⟨rfl, rfl⟩ := Prod.mk.inj (Except.ok.inj aborted)
    obtain ⟨_, _, ended, after⟩ := after.task crashed
    obtain ⟨rfl, rfl⟩ := Prod.mk.inj (Except.ok.inj ended)
    obtain ⟨pool', undone, done⟩ := ih after
    refine ⟨pool', ?_, done⟩
    rw [SerialPool.undoAll, List.foldlM_cons, SerialPool.undoTransaction, result]
    exact undone

theorem flushPages {batches : List (List Nat)}
    (sound : Sound initial known leaked gone first ⟨origin, pool, some (batches.map .flushPages ++ rest)⟩) :
    Sound initial known leaked gone first ⟨origin, batches.foldl SerialPool.flushPages pool, some rest⟩ := by
  induction batches generalizing pool with
  | nil => exact sound
  | cons batch batches ih =>
    obtain ⟨_, _, flushed, after⟩ := sound.task crashed
    obtain ⟨rfl, rfl⟩ := Prod.mk.inj (Except.ok.inj flushed)
    exact ih after

theorem close (sound : Sound initial known leaked gone first ⟨origin, pool, some [.flushLog, .flushAll, .sync]⟩) :
    Sound initial known leaked gone first
      ⟨origin, ({ pool with log := pool.log.flushAll }.flushAll).sync, some []⟩ := by
  obtain ⟨_, _, logged, after⟩ := sound.task crashed
  obtain ⟨rfl, rfl⟩ := Prod.mk.inj (Except.ok.inj logged)
  obtain ⟨_, _, begun, after⟩ := after.task crashed
  obtain ⟨rfl, rfl⟩ := Prod.mk.inj (Except.ok.inj begun)
  obtain ⟨_, _, synced, after⟩ := (after.flushPages crashed).task crashed
  obtain ⟨rfl, rfl⟩ := Prod.mk.inj (Except.ok.inj synced)
  exact after

theorem recover
    (sound : Sound initial known leaked gone first ⟨origin, pool, none⟩) {order : List (Nat × Nat) → List (Nat × Nat)}
    (permutes : ∀ losers, (order losers).Perm losers) (evictions : Evictions) :
    ∃ pool', pool.recover order evictions = .ok pool' ∧
      Sound initial known leaked gone first ⟨origin, pool', some []⟩ := by
  obtain ⟨frames, analysis, analysed, begins⟩ := analyse crashed sound.continues
  obtain ⟨redone, folded, after⟩ := (begins (order analysis.losers) (permutes _)).redoAll crashed evictions.redo
  obtain ⟨undone, undo, after⟩ := after.undoAll crashed evictions.undo
  have redo : ({ pool with frames } : SerialPool).redo evictions.redo analysis.minRecoveryLsn = .ok redone := by
    rw [SerialPool.redoRecords] at folded
    cases least : analysis.minRecoveryLsn with
    | none =>
      rw [least] at folded
      exact folded
    | some low =>
      rw [least] at folded
      exact folded
  refine ⟨_, ?_, after.close crashed⟩
  have unfolded : pool.recover order evictions = (do
      let found ← pool.analyse
      let pool ← found.1.redo evictions.redo found.2.minRecoveryLsn
      let pool ← pool.undoAll evictions.undo (order found.2.losers)
      return ({ pool with log := pool.log.flushAll }.flushAll).sync) := by
    unfold SerialPool.recover SerialPool.analyse
    cases pool.lastCheckpointLsn <;> rfl
  have analysed' : pool.analyse = _ := analysed
  rw [unfolded, analysed', ok_bind, redo, ok_bind, undo, ok_bind]
  rfl

theorem recovers (sound : Sound initial known leaked gone first attempt) (begins : attempt.tasks = none)
    {order : List (Nat × Nat) → List (Nat × Nat)} (permutes : ∀ losers, (order losers).Perm losers)
    (evictions : Evictions) :
    ∃ pool', attempt.pool.recover order evictions = .ok pool' ∧ ∀ pageId i, Body pageId i →
      (pool'.view pageId).data i = contentsBy (committed first.history) initial first.history pageId i := by
  obtain ⟨origin, pool, tasks⟩ := attempt
  obtain rfl : tasks = none := begins
  obtain ⟨pool', result, sound⟩ := sound.recover crashed permutes evictions
  exact ⟨pool', result, fun pageId i body => sound.contents rfl body⟩

end

end Sound

/-- Whenever a running pool crashes, recovery ends with what the transactions committed by then wrote. -/
theorem SerialRun.crash_recovers {initial : Nat → PageData} {known targetSegmentSize dwbCapacity length : Nat}
    {disk : DiskManager} {run : SerialRun} (formatted : Formatted initial known disk)
    (reached : (system targetSegmentSize dwbCapacity disk).ReachableBy (Isolated known) run)
    (low : run.pool.disk.syncedLength ≤ length) (kept : Nat) (survives : Nat → Bool)
    {order : List (Nat × Nat) → List (Nat × Nat)} (permutes : ∀ losers, (order losers).Perm losers)
    (evictions : Evictions) :
    ∃ pool', (run.pool.crash disk kept length survives).recover order evictions = .ok pool' ∧
      ∀ pageId i, Body pageId i →
        (pool'.view pageId).data i = contentsBy (committed run.pool.history) initial run.pool.history pageId i := by
  have crashed := crashed formatted reached low kept survives
  obtain ⟨pool', result, pages⟩ := Sound.recovers crashed ⟨crashed.continues, .fresh⟩ rfl permutes evictions
  refine ⟨pool', result, fun pageId i body => ?_⟩
  rw [← crash_contents formatted reached kept survives]
  exact pages pageId i body

/-- After any number of crashes no update is compensated twice, and recovery ends with what it ends with uninterrupted.
-/
theorem RecoveryRun.crashes_change_nothing {initial : Nat → PageData} {known : Nat} {leaked : List Nat}
    {gone : List LoggedRecord} {first : SerialPool} (crashed : Crashed initial known leaked gone first)
    {attempt : RecoveryRun} (reached : (RecoveryRun.system first).Reachable attempt) :
    (∀ update ∈ attempt.pool.history, (attempt.pool.history.filter (takesBack update)).length ≤ 1) ∧
    ∀ order : List (Nat × Nat) → List (Nat × Nat), (∀ losers, (order losers).Perm losers) → ∀ evictions,
      ∃ single, first.recover order evictions = .ok single ∧
        (attempt.tasks = some [] → ∀ pageId i, Body pageId i →
          (attempt.pool.view pageId).data i = (single.view pageId).data i) ∧
        (attempt.tasks = none → ∃ again, attempt.pool.recover order evictions = .ok again ∧
          ∀ pageId i, Body pageId i → (again.view pageId).data i = (single.view pageId).data i) := by
  have sound := Sound.reachable crashed reached
  refine ⟨fun update _ => takesBack_once sound.continues.wellFormed sound.continues.undone
    sound.continues.sorted update, fun order permutes evictions => ?_⟩
  obtain ⟨single, result, pages⟩ := Sound.recovers crashed ⟨crashed.continues, .fresh⟩ rfl permutes evictions
  refine ⟨single, result, fun done pageId i body => ?_, fun begins => ?_⟩
  · rw [sound.contents done body, pages pageId i body]
  · obtain ⟨again, result', pages'⟩ := Sound.recovers crashed sound begins permutes evictions
    refine ⟨again, result', fun pageId i body => ?_⟩
    rw [pages' pageId i body, pages pageId i body]

def twoPages : DiskManager := { length := 2, syncedLength := 2, images := Page.new }

theorem twoPages_formatted : Formatted (fun _ => zeroData) 2 twoPages where
  nonempty := by decide
  length := rfl
  synced := rfl
  images _ := ImageOk.new rfl (by simp)
  checks := checksumOk_new
  zero _ _ := rfl
  blank := by decide

def changed : Option SerialRun :=
  (SerialRun.system 1000 1 twoPages).runBy (Isolated 2) (.start 1000 1 twoPages) [.begin 1, .write 1 1 20 [7]]

/-- What a crash leaves when the records of a transaction in its midst are in the log, and its page is not. -/
def unfinished : SerialPool := (changed.getD (.start 1000 1 twoPages)).pool.crash twoPages 2 2 fun _ => false

theorem unfinished_crashed : Crashed (fun _ => zeroData) 2 [] [] unfinished := by
  have found : changed.any (fun run => run.pool.disk.syncedLength ≤ 2) = true := by decide +kernel
  obtain ⟨run, executed, low⟩ := (Option.any_eq_true _ _).mp found
  have reached : (SerialRun.system 1000 1 twoPages).ReachableBy (Isolated 2) run := .runBy (.start rfl) executed
  rw [unfinished, executed]
  exact SerialRun.crashed twoPages_formatted reached (of_decide_eq_true low) 2 _

/-- The crash keeps the `Clr` but not the page it has restored. -/
def crashAfterClr : List RecoveryRun.Action := [.analyse [(1, 53)], .run, .run, .run, .crash 1 2 fun _ => false]

theorem unfinished_interrupted : ∃ attempt, (RecoveryRun.system unfinished).Reachable attempt ∧ attempt.tasks = none ∧
    ∃ record ∈ attempt.pool.history, record.kind = .clr 1 20 [0] 16 := by
  have found : ((RecoveryRun.system unfinished).run (RecoveryRun.restart unfinished) crashAfterClr).any (fun attempt =>
      attempt.tasks.isNone && attempt.pool.history.any fun record => decide (record.kind = .clr 1 20 [0] 16)) =
        true := by
    decide +kernel
  obtain ⟨attempt, executed, found⟩ := (Option.any_eq_true _ _).mp found
  simp only [Bool.and_eq_true, Option.isNone_iff_eq_none, List.any_eq_true, decide_eq_true_eq] at found
  exact ⟨attempt, .run (.start rfl) executed fun _ _ _ => trivial, found⟩

theorem RecoveryRun.crashes_change_nothing_unfinished :
    ∃ attempt, (system unfinished).Reachable attempt ∧
      (∃ record ∈ attempt.pool.history, record.kind = .clr 1 20 [0] 16) ∧
        ∃ single, unfinished.recover id ⟨fun _ => [], fun _ => []⟩ = .ok single ∧
          ∃ again, attempt.pool.recover id ⟨fun _ => [], fun _ => []⟩ = .ok again ∧
            ∀ pageId i, Body pageId i → (again.view pageId).data i = (single.view pageId).data i := by
  obtain ⟨attempt, reached, begins, compensated⟩ := unfinished_interrupted
  obtain ⟨-, recovers⟩ := RecoveryRun.crashes_change_nothing unfinished_crashed reached
  obtain ⟨single, result, -, again⟩ := recovers id (fun _ => .refl _) ⟨fun _ => [], fun _ => []⟩
  exact ⟨attempt, reached, compensated, single, result, again begins⟩

/-- However often it is interrupted, recovery is never stuck, and it ends with what the committed transactions wrote. -/
theorem RecoveryRun.recovery_restores_committed {initial : Nat → PageData} {known : Nat} {leaked : List Nat}
    {gone : List LoggedRecord} {first : SerialPool} (crashed : Crashed initial known leaked gone first)
    {attempt : RecoveryRun} (reached : (RecoveryRun.system first).Reachable attempt) :
    (attempt.tasks ≠ some [] → ∃ action, (action = .run ∨ ∃ losers, action = .analyse losers) ∧
      (attempt.step action).isSome = true) ∧
    (attempt.tasks = some [] → ∀ pageId i, Body pageId i →
      (attempt.pool.view pageId).data i = contentsBy (committed first.history) initial first.history pageId i) ∧
    (attempt.tasks = none → ∀ order : List (Nat × Nat) → List (Nat × Nat), (∀ losers, (order losers).Perm losers) →
      ∀ evictions, ∃ pool', attempt.pool.recover order evictions = .ok pool' ∧ ∀ pageId i, Body pageId i →
        (pool'.view pageId).data i = contentsBy (committed first.history) initial first.history pageId i) := by
  have sound := Sound.reachable crashed reached
  refine ⟨fun unfinished => ?_, fun done pageId i body => sound.contents done body,
    fun begins order permutes evictions => sound.recovers crashed begins permutes evictions⟩
  cases tasks : attempt.tasks with
  | none =>
    obtain ⟨frames, analysis, analysed, -⟩ := Sound.analyse crashed sound.continues
    refine ⟨.analyse analysis.losers, .inr ⟨_, rfl⟩, ?_⟩
    simp [step, tasks, analyse, analysed]
  | some tasks' =>
    cases tasks' with
    | nil => exact absurd tasks unfinished
    | cons task rest =>
      obtain ⟨attempt', executed, -⟩ := sound.next crashed tasks
      refine ⟨.run, .inl rfl, ?_⟩
      simp [step, tasks, executed]

theorem RecoveryRun.recovery_restores_committed_unfinished :
    ∃ attempt, (system unfinished).Reachable attempt ∧
      (∃ record ∈ attempt.pool.history, record.kind = .clr 1 20 [0] 16) ∧
        ∃ pool', attempt.pool.recover id ⟨fun _ => [], fun _ => []⟩ = .ok pool' ∧ (pool'.view 1).data 20 = 0 := by
  obtain ⟨attempt, reached, begins, compensated⟩ := unfinished_interrupted
  obtain ⟨-, -, recovers⟩ := RecoveryRun.recovery_restores_committed unfinished_crashed reached
  obtain ⟨pool', result, contents⟩ := recovers begins id (fun _ => .refl _) ⟨fun _ => [], fun _ => []⟩
  refine ⟨attempt, reached, compensated, pool', result, (contents 1 20 ?_).trans ?_⟩
  · decide
  · decide +kernel

end SimpleRdbms.Storage
