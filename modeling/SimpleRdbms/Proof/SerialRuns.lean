import SimpleRdbms.Proof.Restarts
import SimpleRdbms.Storage.SerialRuns

/-!
# Crashes of a running pool

Whatever transactions have done to a data file with an empty log, a crash leaves what recovery asks for.
-/

namespace SimpleRdbms.Storage
open SimpleRdbms.Lib SerialPool.Analysis

def LogRecordKind.isRunning : LogRecordKind → Bool
  | .begin | .update _ _ _ _ => true
  | .commit | .abort | .endTxn | .allocPage _ | .clr _ _ _ _ | .checkpointBegin | .checkpointEnd _ _ => false

def Running (history : List LoggedRecord) (txnId : Nat) : Prop :=
  (∃ record ∈ history, record.txnId = txnId) ∧ ∀ record ∈ history, record.txnId = txnId → record.kind.isRunning = true

def LoggedRecord.overlaps (record : LoggedRecord) (pageId offset len : Nat) : Bool :=
  record.kind.pageChange.any fun change =>
    change.1 == pageId && decide (change.2.1 < offset + len ∧ offset < change.2.1 + change.2.2.length)

/-- The transaction table sees to the transactions, locks keep the writes apart. -/
def Isolated (known : Nat) (run : SerialRun) : SerialRun.Call → Prop
  | .begin txnId => txnId ≠ CHECKPOINT_TXN ∧ ∀ record ∈ run.pool.history, record.txnId ≠ txnId
  | .write txnId pageId offset bytes => Running run.pool.history txnId ∧ pageId < known ∧
      (pageId = 0 → AvoidsField offset bytes.length) ∧ ∀ record ∈ run.pool.history, record.txnId ≠ txnId →
        ¬ Ended run.pool.history record.txnId → record.overlaps pageId offset bytes.length = false
  | .commit txnId | .abort txnId => Running run.pool.history txnId
  | .undo | .evict _ | .flushLog _ => True

instance (offset len : Nat) : Decidable (AvoidsField offset len) := inferInstanceAs (Decidable (_ ∨ _))

instance (history : List LoggedRecord) (txnId : Nat) : Decidable (Running history txnId) :=
  inferInstanceAs (Decidable (_ ∧ _))

instance (known : Nat) (run : SerialRun) : ∀ call, Decidable (Isolated known run call)
  | .begin _ => inferInstanceAs (Decidable (_ ∧ _))
  | .write _ _ _ _ => inferInstanceAs (Decidable (_ ∧ _ ∧ _ ∧ _))
  | .commit _ | .abort _ => inferInstanceAs (Decidable (Running _ _))
  | .undo | .evict _ | .flushLog _ => inferInstanceAs (Decidable True)

/-- A data file with an empty log. -/
structure Formatted (initial : Nat → PageData) (known : Nat) (disk : DiskManager) : Prop where
  nonempty : 0 < known
  length : disk.length = known
  synced : disk.syncedLength = known
  images : ∀ pageId, ImageOk initial [] pageId (disk.images pageId)
  checks : ∀ pageId, checksumOk (disk.images pageId) = true
  zero : ∀ pageId, known ≤ pageId → initial pageId = zeroData
  blank : headerField (initial 0) = HEADER_LEN

def Follows (history : List LoggedRecord) (txnId : Nat) (kind : LogRecordKind) : Prop :=
  ∀ before last, history = before ++ [last] → last.kind = .commit → txnId = last.txnId ∧ kind = .endTxn

/-- No commit waits for its end or for the device. -/
structure Settled (pool : SerialPool) : Prop where
  follows : ∀ txnId kind, Follows pool.history txnId kind
  durable : ∀ record ∈ pool.history, record.kind = .commit → record.lsn < pool.log.durableLsn

section Sequential
variable {history rest : List LoggedRecord} {record : LoggedRecord}

theorem Sequential.snoc (sequential : Sequential history) (follows : Follows history record.txnId record.kind) :
    Sequential (history ++ [record]) := by
  intro before found after split commit
  rcases List.eq_nil_or_concat after with rfl | ⟨middle, final, rfl⟩
  · exact .inl rfl
  · have regroup : history ++ [record] = (before ++ found :: middle) ++ [final] := by
      rw [split]
      simp
    obtain ⟨rfl, same⟩ := List.append_inj' regroup rfl
    obtain rfl : record = final := by simpa using same
    rcases sequential before found middle rfl commit with rfl | ⟨ended, rest, rfl, ends⟩
    · exact .inr ⟨record, [], by simp, follows before found rfl commit⟩
    · exact .inr ⟨ended, rest ++ [record], by simp, ends⟩

theorem Sequential.of_append (sequential : Sequential (history ++ rest)) : Sequential history := by
  intro before record after split commit
  rcases sequential before record (after ++ rest) (by simp [split]) commit with none | ⟨ended, tail, cons, ends⟩
  · exact .inl (List.append_eq_nil_iff.mp none).1
  · cases after with
    | nil => exact .inl rfl
    | cons next after =>
      obtain ⟨rfl, -⟩ := List.cons.inj cons
      exact .inr ⟨next, after, rfl, ends⟩

end Sequential

section Settled
variable {pool pool' : SerialPool} {txnId : Nat} {kind : LogRecordKind}

theorem Settled.append {frames : AList fun _ : Nat => Resident}
    (durable : ∀ record ∈ pool.history, record.kind = .commit → record.lsn < pool.log.durableLsn)
    (other : kind ≠ .commit) : Settled { pool.appendLog txnId kind with frames } := by
  refine ⟨fun _ _ before last split commit => ?_, fun record member commit => ?_⟩
  · obtain ⟨-, same⟩ := List.append_inj' split rfl
    obtain rfl : pool.log.nextRecord txnId kind = last := by simpa using same
    exact absurd commit other
  · rcases List.mem_append.mp member with old | new
    · exact durable record old commit
    · obtain rfl := List.mem_singleton.mp new
      exact absurd commit other

theorem Settled.flushed (settled : Settled pool) (flushed : Flushed pool pool') : Settled pool' := by
  refine ⟨flushed.history ▸ settled.follows, fun record member commit => ?_⟩
  exact Nat.lt_of_lt_of_le (settled.durable record (flushed.history ▸ member) commit) flushed.durable

theorem Settled.commit (settled : Settled pool) (holds : pool.log.Holds pool.history []) :
    Settled (pool.commit txnId) := by
  have logged := holds.append txnId .commit
  refine Settled.append (fun record member commit => ?_) (by simp)
  rcases List.mem_append.mp member with old | new
  · exact Nat.lt_of_lt_of_le (settled.durable record old commit) (logged.flush_grows _)
  · rcases LogManager.Holds.flush_durable (pool.log.append txnId .commit) pool.log.nextLsn with done | done
    · exact List.mem_singleton.mp new ▸ done
    · exact lt_of_lt_of_eq (logged.lsn_lt member) done.symm

end Settled

def everyone (_ : Nat) : Bool := true

theorem undoLog_everyone (history : List LoggedRecord) : undoLog everyone history = entries history :=
  UndoLog.demote_all

section Running
variable {history : List LoggedRecord} {txnId : Nat}

theorem Running.acts (running : Running history txnId) {found : UndoLog.Entry Nat (Nat × Nat) UInt8}
    (member : found ∈ undoLog everyone history) (mine : found.txn = txnId) :
    found.act = .start ∨ ∃ before after, found.act = .write before after := by
  rw [undoLog_everyone] at member
  obtain ⟨record, isRecord, rfl⟩ := List.mem_map.mp member
  have kind := running.2 record isRecord mine
  cases isKind : record.kind <;> simp_all [LogRecordKind.isRunning, entry, LogRecordKind.act]

theorem Running.unresolved (running : Running history txnId) : ¬ UndoLog.Closed (undoLog everyone history) txnId ∧
    ¬ UndoLog.Committed (undoLog everyone history) txnId ∧ ¬ UndoLog.Restored (undoLog everyone history) txnId := by
  refine ⟨?_, ?_, ?_⟩ <;> rintro ⟨found, member, mine, act⟩ <;>
    rcases running.acts member mine with start | ⟨_, _, write⟩ <;> simp_all

end Running

section Patches
variable {pageId offset : Nat} {before after : List UInt8} {x : Nat × Nat}

theorem patch_isSome : (patch pageId offset before x).isSome = true ↔
    (x.1 = pageId ∧ Body x.1 x.2 ∧ offset ≤ x.2) ∧ x.2 < offset + before.length := by
  unfold patch
  split
  · rename_i inside
    have := inside.2.2
    rw [and_iff_right inside, isSome_getElem?]
    omega
  · rename_i outside
    simp [outside]

theorem patch_read {data : PageData} {len : Nat} {v : UInt8}
    (here : patch pageId offset (readBytes data offset len) x = some v) :
    x.1 = pageId ∧ Body x.1 x.2 ∧ data x.2 = v := by
  unfold patch at here
  split at here
  · rename_i inside
    obtain ⟨-, read⟩ : x.2 - offset < len ∧ data (offset + (x.2 - offset)) = v := by
      simpa [readBytes, List.getElem?_eq_some_iff] using here
    rw [Nat.add_sub_cancel' inside.2.2] at read
    exact ⟨inside.1, inside.2.1, read⟩
  · cases here

end Patches

def LogRecordKind.Plain (kind : LogRecordKind) : Prop :=
  kind.isCheckpoint = false ∧
    ∀ offset bytes, kind.pageChange = some (0, offset, bytes) → AvoidsField offset bytes.length

structure Live (initial : Nat → PageData) (known : Nat) (origin : DiskManager) (pool : SerialPool) : Prop where
  undoing : Undoing initial known [] [] everyone pool
  undone : UndoLog.Exact (undoLog everyone pool.history)
  plain : ∀ record ∈ pool.history, record.kind.Plain
  sequential : Sequential pool.history
  fallback : Fallback initial pool origin
  synced : known ≤ pool.disk.syncedLength

namespace Live
variable {initial : Nat → PageData} {known : Nat} {disk : DiskManager} {pool pool' : SerialPool}
  {txnId pageId offset : Nat} {kind : LogRecordKind} {bytes : List UInt8}

theorem start (formatted : Formatted initial known disk) (targetSegmentSize dwbCapacity : Nat) :
    Live initial known disk (SerialRun.start targetSegmentSize dwbCapacity disk).pool := by
  have fresh : ∀ pageId, (disk.images pageId).lsn = 0 := fun pageId => (formatted.images pageId).lsn
  have lengths := formatted.length.trans formatted.synced.symm
  have pages : Pages initial (SerialRun.start targetSegmentSize dwbCapacity disk).pool [] := {
    disk := formatted.images
    checks := formatted.checks
    synced := fun pageId changed => absurd (fresh pageId) changed
    length := Nat.le_of_eq lengths.symm
    frames := by simp [SerialRun.start]
    clean := by simp [SerialRun.start]
    ordered := by simp [SerialRun.start]
    wal := fun pageId => lt_of_eq_of_lt (fresh pageId) (by decide : 0 < HEADER_LEN) }
  exact {
    undoing := ⟨⟨pages, LogManager.Holds.create _, Nat.le_of_eq formatted.length.symm, by simp [SerialRun.start],
      by simp [SerialRun.start]⟩, .nil, by simp, .nil⟩
    undone := by simp [SerialRun.start, UndoLog.Exact, undoLog, UndoLog.demote]
    plain := by simp [SerialRun.start]
    sequential := by simp [SerialRun.start, Sequential]
    fallback := ⟨formatted.images, formatted.checks, fun _ => Nat.le_refl _⟩
    synced := Nat.le_of_eq formatted.synced.symm }

section
variable (live : Live initial known disk pool)
include live

theorem kept (appears : Appears pool.history txnId) : Undoing.Kept [] pool txnId := by
  refine ⟨appears, fun record member _ base laid => ?_⟩
  have header : HEADER_LEN = base := laid
  exact header ▸ (live.undoing.state.holds.whole.bounds member).1

theorem last (txnId : Nat) : pool.log.lastLsnByTxn txnId = lastLsnOf pool.history txnId := by
  have holds := live.undoing.state.holds
  by_cases appears : Appears pool.history txnId
  · obtain ⟨record, member, mine⟩ := appears
    exact holds.last txnId (.inl ⟨record, holds.history_eq ▸ member, mine⟩)
  · exact holds.last txnId (.inr fun record member mine => appears ⟨record, member, mine⟩)

theorem user (appears : Appears pool.history txnId) : txnId ≠ CHECKPOINT_TXN := by
  obtain ⟨record, member, rfl⟩ := appears
  obtain ⟨before, after, -, ranged⟩ := live.undoing.ranges.member member
  exact fun same => Bool.noConfusion ((live.plain record member).1.symm.trans (ranged.owned.mp same))

theorem flushed (result : Pages.FlushResult initial pool pool' pool.history []) :
    Live initial known disk pool' := by
  have same := result.flushed.history
  obtain ⟨state, ranges, used, wellFormed⟩ := live.undoing
  rw [← same] at ranges used wellFormed
  exact {
    undoing := ⟨same ▸ state.flushed result, ranges, used, wellFormed⟩
    undone := same ▸ live.undone
    plain := same ▸ live.plain
    sequential := same ▸ live.sequential
    fallback := ⟨same ▸ live.fallback.images, live.fallback.checks, fun pageId =>
      Nat.le_trans (live.fallback.newer pageId) (result.flushed.disk pageId)⟩
    synced := Nat.le_trans live.synced result.flushed.synced }

theorem append {frames : AList fun _ : Nat => Resident}
    (undoing : Undoing initial known [] [] everyone { pool.appendLog txnId kind with frames })
    (undone : ∀ after next, kind.act = .restore after next → ∃ write ∈ undoLog everyone pool.history,
      write.txn = txnId ∧ write.prev.getD 0 = next ∧
        ∃ deeper, UndoLog.stack (undoLog everyone pool.history) txnId = (write.pos, after) :: deeper)
    (plain : kind.Plain) (follows : Follows pool.history txnId kind) :
    Live initial known disk { pool.appendLog txnId kind with frames } := by
  refine ⟨undoing, ?_, fun record member => ?_, live.sequential.snoc follows,
    ⟨fun pageId => ?_, live.fallback.checks, live.fallback.newer⟩, live.synced⟩
  · rw [undoLog_everyone, SerialPool.appendLog, entries_snoc]
    rw [undoLog_everyone] at undone
    exact (undoLog_everyone _ ▸ live.undone).snoc undone
  · rcases List.mem_append.mp member with before | last
    · exact live.plain record before
    · exact List.mem_singleton.mp last ▸ plain
  · refine (live.fallback.images pageId).append fun record member => ?_
    obtain rfl := List.mem_singleton.mp member
    exact Nat.lt_of_le_of_lt (live.fallback.newer pageId)
      (Nat.lt_of_lt_of_le (live.undoing.state.pages.wal pageId) live.undoing.state.holds.buffered.le)

theorem note (user : txnId ≠ CHECKPOINT_TXN) (running : ¬ UndoLog.Closed (undoLog everyone pool.history) txnId)
    (quiet : kind = .begin ∨ kind = .commit ∨ kind = .abort ∨ kind = .endTxn)
    (fresh : kind = .begin → ∀ old ∈ pool.history, old.txnId ≠ txnId)
    (allowed : UndoLog.Allowed (fun x => initial x.1 x.2) (undoLog everyone pool.history) txnId kind.act)
    (follows : Follows pool.history txnId kind) : Live initial known disk (pool.appendLog txnId kind) := by
  have legit := live.undoing.legit (live.last txnId) running kind
  have unchanged : kind.pageChange = none := by rcases quiet with rfl | rfl | rfl | rfl <;> rfl
  have ordinary : kind.isCheckpoint = false := by rcases quiet with rfl | rfl | rfl | rfl <;> rfl
  refine live.append (live.undoing.appendQuiet unchanged ?_ ordinary user fresh (legit ?_)) ?_ ⟨ordinary, ?_⟩ follows
  · rcases quiet with rfl | rfl | rfl | rfl <;> simp
  · rcases quiet with rfl | rfl | rfl | rfl <;> exact allowed
  · rcases quiet with rfl | rfl | rfl | rfl <;> simp [LogRecordKind.act]
  · simp [unchanged]

section
variable (running : Running pool.history txnId) (inside : pageId < known)
  (free : ∀ record ∈ pool.history, record.txnId ≠ txnId → ¬ Ended pool.history record.txnId →
    record.overlaps pageId offset bytes.length = false)
include running inside free

theorem logUpdate (range : offset + bytes.length ≤ PAGE_SIZE) {before : List UInt8}
    (read : before = readBytes (pool.view pageId).data offset bytes.length) :
    Stamping initial known [] [] everyone (pool.appendLog txnId (.update pageId offset before bytes)) pool.history
      (pool.log.nextRecord txnId (.update pageId offset before bytes)) pageId offset bytes := by
  obtain ⟨state, ranges, used, wellFormed⟩ := live.undoing
  obtain ⟨notClosed, uncommitted, -⟩ := running.unresolved
  have sameLength : before.length = bytes.length := by simp [read]
  refine ⟨rfl, rfl, state.appendLog _ _, live.undoing.view_lsn_lt, ⟨?_, ?_, ?_, ?_⟩, ranges, used, by simp, ?_⟩
  · intro page at_ written change
    obtain ⟨rfl, rfl, rfl⟩ : pageId = page ∧ offset = at_ ∧ bytes = written := by
      simpa [LogRecordKind.pageChange] using change
    exact ⟨range, .inl inside⟩
  · intro page at_ old new isUpdate
    obtain ⟨-, -, rfl, rfl⟩ : pageId = page ∧ offset = at_ ∧ before = old ∧ bytes = new := by
      simpa using isUpdate
    exact sameLength
  · simp [live.user running.1, LogRecordKind.isCheckpoint]
  · exact fun isBegin => LogRecordKind.noConfusion isBegin
  rw [undoLog_snoc]
  refine .snoc wellFormed (live.undoing.legit (live.last txnId) notClosed _
    ⟨fun x => ?_, fun x v here => ?_, ?_, uncommitted⟩)
  · rw [Bool.eq_iff_iff, patch_isSome, patch_isSome, sameLength]
  · subst read
    obtain ⟨rfl, body, rfl⟩ := patch_read here
    rw [Restart.view_contents state rfl body, contents_eq_value body, UndoLog.value_demote]
  · intro x here other different open_ write stacked
    obtain ⟨found, isFound, -, rfl, _, act⟩ := UndoLog.stack_member stacked
    rw [undoLog_everyone] at isFound
    obtain ⟨old, isOld, rfl⟩ := List.mem_map.mp isFound
    rw [UndoLog.closed_demote, closed_entries] at open_
    have apart := free old isOld different open_
    cases kind : old.kind with
    | update page at_ overwritten new =>
      obtain ⟨_, _, -, ranged⟩ := ranges.member isOld
      have length := ranged.images page at_ overwritten new kind
      have patched : patch page at_ overwritten = write.2 := by
        simp only [entry, kind, LogRecordKind.act, UndoLog.Act.write.injEq] at act
        exact act.1
      rw [← patched]
      by_contra there
      obtain ⟨⟨rfl, -, low⟩, high⟩ := patch_isSome.mp here
      obtain ⟨⟨rfl, -, low'⟩, high'⟩ := patch_isSome.mp (Option.isSome_iff_ne_none.mpr there)
      simp [LoggedRecord.overlaps, kind, LogRecordKind.pageChange] at apart
      omega
    | _ => simp [entry, kind, LogRecordKind.act] at act

theorem write (settled : Settled pool) (avoids : pageId = 0 → AvoidsField offset bytes.length)
    (written : pool.write txnId pageId offset bytes = .ok pool') :
    Live initial known disk pool' ∧ Settled pool' := by
  obtain ⟨frames, resident, fetch, here, shows, state, view⟩ :=
    live.undoing.state.fetchPage (Nat.lt_of_lt_of_le inside live.undoing.state.length)
  have fetched : Live initial known disk { pool with frames } :=
    ⟨{ live.undoing with state }, live.undone, live.plain, live.sequential,
      ⟨live.fallback.images, live.fallback.checks, live.fallback.newer⟩, live.synced⟩
  simp only [SerialPool.write, fetch, bind, Except.bind] at written
  split at written
  · rename_i range
    have stamping := fetched.logUpdate running inside free range
      (show readBytes resident.page.data offset bytes.length = _ by rw [view, shows])
    obtain ⟨frames', stamped, undoing⟩ := stamping.stamp
    simp only [SerialPool.stampWrite, SerialPool.fetchPage, SerialPool.appendLog, here, bind, Except.bind, range,
      if_true] at stamped
    obtain rfl := Except.ok.inj (written.symm.trans stamped)
    refine ⟨fetched.append undoing (by simp [LogRecordKind.act]) ⟨rfl, ?_⟩ (settled.follows _ _),
      .append settled.durable (by simp)⟩
    intro at_ new change
    obtain ⟨zero, rfl, rfl⟩ : pageId = 0 ∧ offset = at_ ∧ bytes = new := by
      simpa [LogRecordKind.pageChange] using change
    exact avoids zero
  · cases written

end

theorem commit (settled : Settled pool) (running : Running pool.history txnId) :
    Live initial known disk (pool.commit txnId) := by
  obtain ⟨open_, -, unrestored⟩ := running.unresolved
  have user := live.user running.1
  have logged := live.note user open_ (.inr (.inl rfl)) (by simp) unrestored (settled.follows _ _)
  have flushed : Live initial known disk ((pool.appendLog txnId .commit).flushLog pool.log.nextLsn) :=
    logged.flushed (logged.undoing.state.pages.flushLog logged.undoing.state.holds _)
  refine flushed.note user ?_ (.inr (.inr (.inr rfl))) (by simp) (.inl ?_) fun before last split _ => ?_
  · exact Undoing.running_append open_ (by simp)
  · refine UndoLog.committed_demote.mpr ⟨committed_entries.mpr ⟨pool.log.nextRecord txnId .commit, ?_, rfl, rfl⟩, rfl⟩
    simp [SerialPool.flushLog, SerialPool.appendLog]
  · obtain ⟨-, same⟩ := List.append_inj' split rfl
    obtain rfl : pool.log.nextRecord txnId .commit = last := by simpa using same
    exact ⟨rfl, rfl⟩

theorem crash (formatted : Formatted initial known disk) {length : Nat} (low : pool.disk.syncedLength ≤ length)
    (kept : Nat) (survives : Nat → Bool) :
    Crashed initial known [] [] (pool.crash disk kept length survives) := by
  obtain ⟨state, ranges, used, wellFormed⟩ := live.undoing
  have enough := Nat.le_trans live.synced low
  have pages := state.pages.crash state.holds live.fallback kept survives fun pageId beyond =>
    formatted.zero pageId (Nat.le_trans enough beyond)
  have synced : known ≤ (pool.crash disk kept length survives).disk.syncedLength := enough
  have survived := pool.crash_survives state.holds disk kept length survives
  generalize pool.crash disk kept length survives = left at survived pages synced
  obtain ⟨lost, split, -⟩ := survived.lost
  have holds := survived.holds
  have undone := live.undone
  rw [undoLog_everyone, split, entries, List.map_append] at wellFormed undone
  have part : ∀ record ∈ left.history, record ∈ pool.history := fun record member =>
    split ▸ List.mem_append_left _ member
  have base : left.log.base = HEADER_LEN := holds.dropped.symm
  have anchored : Anchored left.disk [] left.log.base left.log.nextLsn left.history HEADER_LEN := by
    refine ⟨Nat.le_of_eq base, Nat.le_refl _, .inl rfl, fun record att dpt first carries => ?_⟩
    have plain := (live.plain record (part record first.member)).1
    rw [snapshot?_none fun att dpt kind => by simp [kind, LogRecordKind.isCheckpoint] at plain] at carries
    cases carries
  have avoids : ∀ startable : Nat → Prop, ∀ record ∈ left.history, ∀ offset bytes,
      record.kind.pageChange = some (0, offset, bytes) → HeaderWrite startable offset bytes :=
    fun _ record member offset bytes change => .inl ((live.plain record (part record member)).2 offset bytes change)
  have headers : HeaderWrites initial (· = HEADER_LEN) 0 left.history := by
    refine ⟨?_, fun record member _ => avoids _ record member⟩
    have none : upTo left.history 0 = [] := by
      simpa [upTo] using fun record member => Nat.ne_of_gt (holds.lsn_pos member)
    rw [none]
    exact formatted.blank
  exact {
    pages
    holds
    flushed := survived.flushed
    nonempty := formatted.nonempty
    synced
    zero := formatted.zero
    ranges := Ranges.of_append (split ▸ ranges)
    used := by simp
    wellFormed := wellFormed.of_append
    undone := undone.of_append
    sequential := Sequential.of_append (split ▸ live.sequential)
    kept := fun record member _ _ => base ▸ (holds.whole.bounds member).1
    headers := by
      refine ⟨?_, fun record member _ => avoids _ record member⟩
      rw [headers.version holds.whole.sorted (Nat.zero_le _)]
      exact anchored
    undoable := fun record member _ _ offset before after isUpdate => by
      obtain ⟨_, _, -, ranged⟩ := ranges.member (part record member)
      refine .inl ?_
      rw [ranged.images 0 offset before after isUpdate]
      exact (live.plain record (part record member)).2 offset after (by rw [isUpdate]; rfl) }

end

end Live

structure Aborts (history : List LoggedRecord) (txnId : Nat) (cursor : Option Nat) : Prop where
  appears : Appears history txnId
  running : ¬ UndoLog.Closed (undoLog everyone history) txnId
  uncommitted : ¬ UndoLog.Committed (undoLog everyone history) txnId
  walks : Undoing.Walks everyone history txnId cursor

structure Serves (initial : Nat → PageData) (known : Nat) (disk : DiskManager) (run : SerialRun) : Prop where
  live : Live initial known disk run.pool
  settled : Settled run.pool
  aborts : ∀ txnId cursor, run.aborting = some (txnId, cursor) → Aborts run.pool.history txnId cursor

namespace Serves
variable {initial : Nat → PageData} {known : Nat} {disk : DiskManager} {pool pool' : SerialPool}
  {run run' : SerialRun} {txnId : Nat} {cursor : Option Nat}

theorem finish (live : Live initial known disk pool) (settled : Settled pool)
    (aborts : Aborts pool.history txnId none) :
    Live initial known disk (pool.finishUndo txnId) ∧ Settled (pool.finishUndo txnId) := by
  have user := live.user aborts.appears
  have none : UndoLog.stack (undoLog everyone pool.history) txnId = [] := aborts.walks
  have aborted := live.note user aborts.running (.inr (.inr (.inl rfl))) (by simp) trivial (settled.follows _ _)
  have between : Settled (pool.appendLog txnId .abort) := .append settled.durable (by simp)
  refine ⟨aborted.note user ?_ (.inr (.inr (.inr rfl))) (by simp) (.inr ?_) (between.follows _ _),
    .append between.durable (by simp)⟩
  · exact Undoing.running_append aborts.running (by simp)
  · rw [SerialPool.appendLog, undoLog_snoc, UndoLog.stack_snoc, none]
    simp [UndoLog.Entry.stacked, UndoLog.Entry.demote, entry, LogRecordKind.act]

theorem undo (live : Live initial known disk pool) (settled : Settled pool)
    (aborts : Aborts pool.history txnId cursor) (undone : SerialRun.undo pool txnId cursor = some run') :
    Serves initial known disk run' := by
  unfold SerialRun.undo at undone
  cases cursor with
  | none =>
    obtain rfl := Option.some.inj undone
    obtain ⟨live, settled⟩ := finish live settled aborts
    exact ⟨live, settled, by simp⟩
  | some lsn =>
    have kept := live.kept aborts.appears
    obtain ⟨record, member, rfl, mine, read, -, met⟩ := live.undoing.meets kept aborts.walks
    simp only [Option.bind_some, read] at undone
    cases met with
    | @update pageId offset before after rest kind top moved =>
      have stamping := live.undoing.logCompensation kept aborts.running (live.user aborts.appears) aborts.uncommitted
        member kind top moved
      obtain ⟨frames, stamped, undoing⟩ := stamping.stamp
      simp only [SerialPool.undoRecord, kind, SerialPool.evictAll, List.foldl_nil] at undone
      rw [show pool.log.nextLsn = (pool.log.nextRecord txnId _).lsn from rfl, stamped] at undone
      obtain rfl := Option.some.inj undone
      refine ⟨live.append undoing ?_ ⟨rfl, ?_⟩ (settled.follows _ _), .append settled.durable (by simp), ?_⟩
      · intro restored next act
        obtain ⟨rfl, rfl⟩ : patch pageId offset before = restored ∧ record.prevLsn.getD 0 = next := by
          simpa [LogRecordKind.act] using act
        rw [undoLog_everyone] at top ⊢
        exact ⟨entry record, List.mem_map_of_mem member, mine, rfl, rest, top⟩
      · intro at_ bytes change
        obtain ⟨rfl, rfl, rfl⟩ : pageId = 0 ∧ offset = at_ ∧ before = bytes := by
          simpa [LogRecordKind.pageChange] using change
        obtain ⟨_, _, -, ranged⟩ := live.undoing.ranges.member member
        rw [ranged.images 0 offset before after kind]
        exact (live.plain record member).2 offset after (by rw [kind]; rfl)
      · rintro other next same
        obtain ⟨rfl, rfl⟩ : txnId = other ∧ record.prevLsn = next := by simpa using same
        refine ⟨⟨record, List.mem_append_left _ member, mine⟩, ?_, ?_, ?_⟩
        · exact Undoing.running_append aborts.running (by simp)
        · rw [SerialPool.appendLog, undoLog_snoc, UndoLog.committed_snoc]
          rintro (old | ⟨-, act⟩)
          · exact aborts.uncommitted old
          · simp [UndoLog.Entry.demote, entry, LogRecordKind.act] at act
        · exact Undoing.cursor_popped rfl rfl stamping.wellFormed top moved
    | passes quiet moved =>
      rw [Undoing.undoRecord_passes _ quiet] at undone
      obtain rfl := Option.some.inj undone
      refine ⟨live, settled, fun other next same => ?_⟩
      obtain ⟨rfl, rfl⟩ : txnId = other ∧ Undoing.nextCursor record = next := by simpa using same
      exact { aborts with walks := moved }

theorem flushed (serves : Serves initial known disk run)
    (result : Pages.FlushResult initial run.pool pool' run.pool.history []) :
    Serves initial known disk { run with pool := pool' } :=
  ⟨serves.live.flushed result, serves.settled.flushed result.flushed, result.flushed.history ▸ serves.aborts⟩

theorem step (serves : Serves initial known disk run) {call : SerialRun.Call} (isolated : Isolated known run call)
    (stepped : run.step call = some run') : Serves initial known disk run' := by
  have state := serves.live.undoing.state
  have evicted := fun pageId => serves.flushed (state.pages.evict state.holds pageId)
  have logged := fun upTo => serves.flushed (state.pages.flushLog state.holds upTo)
  obtain ⟨live, settled, aborts⟩ := serves
  obtain ⟨pool, aborting⟩ := run
  cases aborting with
  | some abort =>
    obtain ⟨txnId, cursor⟩ := abort
    cases call with
    | undo => exact undo live settled (aborts txnId cursor rfl) stepped
    | evict pageId => exact Option.some.inj stepped ▸ evicted pageId
    | flushLog upTo => exact Option.some.inj stepped ▸ logged upTo
    | _ => cases stepped
  | none =>
    cases call with
    | begin txnId =>
      obtain ⟨user, fresh⟩ := isolated
      obtain rfl := Option.some.inj stepped
      have open_ : ¬ UndoLog.Closed (undoLog everyone pool.history) txnId := by
        rw [UndoLog.closed_demote, closed_entries]
        rintro ⟨record, member, mine, -⟩
        exact fresh record member mine
      have empty : UndoLog.stack (undoLog everyone pool.history) txnId = [] := by
        rw [UndoLog.stack_demote]
        exact Restart.stack_of_no_update fun record member mine => absurd mine (fresh record member)
      exact ⟨live.note user open_ (.inl rfl) (fun _ => fresh) empty (settled.follows _ _),
        .append settled.durable (by simp), by simp⟩
    | write txnId pageId offset bytes =>
      obtain ⟨running, inside, avoids, free⟩ := isolated
      simp only [SerialRun.step, SerialRun.write] at stepped
      split at stepped
      · cases stepped
      · rename_i pool' written
        obtain rfl := Option.some.inj stepped
        obtain ⟨live, settled⟩ := live.write running inside free settled avoids written
        exact ⟨live, settled, by simp⟩
    | commit txnId =>
      obtain rfl := Option.some.inj stepped
      exact ⟨live.commit settled isolated, settled.commit state.holds, by simp⟩
    | abort txnId =>
      obtain rfl := Option.some.inj stepped
      obtain ⟨open_, uncommitted, -⟩ := isolated.unresolved
      refine ⟨live, settled, fun other next same => ?_⟩
      obtain ⟨lsn, last, rfl, rfl⟩ : ∃ lsn, pool.log.lastLsnByTxn txnId = some lsn ∧ txnId = other ∧
        some lsn = next := by simpa using same
      refine ⟨isolated.1, open_, uncommitted, ?_⟩
      have cursor := UndoLog.Cursor.last txnId live.undoing.wellFormed
      rwa [UndoLog.lastPos_demote, lastPos_entries, ← live.last, last] at cursor
    | evict pageId => exact Option.some.inj stepped ▸ evicted pageId
    | flushLog upTo => exact Option.some.inj stepped ▸ logged upTo
    | undo => cases stepped

end Serves

namespace SerialRun
variable {initial : Nat → PageData} {known targetSegmentSize dwbCapacity length : Nat} {disk : DiskManager}
  {run : SerialRun} (formatted : Formatted initial known disk)
  (reached : (system targetSegmentSize dwbCapacity disk).ReachableBy (Isolated known) run)
include formatted reached

theorem serves : Serves initial known disk run := by
  refine reached.invariant (P := Serves initial known disk) (fun run begun => ?_)
    fun run call run' serves isolated stepped => serves.step isolated stepped
  obtain rfl : run = start targetSegmentSize dwbCapacity disk := begun
  exact ⟨Live.start formatted _ _, ⟨by simp [start, Follows], by simp [start]⟩, by simp [start]⟩

/-- Between two calls a running pool may crash at any time. -/
theorem crashed (low : run.pool.disk.syncedLength ≤ length) (kept : Nat) (survives : Nat → Bool) :
    Crashed initial known [] [] (run.pool.crash disk kept length survives) :=
  (serves formatted reached).live.crash formatted low kept survives

/-- What is lost with the log changes nothing that was committed. -/
theorem crash_contents (kept : Nat) (survives : Nat → Bool) (pageId : Nat) :
    contentsBy (committed (run.pool.crash disk kept length survives).history) initial
        (run.pool.crash disk kept length survives).history pageId =
      contentsBy (committed run.pool.history) initial run.pool.history pageId := by
  obtain ⟨live, settled, -⟩ := serves formatted reached
  have survived := run.pool.crash_survives live.undoing.state.holds disk kept length survives
  have logged := live.undoing.wellFormed
  generalize run.pool.crash disk kept length survives = left at survived
  obtain ⟨lost, split, late⟩ := survived.lost
  have unlost : ∀ record ∈ lost, record.kind ≠ .commit := by
    intro record member commit
    have early := settled.durable record (split ▸ List.mem_append_right _ member) commit
    exact absurd (Nat.lt_of_lt_of_le early survived.durable) (Nat.not_lt.mpr (late record member))
  have commits : ∀ txnId, Commits (left.history ++ lost) txnId → Commits left.history txnId := by
    rintro txnId ⟨record, member, mine, commit⟩
    exact ⟨record, (List.mem_append.mp member).resolve_right fun new => unlost record new commit, mine, commit⟩
  have same : committed left.history = committed (left.history ++ lost) := by
    funext txnId
    refine decide_eq_decide.mpr ⟨?_, commits txnId⟩
    rintro ⟨record, member, mine⟩
    exact ⟨record, List.mem_append_left _ member, mine⟩
  rw [undoLog_everyone, split, entries, List.map_append] at logged
  rw [split, same]
  refine (Restart.contentsBy_append fun record member wins pageId offset before after isUpdate => ?_).symm
  refine logged.write_uncommitted (List.mem_map_of_mem member) (by rw [entry, isUpdate]; rfl) ?_
  exact committed_entries.mpr (commits _ (of_decide_eq_true wins))

end SerialRun

end SimpleRdbms.Storage
