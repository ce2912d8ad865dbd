import SimpleRdbms.Proof.Redo

namespace SimpleRdbms.Storage
open SimpleRdbms.Lib

abbrev undoLog (winner : Nat → Bool) (history : List LoggedRecord) : UndoLog.Log Nat (Nat × Nat) UInt8 :=
  UndoLog.demote winner (entries history)

theorem undoLog_snoc (winner : Nat → Bool) (history : List LoggedRecord) (record : LoggedRecord) :
    undoLog winner (history ++ [record]) = undoLog winner history ++ [(entry record).demote winner] := by
  rw [undoLog, entries_snoc, UndoLog.demote_snoc]

section Appended
variable {initial : Nat → PageData} {pool : SerialPool} {gone : List LoggedRecord}

theorem Pages.appendLog (pages : Pages initial pool pool.history)
    (holds : pool.log.Holds pool.history gone) (txnId : Nat) (kind : LogRecordKind) :
    Pages initial (pool.appendLog txnId kind) (pool.appendLog txnId kind).history := by
  refine pages.grow (Nat.le_refl _) fun record member pageId => ?_
  obtain rfl : record = pool.log.nextRecord txnId kind := by simpa using member
  refine ⟨Nat.lt_of_lt_of_le (pages.wal pageId) holds.buffered.le, fun resident present => ?_⟩
  exact pages.lsn_known holds present

theorem Recovering.appendLog {known : Nat} {leaked : List Nat} {past : List LoggedRecord}
    (state : Recovering initial known leaked gone pool past) (txnId : Nat) (kind : LogRecordKind) :
    Recovering initial known leaked gone (pool.appendLog txnId kind) past := by
  exact { state with
    pages := state.pages.appendLog state.holds txnId kind
    holds := state.holds.append txnId kind }

end Appended

structure Undoing (initial : Nat → PageData) (known : Nat) (leaked : List Nat) (gone : List LoggedRecord)
    (winner : Nat → Bool) (pool : SerialPool) : Prop where
  state : Recovering initial known leaked gone pool pool.history
  ranges : Ranges known pool.history
  used : ∀ record ∈ pool.history, ∀ pageId, record.changes pageId = true → pageId ∉ leaked
  wellFormed : UndoLog.WellFormed (fun x => initial x.1 x.2) (undoLog winner pool.history)

structure Stamping (initial : Nat → PageData) (known : Nat) (leaked : List Nat) (gone : List LoggedRecord)
    (winner : Nat → Bool) (pool : SerialPool) (past : List LoggedRecord) (clr : LoggedRecord)
    (pageId offset : Nat) (bytes : List UInt8) : Prop where
  history : pool.history = past ++ [clr]
  change : clr.kind.pageChange = some (pageId, offset, bytes)
  state : Recovering initial known leaked gone pool past
  behind : ∀ other, (pool.view other).lsn < clr.lsn
  ranged : Ranged known past clr
  ranges : Ranges known past
  used : ∀ record ∈ past, ∀ pageId, record.changes pageId = true → pageId ∉ leaked
  usedHere : pageId ∉ leaked
  wellFormed : UndoLog.WellFormed (fun x => initial x.1 x.2) (undoLog winner (past ++ [clr]))

namespace Undoing
variable {initial : Nat → PageData} {known : Nat} {leaked : List Nat} {gone : List LoggedRecord}
  {winner : Nat → Bool} {pool pool' : SerialPool} {txnId : Nat}

def Kept (gone : List LoggedRecord) (pool : SerialPool) (txnId : Nat) : Prop :=
  (∃ record ∈ pool.history, record.txnId = txnId) ∧ ∀ record ∈ pool.history, record.txnId = txnId →
    ∀ base, LaidOut HEADER_LEN gone base → base ≤ record.lsn

theorem kept_last (undoing : Undoing initial known leaked gone winner pool) (kept : Kept gone pool txnId) :
    pool.log.lastLsnByTxn txnId = lastLsnOf pool.history txnId := by
  have holds := undoing.state.holds
  obtain ⟨⟨record, member, rfl⟩, low⟩ := kept
  exact holds.last_of_member member (low record member rfl _ holds.dropped)

theorem kept_readAt (undoing : Undoing initial known leaked gone winner pool) (kept : Kept gone pool txnId)
    {record : LoggedRecord} (member : record ∈ pool.history) (mine : record.txnId = txnId) :
    pool.log.readAt record.lsn = some record := by
  have holds := undoing.state.holds
  exact holds.readAt member (kept.2 record member mine _ holds.dropped)

theorem Kept.append {rest : List LoggedRecord} (kept : Kept gone pool txnId)
    (history : pool'.history = pool.history ++ rest)
    (later : ∀ record ∈ rest, ∀ base, LaidOut HEADER_LEN gone base → base ≤ record.lsn) : Kept gone pool' txnId := by
  obtain ⟨⟨record, member, mine⟩, low⟩ := kept
  rw [Kept, history]
  refine ⟨⟨record, List.mem_append_left _ member, mine⟩, fun record member mine => ?_⟩
  rcases List.mem_append.mp member with old | new
  · exact low record old mine
  · exact later record new

section
variable (undoing : Undoing initial known leaked gone winner pool)
include undoing

theorem next_later (txnId : Nat) (kind : LogRecordKind) : ∀ added ∈ [pool.log.nextRecord txnId kind],
    ∀ base, LaidOut HEADER_LEN gone base → base ≤ added.lsn := by
  have holds := undoing.state.holds
  intro added isAdded base laid
  obtain rfl := List.mem_singleton.mp isAdded
  rw [laid.unique holds.dropped]
  exact holds.base_le

theorem legit (last : pool.log.lastLsnByTxn txnId = lastLsnOf pool.history txnId)
    (running : ¬ UndoLog.Closed (undoLog winner pool.history) txnId) (kind : LogRecordKind)
    (allowed : UndoLog.Allowed (fun x => initial x.1 x.2) (undoLog winner pool.history) txnId
      ((entry (pool.log.nextRecord txnId kind)).demote winner).act) :
    UndoLog.Legit (fun x => initial x.1 x.2) (undoLog winner pool.history)
      ((entry (pool.log.nextRecord txnId kind)).demote winner) := by
  have holds := undoing.state.holds
  refine ⟨?_, ?_, ?_, running, allowed⟩
  · have header := holds.whole.le
    have positive : 0 < HEADER_LEN := by decide
    exact Nat.lt_of_lt_of_le positive header
  · intro old member
    obtain ⟨source, isSource, rfl⟩ := List.mem_map.mp member
    obtain ⟨record, isRecord, rfl⟩ := List.mem_map.mp isSource
    exact holds.lsn_lt isRecord
  · rw [UndoLog.lastPos_demote]
    exact last.trans lastPos_entries.symm

theorem appendQuiet {kind : LogRecordKind}
    (unchanged : kind.pageChange = none) (unallocated : ∀ pageId, kind ≠ .allocPage pageId)
    (ordinary : kind.isCheckpoint = false) (user : txnId ≠ CHECKPOINT_TXN)
    (fresh : kind = .begin → ∀ old ∈ pool.history, old.txnId ≠ txnId)
    (legit : UndoLog.Legit (fun x => initial x.1 x.2) (undoLog winner pool.history)
      ((entry (pool.log.nextRecord txnId kind)).demote winner)) :
    Undoing initial known leaked gone winner (pool.appendLog txnId kind) := by
  have quiet : ∀ pageId, (pool.log.nextRecord txnId kind).changes pageId = false := by
    intro pageId
    simp [LoggedRecord.changes, unchanged]
  constructor
  · refine { undoing.state.appendLog txnId kind with changed := ?_, allocated := ?_ }
    · intro record member pageId changes
      rcases List.mem_append.mp member with old | new
      · exact undoing.state.changed record old pageId changes
      · obtain rfl : record = _ := by simpa using new
        simp [quiet] at changes
    · intro record member pageId allocates
      rcases List.mem_append.mp member with old | new
      · exact undoing.state.allocated record old pageId allocates
      · obtain rfl : record = _ := by simpa using new
        exact absurd allocates (unallocated pageId)
  · refine .snoc undoing.ranges ⟨?_, ?_, ?_, fresh⟩
    · intro pageId offset bytes change
      simp [unchanged] at change
    · rintro pageId offset before after isUpdate
      obtain rfl : kind = _ := isUpdate
      simp [LogRecordKind.pageChange] at unchanged
    · simp [user, ordinary]
  · intro record member pageId changes
    rcases List.mem_append.mp member with old | new
    · exact undoing.used record old pageId changes
    · obtain rfl : record = _ := by simpa using new
      simp [quiet] at changes
  · rw [SerialPool.appendLog, undoLog_snoc]
    exact .snoc undoing.wellFormed legit

theorem link_prev {prev : Option Nat} {rest : List (Nat × UndoLog.Patch (Nat × Nat) UInt8)}
    (cursor : UndoLog.Cursor (undoLog winner pool.history) txnId prev rest) : UndoLog.link (prev.getD 0) = prev := by
  cases prev with
  | none => rfl
  | some lsn =>
    obtain ⟨⟨old, member, -, rfl⟩, -⟩ := cursor
    have positive := undoing.wellFormed.positions.2 old member
    exact if_neg (by simp; omega)

theorem view_lsn_lt (pageId : Nat) : (pool.view pageId).lsn < pool.log.nextLsn := by
  have holds := undoing.state.holds
  rcases (undoing.state.pages.view_ok pageId).lsn_cases with zero | ⟨old, isOld, -, same⟩
  · rw [zero]
    have positive : 0 < HEADER_LEN := by decide
    exact Nat.lt_of_lt_of_le positive holds.whole.le
  · exact same ▸ holds.lsn_lt isOld

theorem logCompensation (kept : Kept gone pool txnId)
    (running : ¬ UndoLog.Closed (undoLog winner pool.history) txnId) (user : txnId ≠ CHECKPOINT_TXN)
    (loses : ¬ UndoLog.Committed (undoLog winner pool.history) txnId) {record : LoggedRecord}
    (member : record ∈ pool.history) {pageId offset : Nat} {before after : List UInt8}
    (isUpdate : record.kind = .update pageId offset before after)
    {rest : List (Nat × UndoLog.Patch (Nat × Nat) UInt8)}
    (top : UndoLog.stack (undoLog winner pool.history) txnId = (record.lsn, patch pageId offset before) :: rest)
    (cursor : UndoLog.Cursor (undoLog winner pool.history) txnId record.prevLsn rest) :
    Stamping initial known leaked gone winner
      (pool.appendLog txnId (.clr pageId offset before (record.prevLsn.getD 0))) pool.history
      (pool.log.nextRecord txnId (.clr pageId offset before (record.prevLsn.getD 0))) pageId offset before := by
  have change : record.kind.pageChange = some (pageId, offset, after) := by rw [isUpdate]; rfl
  obtain ⟨older, newer, split, ranged⟩ := undoing.ranges.member member
  have sameLength : before.length = after.length := ranged.images pageId offset before after isUpdate
  obtain ⟨fits, exists_⟩ := ranged.inside pageId offset after change
  have known_ : pageId < known ∨ ∃ old ∈ pool.history, old.kind = .allocPage pageId := by
    refine exists_.imp_right ?_
    rintro ⟨old, isOld, allocates⟩
    exact ⟨old, by rw [split]; simp [isOld], allocates⟩
  refine ⟨rfl, rfl, undoing.state.appendLog _ _, undoing.view_lsn_lt, ?_, undoing.ranges, undoing.used, ?_, ?_⟩
  · refine ⟨?_, ?_, ?_, ?_⟩
    · intro page at_ bytes isChange
      obtain ⟨rfl, rfl, rfl⟩ : pageId = page ∧ offset = at_ ∧ before = bytes := by
        simpa [LogRecordKind.pageChange] using isChange
      exact ⟨by omega, known_⟩
    · exact fun page at_ old new isUpdate => LogRecordKind.noConfusion isUpdate
    · simp [user, LogRecordKind.isCheckpoint]
    · exact fun isBegin => LogRecordKind.noConfusion isBegin
  · exact undoing.used record member pageId (by simp [LoggedRecord.changes, change])
  · rw [undoLog_snoc]
    refine .snoc undoing.wellFormed (undoing.legit (undoing.kept_last kept) running _ ?_)
    refine ⟨⟨record.lsn, rest, top, ?_⟩, loses⟩
    rw [undoing.link_prev cursor]
    exact cursor

end

end Undoing

namespace Stamping
variable {initial : Nat → PageData} {known : Nat} {leaked : List Nat} {gone past : List LoggedRecord}
  {winner : Nat → Bool} {pool : SerialPool} {clr : LoggedRecord} {pageId offset : Nat} {bytes : List UInt8}

theorem evictAll (stamping : Stamping initial known leaked gone winner pool past clr pageId offset bytes)
    (pageIds : List Nat) :
    Stamping initial known leaked gone winner (pool.evictAll pageIds) past clr pageId offset bytes := by
  obtain ⟨evicted, history, view⟩ := stamping.state.evictAll pageIds
  exact { stamping with
    history := history.trans stamping.history
    state := evicted
    behind := fun other => lt_of_eq_of_lt (view other) (stamping.behind other) }

theorem stamp (stamping : Stamping initial known leaked gone winner pool past clr pageId offset bytes) :
    ∃ frames, pool.stampWrite pageId offset bytes clr.lsn = .ok { pool with frames } ∧
      Undoing initial known leaked gone winner { pool with frames } := by
  obtain ⟨history, change, state, behind, ranged, ranges, used, usedHere, wellFormed⟩ := stamping
  have changesOnly : ∀ other, clr.changes other = true → other = pageId := by
    intro other changes
    have same : pageId = other := by simpa [LoggedRecord.changes, change] using changes
    exact same.symm
  obtain ⟨inside, range⟩ := state.record_inside ranged change usedHere
  have here : clr ∈ pool.history := by simp [history]
  have cases : ∀ {record}, record ∈ pool.history → record ∈ past ∨ record = clr := by
    intro record member
    simpa [history] using member
  obtain ⟨frames, write, pages, shown⟩ := state.pages.stampWrite state.sorted inside range here change
    (behind pageId) fun other isOther changes below => by
      rcases cases isOther with old | rfl
      · exact state.changed other old pageId changes
      · exact absurd below (Nat.lt_irrefl _)
  refine ⟨frames, write, ⟨pages, state.holds, state.length, ?_, ?_⟩, ?_, ?_, ?_⟩
  · intro old isOld other changes
    rw [shown]
    rcases cases isOld with before | rfl
    · have reached := state.changed old before other changes
      split
      · exact Nat.le_trans reached (Nat.le_of_lt (behind other))
      · exact reached
    · rw [changesOnly other changes, if_pos rfl]
  · intro old isOld other allocates
    rcases cases isOld with before | rfl
    · exact state.allocated old before other allocates
    · simp [allocates, LogRecordKind.pageChange] at change
  · exact history ▸ .snoc ranges ranged
  · intro old isOld other changes
    rcases cases isOld with before | rfl
    · exact used old before other changes
    · rw [changesOnly other changes]
      exact usedHere
  · exact history ▸ wellFormed

end Stamping

namespace Undoing
variable {initial : Nat → PageData} {known : Nat} {leaked : List Nat} {gone : List LoggedRecord}
  {winner : Nat → Bool} {pool pool' : SerialPool} {txnId : Nat}

def Compensates (txnId : Nat) (record : LoggedRecord) : Prop :=
  record.txnId = txnId ∧ ∃ pageId offset after next, record.kind = .clr pageId offset after next

def nextCursor (record : LoggedRecord) : Option Nat :=
  match record.kind with
  | .clr _ _ _ undoNextLsn => if undoNextLsn ≠ 0 then some undoNextLsn else none
  | .begin => none
  | .update _ _ _ _ | .commit | .abort | .endTxn | .allocPage _ | .checkpointBegin | .checkpointEnd _ _ =>
    record.prevLsn

/-- From `cursor` on the transaction meets all that is left to undo. -/
def Walks (winner : Nat → Bool) (history : List LoggedRecord) (txnId : Nat) (cursor : Option Nat) : Prop :=
  UndoLog.Cursor (undoLog winner history) txnId cursor (UndoLog.stack (undoLog winner history) txnId)

inductive Meets (winner : Nat → Bool) (history : List LoggedRecord) (txnId : Nat) (record : LoggedRecord) : Prop
  | update {pageId offset : Nat} {before after : List UInt8} {rest : List (Nat × UndoLog.Patch (Nat × Nat) UInt8)} :
      record.kind = .update pageId offset before after →
      UndoLog.stack (undoLog winner history) txnId = (record.lsn, patch pageId offset before) :: rest →
      UndoLog.Cursor (undoLog winner history) txnId record.prevLsn rest → Meets winner history txnId record
  | passes :
      (∀ pageId offset before after, record.kind ≠ .update pageId offset before after) →
      Walks winner history txnId (nextCursor record) → Meets winner history txnId record

theorem meets (undoing : Undoing initial known leaked gone winner pool) (kept : Kept gone pool txnId)
    {lsn : Nat} (cursor : Walks winner pool.history txnId (some lsn)) :
    ∃ record ∈ pool.history, record.lsn = lsn ∧ record.txnId = txnId ∧ pool.log.readAt lsn = some record ∧
      (∀ below, nextCursor record = some below → below < lsn) ∧ Meets winner pool.history txnId record := by
  have here := cursor
  obtain ⟨⟨found, isFound, mine, rfl⟩, -⟩ := here
  obtain ⟨source, isSource, rfl⟩ := List.mem_map.mp isFound
  obtain ⟨record, isRecord, rfl⟩ := List.mem_map.mp isSource
  obtain rfl : record.txnId = txnId := mine
  have follows := UndoLog.Cursor.follow undoing.wellFormed isFound cursor
  obtain ⟨backPrev, backNext⟩ := undoing.wellFormed.backwards isFound
  refine ⟨record, isRecord, rfl, rfl, undoing.kept_readAt kept isRecord rfl, ?_, ?_⟩
  · intro below next
    unfold nextCursor at next
    split at next
    · rename_i pageId offset after undoNext kind
      have lower := backNext (patch pageId offset after) undoNext
        (by simp [UndoLog.Entry.demote, entry, kind, LogRecordKind.act])
      split at next
      · exact Option.some.inj next ▸ lower
      · simp at next
    · simp at next
    all_goals exact backPrev below next
  · cases kind : record.kind with
    | update pageId offset before after =>
      simp only [UndoLog.Follows, UndoLog.Entry.demote, entry, kind, LogRecordKind.act] at follows
      obtain ⟨rest, top, moved⟩ := follows
      exact .update kind top moved
    | clr pageId offset after next =>
      simp only [UndoLog.Follows, UndoLog.Entry.demote, entry, kind, LogRecordKind.act] at follows
      refine .passes (by simp [kind]) ?_
      simpa [Walks, nextCursor, kind, UndoLog.link] using follows
    | begin =>
      simp only [UndoLog.Follows, UndoLog.Entry.demote, entry, kind, LogRecordKind.act] at follows
      refine .passes (by simp [kind]) ?_
      simpa [Walks, nextCursor, kind, UndoLog.Cursor] using follows
    | _ =>
      refine .passes (by simp [kind]) ?_
      cases wins : winner record.txnId <;>
        simpa [Walks, nextCursor, kind, UndoLog.Follows, UndoLog.Entry.demote, entry, LogRecordKind.act, wins]
          using follows

variable {history rest : List LoggedRecord}

theorem cursor_popped {clr : LoggedRecord} {pageId offset next : Nat}
    {before : List UInt8} (kind : clr.kind = .clr pageId offset before next) (mine : clr.txnId = txnId)
    (wellFormed : UndoLog.WellFormed (fun x => initial x.1 x.2) (undoLog winner (history ++ [clr])))
    {top : Nat × UndoLog.Patch (Nat × Nat) UInt8} {rest : List (Nat × UndoLog.Patch (Nat × Nat) UInt8)}
    (stack : UndoLog.stack (undoLog winner history) txnId = top :: rest) {cursor : Option Nat}
    (moved : UndoLog.Cursor (undoLog winner history) txnId cursor rest) :
    Walks winner (history ++ [clr]) txnId cursor := by
  have legit := (undoLog_snoc winner history clr ▸ wellFormed).init.2
  have popped : ((entry clr).demote winner).stacked txnId (top :: rest) = rest := by
    simp [UndoLog.Entry.stacked, UndoLog.Entry.demote, entry, mine, kind, LogRecordKind.act]
  rw [Walks, undoLog_snoc, UndoLog.stack_snoc, stack, popped]
  exact moved.snoc legit.later

theorem undoRecord_passes {record : LoggedRecord} (evictions : Nat → List Nat)
    (quiet : ∀ pageId offset before after, record.kind ≠ .update pageId offset before after) :
    pool.undoRecord evictions txnId record = .ok (pool, nextCursor record) := by
  unfold SerialPool.undoRecord nextCursor
  cases kind : record.kind with
  | update pageId offset before after => exact absurd kind (quiet _ _ _ _)
  | _ => rfl

theorem running_append (running : ¬ UndoLog.Closed (undoLog winner history) txnId)
    (quiet : ∀ added ∈ rest, added.txnId = txnId → added.kind ≠ .endTxn) :
    ¬ UndoLog.Closed (undoLog winner (history ++ rest)) txnId := by
  rw [UndoLog.closed_demote, closed_entries]
  rintro ⟨ended, isEnded, mine, kind⟩
  rcases List.mem_append.mp isEnded with old | new
  · exact running (UndoLog.closed_demote.mpr (closed_entries.mpr ⟨ended, old, mine, kind⟩))
  · exact quiet ended new mine kind

theorem stack_append_other (others : ∀ added ∈ rest, added.txnId ≠ txnId) :
    UndoLog.stack (undoLog winner (history ++ rest)) txnId = UndoLog.stack (undoLog winner history) txnId := by
  induction rest using List.reverseRecOn with
  | nil => simp
  | append_singleton rest last ih =>
    have different : ((entry last).demote winner).txn ≠ txnId := others last (by simp)
    rw [← List.append_assoc, undoLog_snoc, UndoLog.stack_snoc, UndoLog.Entry.stacked_of_ne different]
    exact ih fun added member => others added (List.mem_append_left _ member)

theorem lastLsnOf_append_other (others : ∀ added ∈ rest, added.txnId ≠ txnId) :
    lastLsnOf (history ++ rest) txnId = lastLsnOf history txnId := by
  have none : rest.filter (·.txnId = txnId) = [] := by simpa using others
  rw [lastLsnOf, List.filter_append, none, List.append_nil]
  rfl

def EndsUndo (txnId : Nat) (record : LoggedRecord) : Prop :=
  Compensates txnId record ∨ record.txnId = txnId ∧ (record.kind = .abort ∨ record.kind = .endTxn)

end Undoing

structure Busy (gone : List LoggedRecord) (winner : Nat → Bool) (pool : SerialPool) (txnId : Nat) : Prop where
  kept : Undoing.Kept gone pool txnId
  running : ¬ UndoLog.Closed (undoLog winner pool.history) txnId
  user : txnId ≠ CHECKPOINT_TXN
  loses : winner txnId = false

structure Due (gone : List LoggedRecord) (winner : Nat → Bool) (pool : SerialPool) (loser : Nat × Nat) : Prop
    extends Busy gone winner pool loser.1 where
  last : lastLsnOf pool.history loser.1 = some loser.2

end SimpleRdbms.Storage
