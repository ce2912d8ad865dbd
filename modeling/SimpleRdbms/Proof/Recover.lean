import SimpleRdbms.Proof.Analysis
import SimpleRdbms.Proof.Undo
import SimpleRdbms.Storage.RecoveryRuns

namespace SimpleRdbms.Storage
open SimpleRdbms.Lib SerialPool.Analysis

structure Restart (initial : Nat → PageData) (known : Nat) (leaked : List Nat) (gone : List LoggedRecord)
    (pool : SerialPool) (start : Nat) : Prop where
  pages : Pages initial pool pool.history
  holds : pool.log.Holds pool.history gone
  nonempty : 0 < known
  length : known ≤ pool.disk.length
  ranges : Ranges known pool.history
  used : ∀ record ∈ pool.history, ∀ pageId, record.changes pageId = true → pageId ∉ leaked
  wellFormed : UndoLog.WellFormed (fun x => initial x.1 x.2) (entries pool.history)
  field : (SerialPool.checkpointField (pool.view 0)).getD HEADER_LEN = start
  anchored : ∃ limit, Anchored pool.disk leaked pool.log.base limit pool.history start
  kept : ∀ record ∈ pool.history, record.txnId ≠ CHECKPOINT_TXN → ¬ Ended pool.history record.txnId →
    pool.log.base ≤ record.lsn

def winners (history : List LoggedRecord) (start txnId : Nat) : Bool :=
  decide (Ended history txnId ∧ Commits history txnId ∨
    ¬ Ended history txnId ∧ Commits (since history start) txnId)

namespace Restart
variable {initial : Nat → PageData} {known : Nat} {leaked : List Nat} {gone : List LoggedRecord}
  {pool : SerialPool} {start : Nat}

theorem running (wellFormed : UndoLog.WellFormed (fun x => initial x.1 x.2) (entries pool.history)) :
    ∀ before record after, pool.history = before ++ record :: after → ¬ Ended before record.txnId := by
  intro before record after split
  have regroup : entries pool.history = (entries before ++ [entry record]) ++ entries after := by
    rw [split]
    simp [entries]
  rw [regroup] at wellFormed
  have legit := wellFormed.of_append.init.2
  exact fun ended => legit.running (closed_entries.mpr ended)

section
variable (restart : Restart initial known leaked gone pool start)
include restart

theorem settled_changed {record : LoggedRecord}
    {pageId : Nat} (settled : Settled pool.disk record pageId) (changes : record.changes pageId = true) :
    record.lsn ≤ (pool.view pageId).lsn :=
  Nat.le_trans (settled.1 changes) (restart.pages.disk_le_view pageId)

theorem recovering {past : List LoggedRecord} (part : ∀ record ∈ past, record ∈ pool.history)
    (settled : ∀ record ∈ past, ∀ pageId, touches record pageId → pageId ∉ leaked →
      Settled pool.disk record pageId) : Recovering initial known leaked gone pool past where
  pages := restart.pages
  holds := restart.holds
  length := restart.length
  changed record member pageId changes :=
    restart.settled_changed (settled record member pageId (.inl changes)
      (restart.used record (part record member) pageId changes)) changes
  allocated record member pageId allocates used :=
    Nat.lt_of_lt_of_le ((settled record member pageId (.inr allocates) used).2 allocates) restart.pages.length

theorem lastCheckpointLsn :
    ∃ frames field, pool.lastCheckpointLsn = .ok ({ pool with frames }, field) ∧ field.getD HEADER_LEN = start ∧
      Restart initial known leaked gone { pool with frames } start := by
  have inside : 0 < pool.disk.length := Nat.lt_of_lt_of_le restart.nonempty restart.length
  obtain ⟨frames, resident, fetch, here, shows, others, origin⟩ := restart.pages.fetchPage inside
  refine ⟨frames, SerialPool.checkpointField resident.page, ?_, ?_, ?_⟩
  · simp only [SerialPool.lastCheckpointLsn, fetch, bind, Except.bind]
    rfl
  · rw [shows]
    exact restart.field
  · exact { restart with
      pages := restart.pages.refetched inside here shows others origin
      field := by
        have shown : ({ pool with frames } : SerialPool).view 0 = resident.page := Pages.view_of_lookup here
        rw [shown, shows]
        exact restart.field }

theorem analysed :
    pool.log.iterFrom start = since pool.history start ∧
      Analysed pool.disk leaked pool.log.base pool.history start
        ((since pool.history start).foldl SerialPool.Analysis.scan (load (since pool.history start))) := by
  have holds := restart.holds
  obtain ⟨limit, anchored⟩ := restart.anchored
  exact ⟨holds.iterFrom anchored.low, SerialPool.Analysis.analysed holds.whole.sorted restart.ranges
    (fun record member => (holds.whole.bounds member).1) (running restart.wellFormed) anchored⟩

theorem redoFrom {analysis : SerialPool.Analysis}
    (analysed : Analysed pool.disk leaked pool.log.base pool.history start analysis) :
    ∃ past, Recovering initial known leaked gone pool past ∧
      pool.history = past ++ pool.redoRecords analysis := by
  have holds := restart.holds
  unfold SerialPool.redoRecords
  cases least : analysis.minRecoveryLsn with
  | none =>
    refine ⟨pool.history, restart.recovering (fun _ => id) fun record member pageId touched used => ?_, by simp⟩
    refine (analysed.covers record member pageId touched used).resolve_right ?_
    rintro ⟨lsn, found, -⟩
    simp [minRecoveryLsn_none least pageId] at found
  | some low =>
    obtain ⟨⟨pageId, entered⟩, smallest⟩ := minRecoveryLsn_some least
    have bounds := analysed.values pageId low entered
    refine ⟨below pool.history low, ?_, ?_⟩
    · refine restart.recovering (fun record member => (List.mem_filter.mp member).1) ?_
      intro record member pageId touched used
      obtain ⟨isRecord, early⟩ := List.mem_filter.mp member
      refine (analysed.covers record isRecord pageId touched used).resolve_right ?_
      rintro ⟨lsn, found, late⟩
      have := smallest pageId lsn found
      have : record.lsn < low := by simpa using early
      omega
    · dsimp only
      rw [holds.iterFrom bounds.1]
      exact below_append_since low holds.whole.sorted

theorem loser_due {analysis : SerialPool.Analysis}
    (analysed : Analysed pool.disk leaked pool.log.base pool.history start analysis) {pool' : SerialPool}
    (history : pool'.history = pool.history) {loser : Nat × Nat} (loses : loser ∈ analysis.losers) :
    Due gone (winners pool.history start) pool' loser := by
  have holds := restart.holds
  have found := losers_iff.mp loses
  obtain ⟨user, appears⟩ := analysed.named loser.1 (by simp [found])
  have known := analysed.known loser.1 user
  have split := below_append_since start holds.whole.sorted
  have open_ : ¬ Ended pool.history loser.1 := by
    intro ended
    rw [split] at ended
    simp [known.ended ended] at found
  obtain ⟨lsn, committed, last, present, commits⟩ := known.running (split ▸ appears) (split ▸ open_)
  obtain ⟨rfl, rfl⟩ : lsn = loser.2 ∧ committed = false := by simpa [found, eq_comm] using present
  rw [← split] at last
  refine ⟨⟨?_, ?_, user, ?_⟩, history ▸ last⟩
  · obtain ⟨record, member, mine⟩ := appears
    refine ⟨⟨record, history ▸ member, mine⟩, fun record member mine base laid => ?_⟩
    rw [laid.unique holds.dropped]
    exact restart.kept record (history ▸ member) (mine ▸ user) (mine ▸ open_)
  · rw [UndoLog.closed_demote, closed_entries, history]
    exact open_
  · have uncommitted : ¬ Commits (since pool.history start) loser.1 := by simpa using commits
    simp [winners, open_, uncommitted]

end

theorem stack_of_no_update {history : List LoggedRecord} {txnId : Nat}
    (quiet : ∀ record ∈ history, record.txnId = txnId → ∀ pageId offset before after,
      record.kind ≠ .update pageId offset before after) : UndoLog.stack (entries history) txnId = [] := by
  induction history using List.reverseRecOn with
  | nil => rfl
  | append_singleton history record ih =>
    rw [entries_snoc, UndoLog.stack_snoc, ih fun old member => quiet old (List.mem_append_left _ member)]
    by_cases mine : record.txnId = txnId
    · have noUpdate := quiet record (by simp) mine
      cases kind : record.kind <;>
        simp_all [UndoLog.Entry.stacked, entry, LogRecordKind.act]
    · exact UndoLog.Entry.stacked_of_ne mine _

theorem nothing_left (restart : Restart initial known leaked gone pool start) {analysis : SerialPool.Analysis}
    (analysed : Analysed pool.disk leaked pool.log.base pool.history start analysis) {txnId : Nat}
    (loses : winners pool.history start txnId = false) (kept : ∀ lsn, (txnId, lsn) ∉ analysis.losers) :
    UndoLog.stack (undoLog (winners pool.history start) pool.history) txnId = [] := by
  have split := below_append_since start restart.holds.whole.sorted
  have lost := of_decide_eq_false loses
  push Not at lost
  rw [UndoLog.stack_demote]
  by_cases appears : Appears pool.history txnId
  · by_cases ended : Ended pool.history txnId
    · refine (restart.wellFormed.closed_settled (closed_entries.mpr ended)).resolve_left fun committed => ?_
      exact lost.1 ended (committed_entries.mp committed)
    · by_cases user : txnId = CHECKPOINT_TXN
      · refine stack_of_no_update fun record member mine pageId offset before after isUpdate => ?_
        have touched : touches record pageId :=
          .inl (by simp [LoggedRecord.changes, isUpdate, LogRecordKind.pageChange])
        exact touches_user restart.ranges member touched (mine.trans user)
      · obtain ⟨lsn, committed, -, present, commits⟩ :=
          (analysed.known txnId user).running (split ▸ appears) (split ▸ ended)
        have uncommitted : committed = false := by simpa [lost.2 ended] using commits
        exact absurd (losers_iff.mpr (uncommitted ▸ present)) (kept lsn)
  · exact stack_of_no_update fun record member mine => absurd ⟨record, member, mine⟩ appears

theorem contentsBy_append {winner : Nat → Bool} {history rest : List LoggedRecord} {pageId : Nat}
    (quiet : ∀ record ∈ rest, winner record.txnId = true →
      ∀ page offset before after, record.kind ≠ .update page offset before after) :
    contentsBy winner initial (history ++ rest) pageId = contentsBy winner initial history pageId := by
  induction rest using List.reverseRecOn with
  | nil => simp
  | append_singleton rest record ih =>
    rw [← List.append_assoc, contentsBy_snoc, ih fun old member => quiet old (List.mem_append_left _ member)]
    have noUpdate := quiet record (by simp)
    unfold applyUpdate
    split
    · rename_i kind
      exact if_neg fun wins => noUpdate wins.2 _ _ _ _ kind
    · rfl

theorem view_contents {history : List LoggedRecord} (state : Recovering initial known leaked gone pool history)
    (all : pool.history = history) {pageId i : Nat} (body : Body pageId i) :
    (pool.view pageId).data i = contents initial history pageId i := by
  subst all
  have current := (state.pages.view_ok pageId).current fun record member changes =>
    state.changed record member pageId changes
  refine current.2 i (Nat.le_trans ?_ body.1)
  decide

theorem contents_of_undone {winner : Nat → Bool} (undoing : Undoing initial known leaked gone winner pool)
    {pageId i : Nat} (body : Body pageId i) (committed : ∀ txnId, winner txnId = true → Commits pool.history txnId)
    (nothing : ∀ txnId, winner txnId = false → UndoLog.stack (undoLog winner pool.history) txnId = []) :
    contents initial pool.history pageId i = contentsBy winner initial pool.history pageId i := by
  rw [contents_eq_value body, contentsBy_eq_valueBy body, ← UndoLog.value_demote winner,
    ← UndoLog.valueBy_demote winner]
  refine undoing.wellFormed.value_eq (fun txnId wins => ?_) (fun txnId _ commits => ?_) (fun txnId loses => ?_)
  · exact UndoLog.committed_demote.mpr ⟨committed_entries.mpr (committed txnId wins), wins⟩
  · exact (UndoLog.committed_demote.mp commits).2
  · simp [nothing txnId loses]

end Restart

end SimpleRdbms.Storage
