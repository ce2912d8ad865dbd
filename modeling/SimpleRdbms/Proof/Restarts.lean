import SimpleRdbms.Proof.Anchors
import SimpleRdbms.Proof.Recover

/-!
# Crashes during recovery

The records undo adds leave the winners as they are, and every version of the header page names a place to start at.
-/

namespace SimpleRdbms.Storage
open SimpleRdbms.Lib SerialPool.Analysis

def headerField (data : PageData) : Nat :=
  let raw := leValue (readBytes data SerialPool.LAST_CHECKPOINT_LSN 8)
  if raw ≠ 0 then raw else HEADER_LEN

theorem checkpointField_getD (page : Page) :
    (SerialPool.checkpointField page).getD HEADER_LEN = headerField page.data := by
  unfold SerialPool.checkpointField headerField
  dsimp only
  split <;> rfl

theorem headerField_congr {data other : PageData} (same : ∀ i, CHECKSUM_END ≤ i → data i = other i) :
    headerField data = headerField other := by
  have bytes : readBytes data SerialPool.LAST_CHECKPOINT_LSN 8 = readBytes other SerialPool.LAST_CHECKPOINT_LSN 8 :=
    readBytes_congr fun i low _ => same i (Nat.le_trans (by decide) low)
  rw [headerField, headerField, bytes]

def AvoidsField (offset len : Nat) : Prop :=
  offset + len ≤ SerialPool.LAST_CHECKPOINT_LSN ∨ SerialPool.LAST_CHECKPOINT_LSN + 8 ≤ offset

theorem headerField_overwrite {data : PageData} {offset : Nat} {bytes : List UInt8}
    (avoids : AvoidsField offset bytes.length) : headerField (overwrite data offset bytes) = headerField data := by
  have same : readBytes (overwrite data offset bytes) SerialPool.LAST_CHECKPOINT_LSN 8 =
      readBytes data SerialPool.LAST_CHECKPOINT_LSN 8 := by
    refine readBytes_congr fun i low high => overwrite_outside ?_
    rcases avoids with before | after
    · exact .inr (by omega)
    · exact .inl (by omega)
  rw [headerField, headerField, same]

theorem snapshot?_none {record : LoggedRecord} (plain : ∀ att dpt, record.kind ≠ .checkpointEnd att dpt) :
    snapshot? record = none := by
  unfold snapshot?
  split
  · split
    · rename_i kind
      exact absurd kind (plain _ _)
    · rfl
  · rfl

section Header
variable {initial : Nat → PageData} {startable : Nat → Prop} {floor : Nat} {history : List LoggedRecord}

def fieldOf (bytes : List UInt8) : Nat := if leValue bytes ≠ 0 then leValue bytes else HEADER_LEN

theorem headerField_overwrite_field {data : PageData} {bytes : List UInt8} (whole : bytes.length = 8) :
    headerField (overwrite data SerialPool.LAST_CHECKPOINT_LSN bytes) = fieldOf bytes := by
  have read := readBytes_overwrite data SerialPool.LAST_CHECKPOINT_LSN bytes
  rw [whole] at read
  simp only [headerField, fieldOf, read]

def HeaderWrite (startable : Nat → Prop) (offset : Nat) (bytes : List UInt8) : Prop :=
  AvoidsField offset bytes.length ∨
    offset = SerialPool.LAST_CHECKPOINT_LSN ∧ bytes.length = 8 ∧ startable (fieldOf bytes)

structure HeaderWrites (initial : Nat → PageData) (startable : Nat → Prop) (floor : Nat)
    (history : List LoggedRecord) : Prop where
  first : startable (headerField (contents initial (upTo history floor) 0))
  written : ∀ record ∈ history, floor < record.lsn → ∀ offset bytes,
    record.kind.pageChange = some (0, offset, bytes) → HeaderWrite startable offset bytes

namespace HeaderWrites

theorem of_append {rest : List LoggedRecord} (headers : HeaderWrites initial startable floor (history ++ rest))
    (later : ∀ record ∈ rest, floor < record.lsn) : HeaderWrites initial startable floor history where
  first := upTo_append_of_lt later ▸ headers.first
  written record member := headers.written record (List.mem_append_left _ member)

section
variable (headers : HeaderWrites initial startable floor history)
include headers

theorem snoc {record : LoggedRecord} (later : floor < record.lsn)
    (written : ∀ offset bytes, record.kind.pageChange = some (0, offset, bytes) → HeaderWrite startable offset bytes) :
    HeaderWrites initial startable floor (history ++ [record]) where
  first := by
    rw [upTo_snoc_of_lt later]
    exact headers.first
  written old member low := by
    rcases List.mem_append.mp member with before | last
    · exact headers.written old before low
    · obtain rfl := List.mem_singleton.mp last
      exact written

theorem newest (sorted : history.Pairwise (·.lsn < ·.lsn)) :
    startable (headerField (contents initial history 0)) := by
  induction history using List.reverseRecOn with
  | nil => exact headers.first
  | append_singleton history record ih =>
    obtain ⟨older, -, before⟩ := List.pairwise_append.mp sorted
    by_cases low : record.lsn ≤ floor
    · have all : upTo (history ++ [record]) floor = history ++ [record] := by
        refine upTo_eq_self fun old member => ?_
        rcases List.mem_append.mp member with isOld | isLast
        · exact Nat.le_trans (Nat.le_of_lt (before old isOld record (by simp))) low
        · obtain rfl := List.mem_singleton.mp isLast
          exact low
      exact all ▸ headers.first
    · have later : ∀ other ∈ [record], floor < other.lsn := by simpa using low
      have past := ih (headers.of_append later) older
      rw [contents_snoc]
      unfold applyRecord
      split
      · rename_i pageId offset bytes change
        split
        · rename_i zero
          subst zero
          rcases headers.written record (by simp) (by omega) offset bytes change with avoids | ⟨rfl, whole, start⟩
          · rw [headerField_overwrite avoids]
            exact past
          · rw [headerField_overwrite_field whole]
            exact start
        · exact past
      · exact past

theorem version (sorted : history.Pairwise (·.lsn < ·.lsn))
    {lsn : Nat} (low : floor ≤ lsn) : startable (headerField (contents initial (upTo history lsn) 0)) := by
  have nested : upTo (upTo history lsn) floor = upTo history floor := by
    unfold upTo
    rw [List.filter_filter]
    refine List.filter_congr fun record _ => ?_
    by_cases early : record.lsn ≤ floor
    · have : record.lsn ≤ lsn := by omega
      simp [early, this]
    · simp [early]
  have cut : HeaderWrites initial startable floor (upTo history lsn) :=
    ⟨nested.symm ▸ headers.first, fun record member => headers.written record (List.mem_filter.mp member).1⟩
  exact cut.newest (sorted.filter _)

theorem image (sorted : history.Pairwise (·.lsn < ·.lsn))
    {page : Page} (ok : ImageOk initial history 0 page) (low : floor ≤ page.lsn) :
    startable (headerField page.data) := by
  rw [headerField_congr fun i body => ok.bytes i body]
  exact headers.version sorted low

end

end HeaderWrites

end Header

section Crash

structure Fallback (initial : Nat → PageData) (pool : SerialPool) (origin : DiskManager) : Prop where
  images : ∀ pageId, ImageOk initial pool.history pageId (origin.images pageId)
  checks : ∀ pageId, checksumOk (origin.images pageId) = true
  newer : ∀ pageId, (origin.images pageId).lsn ≤ (pool.disk.images pageId).lsn

structure Survives (gone : List LoggedRecord) (pool pool' : SerialPool) : Prop where
  lost : ∃ lost, pool.history = pool'.history ++ lost ∧ ∀ record ∈ lost, pool'.log.nextLsn ≤ record.lsn
  holds : pool'.log.Holds pool'.history gone
  flushed : pool'.log.durableLsn = pool'.log.nextLsn
  durable : pool.log.durableLsn ≤ pool'.log.nextLsn
  base : pool'.log.base = pool.log.base

variable {initial : Nat → PageData} {gone : List LoggedRecord}

theorem SerialPool.crash_survives (pool : SerialPool) (holds : pool.log.Holds pool.history gone)
    (origin : DiskManager) (kept length : Nat) (survives : Nat → Bool) :
    Survives gone pool (pool.crash origin kept length survives) := by
  obtain ⟨lost, split, holds', durable, base⟩ := holds.bootstrap
    (show (pool.crash origin kept length survives).log = _ from rfl)
  exact ⟨⟨lost, split, lost_late holds.whole.sorted split⟩, holds', rfl, durable, base⟩

theorem SerialPool.crash_images (pool : SerialPool) (origin : DiskManager) (kept length : Nat) (survives : Nat → Bool)
    (pageId : Nat) : (pageId < length ∧
      ((pool.crash origin kept length survives).disk.images pageId = pool.disk.images pageId ∨
        (pool.crash origin kept length survives).disk.images pageId = origin.images pageId)) ∨
      (length ≤ pageId ∧ (pool.crash origin kept length survives).disk.images pageId = Page.new pageId) := by
  by_cases inside : pageId < length
  · by_cases survivor : survives pageId = true
    · exact .inl ⟨inside, .inl (by simp [SerialPool.crash, inside, survivor])⟩
    · exact .inl ⟨inside, .inr (by simp [SerialPool.crash, inside, survivor])⟩
  · exact .inr ⟨by omega, by simp [SerialPool.crash, inside]⟩

theorem Pages.crash {pool : SerialPool} {origin : DiskManager} {length : Nat}
    (pages : Pages initial pool pool.history) (holds : pool.log.Holds pool.history gone)
    (fallback : Fallback initial pool origin) (kept : Nat) (survives : Nat → Bool)
    (zero : ∀ pageId, length ≤ pageId → initial pageId = zeroData) :
    Pages initial (pool.crash origin kept length survives) (pool.crash origin kept length survives).history := by
  have survived := pool.crash_survives holds origin kept length survives
  obtain ⟨lost, split, late⟩ := survived.lost
  have holds' := survived.holds
  have early : pool.log.durableLsn ≤ (pool.crash origin kept length survives).log.durableLsn := survived.durable
  refine Pages.survived rfl (Nat.le_refl _) late (Nat.lt_of_lt_of_le (by decide) holds'.whole.le)
    (fun record member => holds'.lsn_pos member) fun pageId => ?_
  rw [← split]
  rcases pool.crash_images origin kept length survives pageId with ⟨inside, same | same⟩ | ⟨beyond, fresh⟩
  · rw [same]
    exact .inl ⟨pages.disk pageId, pages.checks pageId, Nat.lt_of_lt_of_le (pages.wal pageId) early, inside⟩
  · rw [same]
    refine .inl ⟨fallback.images pageId, fallback.checks pageId, ?_, inside⟩
    exact Nat.lt_of_le_of_lt (fallback.newer pageId) (Nat.lt_of_lt_of_le (pages.wal pageId) early)
  · exact .inr ⟨fresh, zero pageId beyond⟩

end Crash

/-- When a commit is not the last record, the end of its transaction follows. -/
def Sequential (history : List LoggedRecord) : Prop :=
  ∀ before record after, history = before ++ record :: after → record.kind = .commit →
    after = [] ∨ ∃ ended rest, after = ended :: rest ∧ ended.txnId = record.txnId ∧ ended.kind = .endTxn

/-- The preconditions of recovery: the log holds the records that are left, every page is as it was at some LSN in the
log (the WAL rule), no transaction writes what an unfinished one has written (`wellFormed`), and whatever the header
page may become names a completed checkpoint. -/
structure Crashed (initial : Nat → PageData) (known : Nat) (leaked : List Nat) (gone : List LoggedRecord)
    (pool : SerialPool) : Prop where
  pages : Pages initial pool pool.history
  holds : pool.log.Holds pool.history gone
  flushed : pool.log.durableLsn = pool.log.nextLsn
  nonempty : 0 < known
  synced : known ≤ pool.disk.syncedLength
  zero : ∀ pageId, known ≤ pageId → initial pageId = zeroData
  ranges : Ranges known pool.history
  used : ∀ record ∈ pool.history, ∀ pageId, record.changes pageId = true → pageId ∉ leaked
  wellFormed : UndoLog.WellFormed (fun x => initial x.1 x.2) (entries pool.history)
  undone : UndoLog.Exact (entries pool.history)
  sequential : Sequential pool.history
  kept : ∀ record ∈ pool.history, record.txnId ≠ CHECKPOINT_TXN → ¬ Ended pool.history record.txnId →
    pool.log.base ≤ record.lsn
  headers : HeaderWrites initial (Anchored pool.disk leaked pool.log.base pool.log.nextLsn pool.history)
    (pool.disk.images 0).lsn pool.history
  undoable : ∀ record ∈ pool.history, ¬ Ended pool.history record.txnId → ¬ Commits pool.history record.txnId →
    ∀ offset before after, record.kind = .update 0 offset before after →
      HeaderWrite (Anchored pool.disk leaked pool.log.base pool.log.nextLsn pool.history) offset before

def committed (history : List LoggedRecord) (txnId : Nat) : Bool := decide (Commits history txnId)

def Added (first : SerialPool) (record : LoggedRecord) : Prop :=
  ∃ txnId, Undoing.EndsUndo txnId record ∧ committed first.history txnId = false

structure Continues (initial : Nat → PageData) (known : Nat) (leaked : List Nat) (gone : List LoggedRecord)
    (first : SerialPool) (attempt : RecoveryRun) : Prop where
  pages : Pages initial attempt.pool attempt.pool.history
  holds : attempt.pool.log.Holds attempt.pool.history gone
  base : attempt.pool.log.base = first.log.base
  added : ∃ rest, attempt.pool.history = first.history ++ rest ∧ ∀ record ∈ rest, Added first record
  durable : first.log.nextLsn ≤ attempt.pool.log.durableLsn
  ranges : Ranges known attempt.pool.history
  used : ∀ record ∈ attempt.pool.history, ∀ pageId, record.changes pageId = true → pageId ∉ leaked
  wellFormed : UndoLog.WellFormed (fun x => initial x.1 x.2) (entries attempt.pool.history)
  undone : UndoLog.Exact (entries attempt.pool.history)
  headers : HeaderWrites initial (Anchored first.disk leaked first.log.base first.log.nextLsn first.history)
    (first.disk.images 0).lsn attempt.pool.history
  images : ∀ pageId, ImageOk initial attempt.pool.history pageId (attempt.origin.images pageId)
  checks : ∀ pageId, checksumOk (attempt.origin.images pageId) = true
  written : ∀ pageId, (attempt.origin.images pageId).lsn ≠ 0 → pageId < attempt.origin.syncedLength
  older : ∀ pageId, (first.disk.images pageId).lsn ≤ (attempt.origin.images pageId).lsn
  newer : ∀ pageId, (attempt.origin.images pageId).lsn ≤ (attempt.pool.disk.images pageId).lsn
  shorter : first.disk.syncedLength ≤ attempt.origin.syncedLength
  longer : attempt.origin.syncedLength ≤ attempt.pool.disk.syncedLength

section Added
variable {first : SerialPool} {rest : List LoggedRecord} {record : LoggedRecord}

theorem Added.kind (added : Added first record) :
    record.kind ≠ .commit ∧ (∀ pageId offset before after, record.kind ≠ .update pageId offset before after) ∧
      snapshot? record = none := by
  obtain ⟨txnId, ends, -⟩ := added
  have plain : record.kind ≠ .commit ∧
    (∀ pageId offset before after, record.kind ≠ .update pageId offset before after) ∧
      ∀ att dpt, record.kind ≠ .checkpointEnd att dpt := by
    rcases ends with ⟨-, _, _, _, _, kind⟩ | ⟨-, kind | kind⟩ <;> simp [kind]
  exact ⟨plain.1, plain.2.1, snapshot?_none plain.2.2⟩

theorem commits_append (added : ∀ record ∈ rest, Added first record) {history : List LoggedRecord} {txnId : Nat} :
    Commits (history ++ rest) txnId ↔ Commits history txnId := by
  constructor
  · rintro ⟨record, member, mine, commits⟩
    rcases List.mem_append.mp member with old | new
    · exact ⟨record, old, mine, commits⟩
    · exact absurd commits (added record new).kind.1
  · rintro ⟨record, member, rest⟩
    exact ⟨record, List.mem_append_left _ member, rest⟩

theorem SerialPool.Analysis.Anchored.append {disk : DiskManager} {leaked : List Nat} {base limit start : Nat}
    {history : List LoggedRecord} (anchored : Anchored disk leaked base limit history start)
    (sorted : (history ++ rest).Pairwise (·.lsn < ·.lsn)) (plain : ∀ record ∈ rest, snapshot? record = none) :
    Anchored disk leaked base limit (history ++ rest) start := by
  induction rest using List.reverseRecOn with
  | nil => simpa using anchored
  | append_singleton rest record ih =>
    rw [← List.append_assoc] at sorted ⊢
    obtain ⟨older, -, before⟩ := List.pairwise_append.mp sorted
    refine (ih older fun old member => plain old (List.mem_append_left _ member)).snoc
      (fun old member => before old member record (by simp)) fun att dpt carries => ?_
    simp [plain record] at carries

end Added

namespace Crashed
variable {initial : Nat → PageData} {known : Nat} {leaked : List Nat} {gone : List LoggedRecord}
  {first : SerialPool} (crashed : Crashed initial known leaked gone first)
include crashed

theorem sorted : first.history.Pairwise (·.lsn < ·.lsn) := by
  exact crashed.holds.whole.sorted

theorem continues : Continues initial known leaked gone first (RecoveryRun.restart first) where
  pages := crashed.pages
  holds := crashed.holds
  base := rfl
  added := ⟨[], (List.append_nil _).symm, by simp⟩
  durable := Nat.le_of_eq crashed.flushed.symm
  ranges := crashed.ranges
  used := crashed.used
  wellFormed := crashed.wellFormed
  undone := crashed.undone
  headers := crashed.headers
  images := crashed.pages.disk
  checks := crashed.pages.checks
  written := crashed.pages.synced
  older _ := Nat.le_refl _
  newer _ := Nat.le_refl _
  shorter := Nat.le_refl _
  longer := Nat.le_refl _

theorem commit_late {start txnId : Nat}
    (anchored : Anchored first.disk leaked first.log.base first.log.nextLsn first.history start)
    (commits : Commits first.history txnId) (open_ : ¬ Ended first.history txnId) :
    Commits (since first.history start) txnId := by
  obtain ⟨record, member, mine, commit⟩ := commits
  refine ⟨record, List.mem_filter.mpr ⟨member, ?_⟩, mine, commit⟩
  rw [decide_eq_true_eq]
  obtain ⟨before, after, split⟩ := List.append_of_mem member
  rcases crashed.sequential before record after split commit with rfl | ⟨ended, rest, rfl, same, kind⟩
  · rcases anchored.found with rfl | ⟨carrier, isCarrier, low, -, -⟩
    · exact (crashed.holds.whole.bounds member).1
    · refine Nat.le_trans low ?_
      rw [split] at isCarrier
      have sorted := crashed.sorted
      rw [split] at sorted
      rcases List.mem_append.mp isCarrier with earlier | last
      · exact Nat.le_of_lt ((List.pairwise_append.mp sorted).2.2 carrier earlier record (by simp))
      · obtain rfl := List.mem_singleton.mp last
        exact Nat.le_refl _
  · exact absurd ⟨ended, by simp [split], same.trans mine, kind⟩ open_

theorem winners_eq {start : Nat}
    (anchored : Anchored first.disk leaked first.log.base first.log.nextLsn first.history start)
    {rest : List LoggedRecord} (added : ∀ record ∈ rest, Added first record) :
    winners (first.history ++ rest) start = committed first.history := by
  funext txnId
  have grown := @commits_append first rest added first.history txnId
  unfold winners committed
  refine decide_eq_decide.mpr ⟨?_, fun commits => ?_⟩
  · rintro (⟨-, commits⟩ | ⟨-, record, member, mine, commits⟩)
    · exact grown.mp commits
    · exact grown.mp ⟨record, (List.mem_filter.mp member).1, mine, commits⟩
  · by_cases ended : Ended (first.history ++ rest) txnId
    · exact .inl ⟨ended, grown.mpr commits⟩
    · have open_ : ¬ Ended first.history txnId := by
        rintro ⟨record, member, rest⟩
        exact ended ⟨record, List.mem_append_left _ member, rest⟩
      obtain ⟨record, member, commit⟩ := crashed.commit_late anchored commits open_
      obtain ⟨isRecord, late⟩ := List.mem_filter.mp member
      exact .inr ⟨ended, record, List.mem_filter.mpr ⟨List.mem_append_left _ isRecord, late⟩, commit⟩

end Crashed

namespace Continues
variable {initial : Nat → PageData} {known : Nat} {leaked : List Nat} {gone : List LoggedRecord}
  {first : SerialPool} {attempt : RecoveryRun}

section
variable (continues : Continues initial known leaked gone first attempt)
include continues

theorem sorted : attempt.pool.history.Pairwise (·.lsn < ·.lsn) := by
  exact continues.holds.whole.sorted

theorem anchored {start : Nat}
    (startable : Anchored first.disk leaked first.log.base first.log.nextLsn first.history start) :
    Anchored attempt.pool.disk leaked attempt.pool.log.base first.log.nextLsn attempt.pool.history start := by
  have sorted := continues.sorted
  obtain ⟨rest, split, added⟩ := continues.added
  rw [split] at sorted
  have grown := startable.append sorted fun record member => (added record member).kind.2.2
  rw [split, continues.base]
  refine grown.mono (fun record _ pageId settled => settled.mono ?_ ?_) (fun _ => id) (Nat.le_refl _)
  · exact Nat.le_trans (continues.older pageId) (continues.newer pageId)
  · exact Nat.le_trans continues.shorter continues.longer

theorem startable : Anchored first.disk leaked first.log.base first.log.nextLsn first.history
      (headerField (attempt.pool.view 0).data) := by
  refine continues.headers.image continues.sorted (continues.pages.view_ok 0) ?_
  exact Nat.le_trans (continues.older 0) (Nat.le_trans (continues.newer 0) (continues.pages.disk_le_view 0))

theorem fallback : Fallback initial attempt.pool attempt.origin :=
  ⟨continues.images, continues.checks, continues.newer⟩

variable (crashed : Crashed initial known leaked gone first)
include crashed

theorem synced : known ≤ attempt.pool.disk.syncedLength :=
  Nat.le_trans crashed.synced (Nat.le_trans continues.shorter continues.longer)

theorem restart :
    Restart initial known leaked gone attempt.pool (headerField (attempt.pool.view 0).data) where
  pages := continues.pages
  holds := continues.holds
  nonempty := crashed.nonempty
  length := Nat.le_trans (continues.synced crashed) continues.pages.length
  ranges := continues.ranges
  used := continues.used
  wellFormed := continues.wellFormed
  field := checkpointField_getD _
  anchored := ⟨_, continues.anchored continues.startable⟩
  kept record member user open_ := by
    obtain ⟨rest, split, added⟩ := continues.added
    have holds' := crashed.holds
    rw [continues.base]
    rw [split] at member open_
    rcases List.mem_append.mp member with old | new
    · refine crashed.kept record old user ?_
      rintro ⟨ended, isEnded, same⟩
      exact open_ ⟨ended, List.mem_append_left _ isEnded, same⟩
    · have whole := continues.holds.whole
      rw [split] at whole
      obtain ⟨middle, front, back⟩ := whole.split
      have low := holds'.base_le
      rw [holds'.whole.unique front] at low
      exact Nat.le_trans low (back.bounds new).1

theorem crash_older {length : Nat}
    (low : attempt.pool.disk.syncedLength ≤ length) (kept : Nat) (survives : Nat → Bool) (pageId : Nat) :
    (first.disk.images pageId).lsn ≤
      ((attempt.pool.crash attempt.origin kept length survives).disk.images pageId).lsn := by
  rcases attempt.pool.crash_images attempt.origin kept length survives pageId with ⟨-, same | same⟩ | ⟨beyond, -⟩
  · rw [same]
    exact Nat.le_trans (continues.older pageId) (continues.newer pageId)
  · rw [same]
    exact continues.older pageId
  · have unwritten : (first.disk.images pageId).lsn = 0 := by
      by_contra changed
      have inside := crashed.pages.synced pageId changed
      have := continues.shorter
      have := continues.longer
      omega
    rw [unwritten]
    exact Nat.zero_le _

theorem crash_added {pool' : SerialPool}
    (history : pool'.history = attempt.pool.history.filter fun record => decide (record.lsn < pool'.log.nextLsn))
    (durable : attempt.pool.log.durableLsn ≤ pool'.log.nextLsn) :
    ∃ rest, pool'.history = first.history ++ rest ∧ ∀ record ∈ rest, Added first record := by
  obtain ⟨rest, added_eq, added⟩ := continues.added
  have early : ∀ record ∈ first.history, record.lsn < pool'.log.nextLsn := fun record member =>
    Nat.lt_of_lt_of_le (crashed.holds.lsn_lt member) (Nat.le_trans continues.durable durable)
  refine ⟨rest.filter fun record => decide (record.lsn < pool'.log.nextLsn), ?_,
    fun record member => added record (List.mem_filter.mp member).1⟩
  rw [history, added_eq, List.filter_append]
  congr 1
  simpa using early

theorem crash {kept length : Nat} {survives : Nat → Bool}
    (low : attempt.pool.disk.syncedLength ≤ length) :
    Continues initial known leaked gone first
      (.restart (attempt.pool.crash attempt.origin kept length survives)) := by
  have holds := continues.holds
  have survived := attempt.pool.crash_survives holds attempt.origin kept length survives
  have pages := continues.pages.crash holds continues.fallback kept survives fun pageId beyond =>
    crashed.zero pageId (Nat.le_trans (Nat.le_trans (continues.synced crashed) low) beyond)
  obtain ⟨lost, split, late⟩ := survived.lost
  have logged := continues.wellFormed
  have undone := continues.undone
  rw [split, entries, List.map_append] at logged undone
  exact {
    pages
    holds := survived.holds
    base := survived.base.trans continues.base
    added := continues.crash_added crashed rfl survived.durable
    durable := Nat.le_trans continues.durable (Nat.le_trans survived.durable (Nat.le_of_eq survived.flushed.symm))
    ranges := Ranges.of_append (split ▸ continues.ranges)
    used := fun record member => continues.used record (split ▸ List.mem_append_left _ member)
    wellFormed := logged.of_append
    undone := undone.of_append
    headers := by
      refine (split ▸ continues.headers).of_append fun record member => Nat.lt_of_lt_of_le ?_ (late record member)
      have := crashed.pages.wal 0
      have := crashed.flushed
      have := continues.durable
      have := survived.durable
      omega
    images := pages.disk
    checks := pages.checks
    written := pages.synced
    older := continues.crash_older crashed low kept survives
    newer := fun _ => Nat.le_refl _
    shorter := Nat.le_trans continues.shorter (Nat.le_trans continues.longer low)
    longer := Nat.le_refl _ }

end

end Continues

end SimpleRdbms.Storage
