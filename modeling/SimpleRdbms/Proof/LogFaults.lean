import SimpleRdbms.Proof.LogReopen

namespace SimpleRdbms.Storage
open Lib

structure Reads (log : SegmentedLog) (records : List LoggedRecord) : Prop where
  readAt : ∀ record ∈ records, log.readAt record.lsn = some record
  sorted : ∀ lsn, (log.iterFrom lsn).Pairwise (·.lsn < ·.lsn)
  iterFrom : ∀ lsn, ∀ record ∈ records, lsn ≤ record.lsn → record ∈ log.iterFrom lsn

def FileEnds (log : SegmentedLog) : Prop :=
  log.activeDevice.size = HEADER_LEN + (log.durableLsn - log.activeStartLsn)

theorem SegmentedLog.iterFrom_unsealed {log : SegmentedLog} {segment : Segment} (unsealed : log.sealed = [])
    (empty : log.buffer = []) (file : log.activeDevice.bytes = image segment)
    (fits : ∀ record ∈ segment.records, record.Fits) (lsn : Nat) :
    log.iterFrom lsn = segment.records.filter fun record => decide (max lsn HEADER_LEN ≤ record.lsn) := by
  have bytes : log.activeDevice.bytes.drop HEADER_LEN ++ log.buffer =
      [] ++ (recordFraming.encodeAll segment.records ++ []) := by
    rw [file, empty, image, ← segmentHeader_length segment.startLsn, List.drop_left]
    simp
  rw [SegmentedLog.iterFrom, unsealed, bytes, show 0 = ([] : List UInt8).length from rfl,
    scanDecodedRecords_encodeAll fits decodeRecord_nil]
  rfl

namespace Keeping
variable {log : SegmentedLog} {history gone : List LoggedRecord} {model : LogManager}
  {leaving parts : List Part} {active : Device} {torn : List UInt8} {next : Option Device}

theorem base_eq (keeping : Keeping log history [] model leaving parts active torn next) :
    HEADER_LEN = model.base := keeping.holds.dropped

theorem reads (keeping : Keeping log history [] model leaving parts active [] next)
    {records : List LoggedRecord} (known : ∀ record ∈ records, record ∈ history) : Reads log records where
  readAt record member := by
    have bounds := keeping.holds.whole.bounds (known record member)
    exact keeping.readAt (known record member) (keeping.base_eq ▸ bounds.1)
  sorted lsn := by
    rw [keeping.iterFrom]
    exact (keeping.holds.whole.sorted.filter _).filter _
  iterFrom lsn record member low := by
    have bounds := keeping.holds.whole.bounds (known record member)
    rw [keeping.iterFrom]
    refine List.mem_filter.mpr ⟨List.mem_filter.mpr ⟨known record member, ?_⟩, decide_eq_true low⟩
    exact decide_eq_true (keeping.base_eq ▸ bounds.1)

theorem torn_eq_nil (keeping : Keeping log history gone model leaving parts active torn next)
    (ends : FileEnds log) :
    torn = [] := by
  have represents := keeping.represents
  have total := keeping.holds.durable.total
  rw [FileEnds, represents.activeDevice, Device.size, represents.activeImage, List.length_append, image_length,
    represents.durableLsn, represents.activeStart] at ends
  exact List.eq_nil_of_length_eq_zero (by omega)

theorem flush (keeping : Keeping log history gone model leaving parts active torn none) {upTo : Nat}
    {outcome : FlushOutcome} (rolls : ∀ fault, outcome ≠ .succeeds (some fault))
    (aligned : if log.durableLsn > upTo then log.buffer = [] else FileEnds log ∨ outcome = .writeFails 0) :
    ∃ model parts active torn,
      Keeping (log.flush upTo outcome).1 history gone model leaving parts active torn none ∧
      (log.flush upTo outcome).1.activeId ≤ log.activeId + 1 ∧
      log.durableLsn ≤ (log.flush upTo outcome).1.durableLsn ∧
      ((log.flush upTo outcome).2 = true →
        torn = [] ∧ (log.flush upTo outcome).1.durableLsn = (log.flush upTo outcome).1.nextLsn) := by
  have represents := keeping.represents
  have grows : log.durableLsn ≤ log.nextLsn := by
    rw [represents.durableLsn, represents.nextLsn]
    exact keeping.holds.buffered.le
  unfold SegmentedLog.flush
  by_cases early : log.durableLsn > upTo
  · rw [if_pos early] at aligned ⊢
    refine ⟨_, _, _, _, keeping, Nat.le_succ _, Nat.le_refl _, fun _ => ?_⟩
    have empty : recordFraming.encodeAll model.buffer = [] := represents.buffer.symm.trans aligned
    have none_ : totalLen model.buffer = 0 := by rw [← recordFraming_length, empty]; rfl
    have copied := keeping.copied
    rw [empty] at copied
    refine ⟨List.prefix_nil.mp copied, ?_⟩
    rw [represents.durableLsn, represents.nextLsn, keeping.holds.buffered.total, none_]
    rfl
  · rw [if_neg early] at aligned ⊢
    rcases aligned with ends | rfl
    · obtain rfl := keeping.torn_eq_nil ends
      cases outcome with
      | writeFails written =>
        have cut : [] ++ log.buffer.take written <+: recordFraming.encodeAll model.buffer := by
          rw [← represents.buffer]
          exact List.take_prefix _ _
        exact ⟨_, _, _, _, keeping.write cut, Nat.le_succ _, Nat.le_refl _, by simp⟩
      | syncFails =>
        have cut : [] ++ log.buffer <+: recordFraming.encodeAll model.buffer := by
          rw [← represents.buffer]
          exact List.prefix_refl _
        exact ⟨_, _, _, _, keeping.write cut, Nat.le_succ _, Nat.le_refl _, by simp⟩
      | sizeFails => exact ⟨_, _, _, _, keeping.persist, Nat.le_succ _, grows, by simp⟩
      | succeeds roll =>
        cases roll with
        | some fault => exact absurd rfl (rolls fault)
        | none =>
          dsimp only
          split
          · exact ⟨_, _, _, _, keeping.persist.rollSegment rfl, Nat.le_refl _, grows, fun _ => ⟨rfl, rfl⟩⟩
          · exact ⟨_, _, _, _, keeping.persist, Nat.le_succ _, grows, fun _ => ⟨rfl, rfl⟩⟩
    · have cut : torn ++ log.buffer.take 0 <+: recordFraming.encodeAll model.buffer := by
        rw [List.take_zero, List.append_nil]
        exact keeping.copied
      exact ⟨_, _, _, _, keeping.write cut, Nat.le_succ _, Nat.le_refl _, by simp⟩

end Keeping

namespace LogHistory

/-- A flush that writes finds the file ending with the last durable record; rolls have a name for the next segment, and
the log is closed without a crash. -/
def Aligned (w : LogHistory) : LogAction → Prop
  | .append txnId kind => Appendable w.log txnId kind
  | .flush upTo outcome =>
    (∀ fault, outcome ≠ .succeeds (some fault)) ∧ w.log.activeId + 1 < SEGMENT_NAMES ∧
      if w.log.durableLsn > upTo then w.log.buffer = [] else FileEnds w.log ∨ outcome = .writeFails 0
  | .reopen => True
  | .crash _ => False

structure Intact (w : LogHistory) : Prop where
  keeping : ∃ model parts active torn, Keeping w.log w.history [] model [] parts active torn none
  named : w.log.activeId < SEGMENT_NAMES
  flushed : ∀ record ∈ w.flushed, record ∈ w.history ∧ record.lsn < w.log.durableLsn

namespace Intact
variable {w : LogHistory}

theorem start (initial : system.init w) : w.Intact := by
  obtain ⟨empty, none_, target, opened⟩ := initial
  obtain ⟨first, device, -, keeping⟩ := Keeping.create opened empty
  exact ⟨⟨_, _, _, _, keeping⟩, by simp [first, SEGMENT_NAMES], by simp [none_]⟩

theorem append (intact : w.Intact) {txnId : Nat} {kind : LogRecordKind} (room : Appendable w.log txnId kind) :
    (w.append txnId kind).Intact := by
  obtain ⟨_, _, _, _, keeping⟩ := intact.keeping
  refine ⟨⟨_, _, _, _, keeping.append room⟩, intact.named, fun record member => ?_⟩
  obtain ⟨known, low⟩ := intact.flushed record member
  exact ⟨List.mem_append_left _ known, low⟩

theorem flush (intact : w.Intact) {upTo : Nat} {outcome : FlushOutcome} (aligned : w.Aligned (.flush upTo outcome)) :
    (w.flush upTo outcome).1.Intact ∧
      ((w.flush upTo outcome).2 = true → Reads (w.flush upTo outcome).1.log w.history) := by
  obtain ⟨_, _, _, _, keeping⟩ := intact.keeping
  obtain ⟨rolls, named, ends⟩ := aligned
  obtain ⟨_, _, _, _, after, active, grows, success⟩ := keeping.flush rolls ends
  refine ⟨⟨⟨_, _, _, _, after⟩, Nat.lt_of_le_of_lt active named, fun record member => ?_⟩, fun succeeded => ?_⟩
  · by_cases succeeded : (w.log.flush upTo outcome).2 = true
    · simp only [LogHistory.flush, succeeded, if_true] at member ⊢
      refine ⟨member, ?_⟩
      rw [(success succeeded).2, after.represents.nextLsn]
      exact after.holds.lsn_lt member
    · simp only [LogHistory.flush, succeeded] at member ⊢
      obtain ⟨known, low⟩ := intact.flushed record member
      exact ⟨known, Nat.lt_of_lt_of_le low grows⟩
  · obtain ⟨rfl, -⟩ := success succeeded
    exact after.reads fun _ member => member

theorem reopen (intact : w.Intact) :
    ∃ reopened, SegmentedLog.openWithStore w.log.files w.log.targetSegmentSize = some reopened ∧
      Reads reopened w.flushed ∧
      Intact { w with log := reopened, history := w.history.filter (·.lsn < reopened.nextLsn) } := by
  obtain ⟨_, _, _, _, keeping⟩ := intact.keeping
  obtain ⟨reopened, _, _, _, ⟨opened, durable, all, -, -⟩, after, same, -, -⟩ :=
    keeping.reopen (.inl rfl) (by simp) intact.named
  have kept : ∀ record ∈ w.flushed, record ∈ w.history.filter fun r => decide (r.lsn < reopened.nextLsn) := by
    intro record member
    obtain ⟨known, low⟩ := intact.flushed record member
    exact List.mem_filter.mpr ⟨known, decide_eq_true (Nat.lt_of_lt_of_le low durable)⟩
  refine ⟨reopened, opened, after.reads kept, ⟨_, _, _, _, after⟩, same ▸ intact.named,
    fun record member => ⟨kept record member, ?_⟩⟩
  rw [all]
  exact Nat.lt_of_lt_of_le (intact.flushed record member).2 durable

end Intact

/-- After a successful flush, and after reopening, all records appended before it are read. -/
theorem flushed_records_read {w : LogHistory} (reached : system.ReachableBy Aligned w) :
    (∀ upTo outcome, w.Aligned (.flush upTo outcome) → (w.flush upTo outcome).2 = true →
        (w.flush upTo outcome).1.flushed = w.history ∧ Reads (w.flush upTo outcome).1.log w.history) ∧
      ∃ reopened, SegmentedLog.openWithStore w.log.files w.log.targetSegmentSize = some reopened ∧
        Reads reopened w.flushed := by
  have intact : w.Intact := by
    refine reached.invariant (P := Intact)
      (fun w initial => .start initial) fun w action w' intact aligned stepped => ?_
    cases action with
    | append txnId kind =>
      obtain rfl := Option.some.inj stepped
      exact intact.append aligned
    | flush upTo outcome =>
      obtain rfl := Option.some.inj stepped
      exact (intact.flush aligned).1
    | reopen =>
      obtain ⟨reopened, opened, -, after⟩ := intact.reopen
      obtain ⟨log, isOpened, rfl⟩ := Option.map_eq_some_iff.mp stepped
      obtain rfl := Option.some.inj (opened.symm.trans isOpened)
      exact after
    | crash keep => exact aligned.elim
  refine ⟨fun upTo outcome aligned succeeded => ⟨?_, (intact.flush aligned).2 succeeded⟩, ?_⟩
  · exact if_pos succeeded
  · obtain ⟨reopened, opened, reads, -⟩ := intact.reopen
    exact ⟨reopened, opened, reads⟩

def begun : LogHistory := (((create 4096).append 1 .begin).flush 16 (.succeeds none)).1

theorem flushed_records_read_retried :
    ∃ w, system.ReachableBy Aligned w ∧ w.history.map LoggedRecord.lsn = [16, 53] ∧
      Reads (w.flush 53 (.succeeds none)).1.log w.history := by
  have first : Appendable (create 4096).log 1 .begin := ⟨by decide, trivial, by decide, by decide⟩
  have second : Appendable begun.log 1 .commit := ⟨by decide, trivial, by decide, by decide⟩
  have appended : system.ReachableBy Aligned ((create 4096).append 1 .begin) :=
    .next (a := .append 1 .begin) (.start (create_init 4096)) first rfl
  have flushed : system.ReachableBy Aligned begun :=
    .next (a := .flush 16 (.succeeds none)) appended ⟨by simp, by decide, .inl rfl⟩ rfl
  have continued : system.ReachableBy Aligned (begun.append 1 .commit) :=
    .next (a := .append 1 .commit) flushed second rfl
  have failed : system.ReachableBy Aligned ((begun.append 1 .commit).flush 53 (.writeFails 0)).1 :=
    .next (a := .flush 53 (.writeFails 0)) continued ⟨by simp, by decide, .inr rfl⟩ rfl
  have retried := (flushed_records_read failed).1 53 (.succeeds none) ⟨by simp, by decide, .inl rfl⟩ rfl
  exact ⟨_, failed, rfl, retried.2⟩

theorem retried_flush_repeats_record :
    ∃ w, system.init (create 4096) ∧ system.run (create 4096) [.append 1 .begin, .flush 16 .syncFails] = some w ∧
      (w.flush 16 (.succeeds none)).2 = true ∧
      ∃ record, w.history = [record] ∧ (w.flush 16 (.succeeds none)).1.log.iterFrom 0 = [record, record] := by
  let record : LoggedRecord := { lsn := 16, prevLsn := none, txnId := 1, kind := .begin }
  have fits : record.Fits := ⟨by decide, by simp [record], by decide, trivial, by decide⟩
  let segment : Segment := { startLsn := HEADER_LEN, records := [record, record] }
  have twice : ∀ other ∈ segment.records, other.Fits := by simp [segment, fits]
  have file : segmentHeader HEADER_LEN ++ record.encode ++ record.encode = image segment := by
    simp [segment, image, recordFraming]
  refine ⟨_, create_init 4096, rfl, rfl, record, rfl, ?_⟩
  refine (SegmentedLog.iterFrom_unsealed ?_ ?_ ?_ twice 0).trans ?_
  · rfl
  · rfl
  · exact file
  · rfl

/-- Flushes succeed while there is a name for the next segment; a failed roll leaves no older header behind. -/
def RollSafe (w : LogHistory) : LogAction → Prop
  | .append txnId kind => Appendable w.log txnId kind
  | .flush upTo outcome => ∃ roll, outcome = .succeeds roll ∧ w.log.activeId + 1 < SEGMENT_NAMES ∧
      (w.log.durableLsn ≤ upTo → roll = some .openFile ∨ roll = some .setLen →
        ∀ d, w.log.files.lookup (w.log.activeId + 1) = some d → Harmless d w.log.nextLsn)
  | .reopen => False
  | .crash _ => True

end LogHistory

structure Rolled (log : SegmentedLog) (history : List LoggedRecord) (model : LogManager) (parts : List Part)
    (active : Device) (next : Option Device) : Prop where
  keeping : Keeping log history [] model [] parts active [] next
  named : log.activeId < SEGMENT_NAMES
  harmless : ∀ d ∈ next, Harmless d model.durableLsn
  nextNamed : next.isSome → log.activeId + 1 < SEGMENT_NAMES
  full : next.isSome → model.targetSegmentSize ≤ totalLen model.active.records
  partsSynced : ∀ part ∈ parts, part.device.Synced
  activeSynced : active.Synced

namespace Rolled
variable {log : SegmentedLog} {history : List LoggedRecord} {model : LogManager} {parts : List Part}
  {active : Device} {next : Option Device}

section
variable (rolled : Rolled log history model parts active next)
include rolled

theorem append {txnId : Nat} {kind : LogRecordKind} (room : Appendable log txnId kind) :
    Rolled (log.append txnId kind) (history ++ [log.nextRecord txnId kind]) (model.append txnId kind) parts active
      next :=
  { rolled with keeping := rolled.keeping.append room }

theorem oversize_iff :
    log.persist.activeDevice.size - HEADER_LEN ≥ log.targetSegmentSize ↔
      model.targetSegmentSize ≤ totalLen (model.active.records ++ model.buffer) := by
  rw [rolled.keeping.persist.size, rolled.keeping.represents.target]
  rfl

theorem persist (small : ¬model.targetSegmentSize ≤ totalLen (model.active.records ++ model.buffer)) :
    Rolled log.persist history model.persist parts (active.writeEnd log.buffer).syncAll none := by
  cases next with
  | some d =>
    have full := rolled.full rfl
    rw [totalLen_append] at small
    omega
  | none => exact ⟨rolled.keeping.persist, rolled.named, by simp, by simp, by simp, rolled.partsSynced, Nat.le_refl _⟩

theorem roll (named : log.activeId + 1 < SEGMENT_NAMES) :
    ∃ model parts active next,
      Rolled (log.persist.rollSegment none) history model parts active next := by
  refine ⟨_, _, _, _, rolled.keeping.persist.rollSegment rfl, named, by simp, by simp, by simp, ?_,
    writeSegmentHeader_synced _ _⟩
  intro part member
  rcases List.mem_append.mp member with old | new
  · exact rolled.partsSynced part old
  · obtain rfl := List.mem_singleton.mp new
    exact Nat.le_refl _

theorem rollFault {fault : RollFault} (named : log.activeId + 1 < SEGMENT_NAMES)
    (oversize : model.targetSegmentSize ≤ totalLen (model.active.records ++ model.buffer))
    (stale : fault = .openFile ∨ fault = .setLen → ∀ d ∈ next, Harmless d log.nextLsn) :
    ∃ model parts active next,
      Rolled (log.persist.rollSegment (some fault)) history model parts active next := by
  have same : (log.persist.rollSegment (some fault)).activeId = log.activeId := by cases fault <;> rfl
  refine ⟨_, _, _, _, rolled.keeping.persist.rollFault fault, same ▸ rolled.named, ?_, fun _ => same ▸ named,
    fun _ => oversize, rolled.partsSynced, Nat.le_refl _⟩
  have next : model.persist.durableLsn = log.persist.nextLsn := rolled.keeping.represents.nextLsn.symm
  rw [next]
  exact RollFault.leaves_harmless stale

theorem flush {upTo : Nat} {roll : Option RollFault} (named : log.activeId + 1 < SEGMENT_NAMES)
    (stale : log.durableLsn ≤ upTo → roll = some .openFile ∨ roll = some .setLen →
      ∀ d, log.files.lookup (log.activeId + 1) = some d → Harmless d log.nextLsn) :
    ∃ model parts active next,
      Rolled (log.flush upTo (.succeeds roll)).1 history model parts active next := by
  unfold SegmentedLog.flush
  by_cases early : log.durableLsn > upTo
  · rw [if_pos early]
    exact ⟨_, _, _, _, rolled⟩
  rw [if_neg early]
  by_cases oversize : model.targetSegmentSize ≤ totalLen (model.active.records ++ model.buffer)
  · simp only [if_pos (rolled.oversize_iff.mpr oversize)]
    cases roll with
    | none => exact rolled.roll named
    | some fault =>
      refine rolled.rollFault named oversize fun kind d isNext => ?_
      refine stale (Nat.not_lt.mp early) (by simpa using kind) d ?_
      rw [rolled.keeping.represents.lookup_next]
      exact isNext
  · simp only [if_neg (rolled.oversize_iff.not.mpr oversize)]
    exact ⟨_, _, _, _, rolled.persist oversize⟩

theorem restart (keep : Nat → Nat) :
    ∃ reopened model parts active,
      SegmentedLog.openWithStore (LogHistory.crashed log.files keep) log.targetSegmentSize = some reopened ∧
      Rolled reopened (history.filter fun r => decide (r.lsn < reopened.nextLsn)) model parts active none ∧
      log.durableLsn ≤ reopened.nextLsn := by
  have imageSynced : (image model.active).length ≤ active.synced := by
    have synced := rolled.activeSynced
    rwa [Device.Synced, Device.size, rolled.keeping.represents.activeImage, List.append_nil] at synced
  obtain ⟨torn, isNil, crashed⟩ := rolled.keeping.crash rolled.partsSynced imageSynced keep
  obtain rfl := List.prefix_nil.mp isNil
  have names : log.activeId + (next.map (·.crash (keep (log.activeId + 1)))).toList.length < SEGMENT_NAMES := by
    cases next with
    | none => exact rolled.named
    | some d => exact rolled.nextNamed rfl
  obtain ⟨reopened, _, _, _, reopens, after, same, -, synced⟩ :=
    crashed.reopen (.inr rfl) (Harmless.crash_of_mem rolled.harmless _) names
  obtain ⟨parts', active'⟩ := synced Part.crash_synced (Device.crash_synced _ _) Device.crash_synced_of_mem
  exact ⟨reopened, _, _, _, reopens.opened, ⟨after, same ▸ names, by simp, by simp, by simp, parts', active'⟩,
    reopens.durable⟩

end

end Rolled

namespace LogHistory

/-- Whatever step of a roll fails, no durable record is lost and no durable LSN handed out again. -/
theorem failed_roll_harmless {w : LogHistory} (reached : system.ReachableBy RollSafe w) (keep : Nat → Nat) :
    ∃ reopened, SegmentedLog.openWithStore (crashed w.log.files keep) w.log.targetSegmentSize = some reopened ∧
      ∀ record ∈ w.history, record.lsn < w.log.durableLsn →
        reopened.readAt record.lsn = some record ∧ record.lsn < reopened.nextLsn := by
  have invariant : ∃ model parts active next, Rolled w.log w.history model parts active next := by
    refine reached.invariant (P := fun w => ∃ model parts active next,
      Rolled w.log w.history model parts active next)
        (fun w initial => ?_) fun w action w' rolled safe stepped => ?_
    · obtain ⟨empty, -, target, opened⟩ := initial
      obtain ⟨first, device, synced, keeping⟩ := Keeping.create opened empty
      exact ⟨_, _, _, _, keeping, by simp [first, SEGMENT_NAMES], by simp, by simp, by simp, by simp, synced⟩
    · obtain ⟨_, _, _, _, rolled⟩ := rolled
      cases action with
      | append txnId kind =>
        obtain rfl := Option.some.inj stepped
        exact ⟨_, _, _, _, rolled.append safe⟩
      | flush upTo outcome =>
        obtain rfl := Option.some.inj stepped
        obtain ⟨roll, rfl, named, stale⟩ := safe
        exact rolled.flush named stale
      | reopen => exact safe.elim
      | crash keep =>
        obtain ⟨reopened, _, _, _, opened, after, -⟩ := rolled.restart keep
        obtain ⟨log, isOpened, rfl⟩ := Option.map_eq_some_iff.mp stepped
        obtain rfl := Option.some.inj (opened.symm.trans isOpened)
        exact ⟨_, _, _, _, after⟩
  obtain ⟨_, _, _, _, rolled⟩ := invariant
  obtain ⟨reopened, _, _, _, opened, after, durable⟩ := rolled.restart keep
  refine ⟨reopened, opened, fun record member low => ?_⟩
  have kept : record.lsn < reopened.nextLsn := Nat.lt_of_lt_of_le low durable
  have known : record ∈ w.history.filter fun r => decide (r.lsn < reopened.nextLsn) :=
    List.mem_filter.mpr ⟨member, decide_eq_true kept⟩
  exact ⟨after.keeping.readAt known (after.keeping.base_eq ▸ (after.keeping.holds.whole.bounds known).1), kept⟩

theorem failed_roll_harmless_begin :
    ∃ reopened, SegmentedLog.openWithStore
        (crashed (((create 0).append 1 .begin).flush 16 (.succeeds (some .sync))).1.log.files fun _ => 7) 0 =
          some reopened ∧
      reopened.readAt 16 = some { lsn := 16, prevLsn := none, txnId := 1, kind := .begin } := by
  have room : Appendable (create 0).log 1 .begin := ⟨by decide, trivial, by decide, by decide⟩
  have appended : system.ReachableBy RollSafe ((create 0).append 1 .begin) :=
    .next (a := .append 1 .begin) (.start (create_init 0)) room rfl
  have flushed : system.ReachableBy RollSafe (((create 0).append 1 .begin).flush 16 (.succeeds (some .sync))).1 :=
    .next (a := .flush 16 (.succeeds (some .sync))) appended ⟨_, rfl, by decide, by simp⟩ rfl
  obtain ⟨reopened, opened, durable⟩ := failed_roll_harmless flushed fun _ => 7
  exact ⟨reopened, opened, (durable _ List.mem_cons_self (by decide)).1⟩

theorem stale_header_hides_record :
    ∃ w reopened, system.init (create 0) ∧
      system.run (create 0) [.append 1 .begin, .flush 16 (.succeeds (some .sync)), .append 1 .commit,
        .flush 100 (.succeeds (some .openFile))] = some w ∧
      SegmentedLog.openWithStore (crashed w.log.files fun _ => 100) w.log.targetSegmentSize = some reopened ∧
      ∃ record ∈ w.history, record.lsn < w.log.durableLsn ∧ reopened.nextLsn = record.lsn ∧
        reopened.readAt record.lsn = none := by
  let first : LoggedRecord := { lsn := 16, prevLsn := none, txnId := 1, kind := .begin }
  let second : LoggedRecord := { lsn := 16 + first.len, prevLsn := some 16, txnId := 1, kind := .commit }
  have firstFits : first.Fits := ⟨by decide, by simp [first], by decide, trivial, by decide⟩
  have secondFits : second.Fits := ⟨by decide, by simp [second], by decide, trivial, by decide⟩
  let segment : Segment := { startLsn := 16, records := [first, second] }
  have file : segmentHeader 16 ++ first.encode ++ second.encode = image segment := by
    simp [segment, image, recordFraming]
  let part : Part := {
    id := 0
    device := { bytes := segmentHeader 16 ++ first.encode ++ second.encode, synced := 16 + first.len + second.len }
    segment }
  let next : Segment := { startLsn := second.lsn, records := [] }
  obtain ⟨opened, isOpened, bytes, -⟩ : ∃ opened,
      SegmentedLog.openActive { bytes := segmentHeader second.lsn, synced := 16 } (some segment.stop) =
        some (next.startLsn, next.records, opened) ∧ opened.bytes = image next ∧ _ :=
    openActive_image (show _ = image next ++ [] by simp [image, next]) (by decide) (by simp [next]) decodeRecord_nil
  have whole : SegmentedLog.openWithStore ([part].map Part.file ++ [(1, _)]) 0 = _ :=
    openWithStore_parts (by simp [part]) (by decide) (by simp [part, file])
      (by simp [part, segment, firstFits, secondFits])
      (by simp [part, segment]) isOpened bytes 0
  refine ⟨_, _, create_init 0, rfl, whole, second, ?_, ?_, ?_, ?_⟩
  · decide
  · decide
  · rfl
  · rfl

end LogHistory

end SimpleRdbms.Storage
