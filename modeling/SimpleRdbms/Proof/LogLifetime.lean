import SimpleRdbms.Proof.LogTruncation

namespace SimpleRdbms.Storage
open Lib

structure Resting (log : SegmentedLog) (history gone : List LoggedRecord) (model : LogManager)
    (leaving parts : List Part) (active : Device) : Prop where
  keeping : Keeping log history gone model leaving parts active [] none
  partsSynced : ∀ part ∈ leaving ++ parts, part.device.Synced
  activeSynced : active.Synced

structure Flushing (log : SegmentedLog) (history gone : List LoggedRecord) (model : LogManager)
    (leaving parts : List Part) (active : Device) (torn : List UInt8)
    (next : Option Device) : Prop where
  keeping : Keeping log history gone model leaving parts active torn next
  partsSynced : ∀ part ∈ leaving ++ parts, part.device.Synced
  imageSynced : (image model.active).length ≤ active.synced
  harmless : ∀ d ∈ next, Harmless d model.durableLsn
  written : next = none ∨ torn = []

namespace Resting
variable {log : SegmentedLog} {history gone : List LoggedRecord} {model : LogManager}
  {leaving parts : List Part} {active : Device}

section
variable (resting : Resting log history gone model leaving parts active)
include resting

theorem imageSynced : (image model.active).length ≤ active.synced := by
  have synced := resting.activeSynced
  rwa [Device.Synced, Device.size, resting.keeping.represents.activeImage, List.append_nil] at synced

theorem flushing : Flushing log history gone model leaving parts active [] none :=
  ⟨resting.keeping, resting.partsSynced, resting.imageSynced, by simp, .inl rfl⟩

theorem append {txnId : Nat} {kind : LogRecordKind} (room : Appendable log txnId kind) :
    Resting (log.append txnId kind) (history ++ [log.nextRecord txnId kind]) gone (model.append txnId kind) leaving
      parts active :=
  { resting with keeping := resting.keeping.append room }

theorem persist :
    Resting log.persist history gone model.persist leaving parts (active.writeEnd log.buffer).syncAll :=
  ⟨resting.keeping.persist, resting.partsSynced, Nat.le_refl _⟩

theorem roll (empty : model.buffer = []) :
    Resting (log.rollSegment none) history gone model.rollSegment leaving (parts ++ [log.part active model.active])
      (writeSegmentHeader .empty log.nextLsn none) := by
  refine ⟨resting.keeping.rollSegment empty, ?_, writeSegmentHeader_synced _ _⟩
  rw [← List.append_assoc]
  intro part member
  rcases List.mem_append.mp member with old | new
  · exact resting.partsSynced part old
  · obtain rfl := List.mem_singleton.mp new
    exact resting.activeSynced

theorem flush (upTo : Nat) :
    ∃ model' parts active,
      Resting (log.flush upTo (.succeeds none)).1 history gone model' leaving parts active ∧
      model'.base = model.base ∧ (log.flush upTo (.succeeds none)).1.activeId ≤ log.activeId + 1 := by
  unfold SegmentedLog.flush
  by_cases early : log.durableLsn > upTo
  · rw [if_pos early]
    exact ⟨_, _, _, resting, rfl, Nat.le_succ _⟩
  · rw [if_neg early]
    dsimp only
    split
    · exact ⟨_, _, _, resting.persist.roll rfl, LogManager.Holds.base_rollSegment, Nat.le_refl _⟩
    · exact ⟨_, _, _, resting.persist, rfl, Nat.le_succ _⟩

theorem flushAll :
    ∃ model' parts active, Resting log.flushAll history gone model' leaving parts active ∧
      model'.base = model.base ∧ log.flushAll.activeId ≤ log.activeId + 1 := by
  unfold SegmentedLog.flushAll
  split
  · exact ⟨_, _, _, resting, rfl, Nat.le_succ _⟩
  · exact resting.flush _

theorem flushAll_durable : log.flushAll.durableLsn = log.nextLsn := by
  have represents := resting.keeping.represents
  have buffered := resting.keeping.holds.buffered
  unfold SegmentedLog.flushAll
  split
  · rename_i empty
    have nothing : recordFraming.encodeAll model.buffer = [] := represents.buffer ▸ List.isEmpty_iff.mp empty
    have none_ : totalLen model.buffer = 0 := by rw [← recordFraming_length, nothing]; rfl
    rw [represents.durableLsn, represents.nextLsn, buffered.total, none_]
    rfl
  · have late : ¬log.durableLsn > log.nextLsn := by
      rw [represents.durableLsn, represents.nextLsn]
      exact Nat.not_lt.mpr buffered.le
    unfold SegmentedLog.flush
    rw [if_neg late]
    dsimp only
    split <;> rfl

theorem interrupt (upTo : Nat) (outcome : FlushOutcome) :
    ∃ model' parts active torn next,
      Flushing (log.flush upTo outcome).1 history gone model' leaving parts active torn next ∧
      model'.base = model.base ∧ (log.flush upTo outcome).1.activeId + next.toList.length ≤ log.activeId + 1 := by
  have write : ∀ written, Flushing
    { log with files := log.files.modify log.activeId (·.writeEnd (log.buffer.take written)) }
      history gone model leaving parts (active.writeEnd (log.buffer.take written)) (log.buffer.take written)
      none := by
    intro written
    have cut : [] ++ log.buffer.take written <+: recordFraming.encodeAll model.buffer := by
      rw [← resting.keeping.represents.buffer]
      exact List.take_prefix _ _
    exact ⟨resting.keeping.write cut, resting.partsSynced, resting.imageSynced, by simp, .inl rfl⟩
  unfold SegmentedLog.flush
  by_cases early : log.durableLsn > upTo
  · rw [if_pos early]
    exact ⟨_, _, _, _, _, resting.flushing, rfl, Nat.le_succ _⟩
  · rw [if_neg early]
    cases outcome with
    | writeFails written => exact ⟨_, _, _, _, _, write written, rfl, Nat.le_succ _⟩
    | syncFails =>
      have whole := write log.buffer.length
      rw [List.take_length] at whole
      exact ⟨_, _, _, _, _, whole, rfl, Nat.le_succ _⟩
    | sizeFails => exact ⟨_, _, _, _, _, resting.persist.flushing, rfl, Nat.le_succ _⟩
    | succeeds roll =>
      dsimp only
      split
      · cases roll with
        | none =>
          exact ⟨_, _, _, _, _, (resting.persist.roll rfl).flushing, LogManager.Holds.base_rollSegment,
            Nat.le_refl _⟩
        | some fault =>
          have rolled := resting.persist.keeping.rollFault fault
          have same : (log.persist.rollSegment (some fault)).activeId = log.activeId := by cases fault <;> rfl
          have next : model.persist.durableLsn = log.persist.nextLsn := resting.keeping.represents.nextLsn.symm
          refine ⟨_, _, _, _, _, ⟨rolled, resting.partsSynced, resting.persist.imageSynced, ?_, .inr rfl⟩, rfl, ?_⟩
          · rw [next]
            exact RollFault.leaves_harmless (by simp)
          · rw [same]
            exact Nat.add_le_add_left Option.length_toList_le _
      · exact ⟨_, _, _, _, _, resting.persist.flushing, rfl, Nat.le_succ _⟩

end

end Resting

namespace Flushing
variable {log : SegmentedLog} {history gone : List LoggedRecord} {model : LogManager}
  {leaving parts : List Part} {active : Device} {torn : List UInt8} {next : Option Device}

theorem restart (flushing : Flushing log history gone model leaving parts active torn next) (count : Nat)
    (keep : Nat → Nat) (named : log.activeId + next.toList.length < SEGMENT_NAMES) :
    ∃ crashed reopened lost model' parts active,
      crashed.files = LogHistory.crashed (((leaving.map Part.id).take count).foldl SegmentFiles.remove log.files) keep ∧
      crashed.targetSegmentSize = log.targetSegmentSize ∧
      Reopens crashed reopened history model'.base ∧
      Resting reopened (history.filter fun r => decide (r.lsn < reopened.nextLsn)) lost model' [] parts active ∧
      model'.base ≤ model.base ∧ reopened.activeId < SEGMENT_NAMES := by
  have kept : ∀ part ∈ leaving.drop count ++ parts, part.device.Synced := by
    intro part member
    refine flushing.partsSynced part ?_
    rcases List.mem_append.mp member with early | late
    · exact List.mem_append_left _ (List.mem_of_mem_drop early)
    · exact List.mem_append_right _ late
  obtain ⟨torn', cut, crashed⟩ := (flushing.keeping.remove count).crash kept flushing.imageSynced keep
  obtain ⟨log', lost, model', files, target, activeId, -, durable, base, restored⟩ := crashed.restore
  have nextCrashed : (next.map (·.crash (keep (log.activeId + 1)))).toList.length = next.toList.length :=
    by cases next <;> rfl
  have written : next.map (·.crash (keep (log.activeId + 1))) = none ∨ torn' = [] := by
    refine flushing.written.imp (fun none_ => by rw [none_]; rfl) fun torn_nil => ?_
    rw [torn_nil] at cut
    exact List.prefix_nil.mp cut
  have harmless := Harmless.crash_of_mem flushing.harmless (keep (log.activeId + 1))
  have names : log'.activeId + (next.map (·.crash (keep (log.activeId + 1)))).toList.length < SEGMENT_NAMES := by
    rw [activeId, nextCrashed]
    exact named
  obtain ⟨reopened, model'', parts', active', reopens, after, same, base', synced⟩ :=
    restored.reopen written (durable ▸ harmless) names
  obtain ⟨partsSynced, activeSynced⟩ :=
    synced (List.map_append ▸ Part.crash_synced) (Device.crash_synced _ _) Device.crash_synced_of_mem
  exact ⟨log', reopened, lost, model'', parts', active', files, target, reopens,
    ⟨after, partsSynced, activeSynced⟩, base' ▸ base, same ▸ names⟩

end Flushing

namespace LogLifetime

structure Alive (w : LogLifetime) (gone : List LoggedRecord) (model : LogManager) (leaving parts : List Part)
    (active : Device) : Prop where
  resting : Resting w.log w.history gone model leaving parts active
  removing : w.removing = leaving.map Part.id
  bound : model.base ≤ max HEADER_LEN w.bound

def Sound (w : LogLifetime) : Prop :=
    ∃ gone model leaving parts active, w.Alive gone model leaving parts active

variable {w w' : LogLifetime} {gone : List LoggedRecord} {model : LogManager} {leaving parts : List Part}
  {active : Device}

namespace Alive

theorem start (initial : system.init w) : w.Sound ∧ w.log.activeId = 0 := by
  obtain ⟨empty, none_, -, target, opened⟩ := initial
  obtain ⟨first, device, synced, keeping⟩ := Keeping.create opened empty
  refine ⟨⟨[], _, [], [], device, ⟨keeping, by simp, synced⟩, none_, ?_⟩, first⟩
  exact Nat.le_max_left _ _

section
variable (alive : w.Alive gone model leaving parts active)
include alive

theorem truncate (bound : Nat) (stepped : w.step (.truncateBelow bound) = some w') : w'.Sound := by
  obtain rfl := Option.some.inj stepped
  have represents := alive.resting.keeping.represents
  have dropped := alive.resting.keeping.drop (SegmentedLog.keepFrom bound w.log.activeStartLsn w.log.sealed)
  have stored : ∀ count, leaving ++ parts.take count ++ parts.drop count = leaving ++ parts := by
    intro count
    rw [List.append_assoc, List.take_append_drop]
  refine ⟨_, _, _, _, _, ⟨dropped, ?_, alive.resting.activeSynced⟩, ?_, ?_⟩
  · rw [stored]
    exact alive.resting.partsSynced
  · rw [List.map_append, ← alive.removing]
    simp only [SegmentedLog.truncateBelow, represents.sealed, ← List.map_take, List.map_map]
    rfl
  · have moved := SegmentedLog.keepFrom_bound bound w.log.activeStartLsn w.log.sealed
    have before := alive.resting.keeping.firstLsn
    have low := alive.bound
    rw [← dropped.firstLsn]
    simp only [SegmentedLog.firstLsn] at before ⊢
    omega

theorem removeFiles : w.removeFiles.Sound := by
  have removed := alive.resting.keeping.remove leaving.length
  rw [List.drop_length, List.take_of_length_le (by simp), ← alive.removing] at removed
  refine ⟨_, _, _, _, _, ⟨removed, fun part member => ?_, alive.resting.activeSynced⟩, rfl, alive.bound⟩
  exact alive.resting.partsSynced part (List.mem_append_right _ member)

theorem reopen (finished : w.removing = []) (named : w.log.activeId + 1 < SEGMENT_NAMES) :
    ∃ w', w.step .reopen = some w' ∧ w'.Sound ∧ w'.log.activeId < SEGMENT_NAMES := by
  obtain rfl : leaving = [] := List.map_eq_nil_iff.mp (alive.removing.symm.trans finished)
  obtain ⟨model', parts', active', flushed, base, next⟩ := alive.resting.flushAll
  have names : w.log.flushAll.activeId < SEGMENT_NAMES := Nat.lt_of_le_of_lt next named
  obtain ⟨reopened, _, _, _, reopens, after, same, base', synced⟩ :=
    flushed.keeping.reopen (.inl rfl) (by simp) names
  obtain ⟨partsSynced, activeSynced⟩ := synced flushed.partsSynced flushed.activeSynced (by simp)
  have whole : w.history.filter (fun r => decide (r.lsn < reopened.nextLsn)) = w.history := by
    rw [List.filter_eq_self]
    intro record member
    have below := alive.resting.keeping.holds.lsn_lt member
    have durable := reopens.durable
    rw [alive.resting.flushAll_durable, alive.resting.keeping.represents.nextLsn] at durable
    exact decide_eq_true (Nat.lt_of_lt_of_le below durable)
  rw [whole] at after
  have target : w.log.flushAll.targetSegmentSize = w.log.targetSegmentSize := w.log.flushAll_target
  have opened := reopens.opened
  rw [target] at opened
  refine ⟨{ w with log := reopened }, ?_, ⟨_, _, _, _, _, ⟨after, partsSynced, activeSynced⟩, finished, ?_⟩,
    same ▸ names⟩
  · rw [step, LogLifetime.reopen, if_neg (not_not.mpr finished), opened]
    rfl
  · rw [base', base]
    exact alive.bound

theorem interrupted (point : CrashPoint) :
    (w.interrupted point).targetSegmentSize = w.log.targetSegmentSize ∧ ∃ model' parts active torn next,
      Flushing (w.interrupted point) w.history gone model' leaving parts active torn next ∧
      model'.base = model.base ∧ (w.interrupted point).activeId + next.toList.length ≤ w.log.activeId + 1 := by
  unfold LogLifetime.interrupted
  split
  · exact ⟨rfl, _, _, _, _, _, alive.resting.flushing, rfl, Nat.le_succ _⟩
  · exact ⟨w.log.flush_target _ _, alive.resting.interrupt _ _⟩

theorem restart (point : CrashPoint) (named : w.log.activeId + 1 < SEGMENT_NAMES) :
    ∃ crashed reopened lost model' parts active, crashed.files = w.crashFiles point ∧
      crashed.targetSegmentSize = w.log.targetSegmentSize ∧ Reopens crashed reopened w.history model'.base ∧
      Resting reopened (w.history.filter fun r => decide (r.lsn < reopened.nextLsn)) lost model'
        [] parts active ∧
      model'.base ≤ model.base ∧ reopened.activeId < SEGMENT_NAMES := by
  obtain ⟨target, _, _, _, _, _, flushing, base, next⟩ := alive.interrupted point
  obtain ⟨crashed, reopened, lost, model', parts', active', files, target', reopens, resting, base', names⟩ :=
    flushing.restart point.removed point.keep (Nat.lt_of_le_of_lt next named)
  rw [← alive.removing] at files
  exact ⟨crashed, reopened, lost, model', parts', active', files, target'.trans target, reopens, resting,
    base ▸ base', names⟩

end

end Alive

def Named (w : LogLifetime) : Action → Prop
  | .append txnId kind => Appendable w.log txnId kind
  | .flush _ | .flushAll | .reopen | .crash _ => w.log.activeId + 1 < SEGMENT_NAMES
  | .truncateBelow _ | .removeFiles => True

theorem Sound.step {action : Action} (sound : w.Sound) (names : w.log.activeId < SEGMENT_NAMES)
    (named : w.Named action) (stepped : w.step action = some w') : w'.Sound ∧ w'.log.activeId < SEGMENT_NAMES := by
  obtain ⟨gone, model, leaving, parts, active, alive⟩ := sound
  cases action with
  | append txnId kind =>
    obtain rfl := Option.some.inj stepped
    exact ⟨⟨_, _, _, _, _, alive.resting.append named, alive.removing, alive.bound⟩, names⟩
  | flush upTo =>
    obtain rfl := Option.some.inj stepped
    obtain ⟨_, _, _, flushed, base, next⟩ := alive.resting.flush upTo
    exact ⟨⟨_, _, _, _, _, flushed, alive.removing, base ▸ alive.bound⟩, Nat.lt_of_le_of_lt next named⟩
  | flushAll =>
    obtain rfl := Option.some.inj stepped
    obtain ⟨_, _, _, flushed, base, next⟩ := alive.resting.flushAll
    exact ⟨⟨_, _, _, _, _, flushed, alive.removing, base ▸ alive.bound⟩, Nat.lt_of_le_of_lt next named⟩
  | truncateBelow bound =>
    refine ⟨alive.truncate bound stepped, ?_⟩
    obtain rfl := Option.some.inj stepped
    exact names
  | removeFiles =>
    obtain rfl := Option.some.inj stepped
    exact ⟨alive.removeFiles, names⟩
  | reopen =>
    have finished : w.removing = [] := by
      by_contra unfinished
      simp [LogLifetime.step, LogLifetime.reopen, unfinished] at stepped
    obtain ⟨reopened, isReopened, sound, names⟩ := alive.reopen finished named
    obtain rfl := Option.some.inj (isReopened.symm.trans stepped)
    exact ⟨sound, names⟩
  | crash point =>
    obtain ⟨crashed, reopened, _, _, _, _, files, target, reopens, resting, base, names⟩ := alive.restart point named
    have opened := reopens.opened
    rw [files, target] at opened
    obtain ⟨log, isOpened, rfl⟩ := Option.map_eq_some_iff.mp stepped
    obtain rfl := Option.some.inj (opened.symm.trans isOpened)
    exact ⟨⟨_, _, [], _, _, resting, rfl, Nat.le_trans base alive.bound⟩, names⟩

theorem sound_of_reachable {ok : LogLifetime → Action → Prop} (cautious : ∀ w action, ok w action → w.Named action)
    (reached : system.ReachableBy ok w) : w.Sound ∧ w.log.activeId < SEGMENT_NAMES := by
  refine reached.invariant (P := fun w => w.Sound ∧ w.log.activeId < SEGMENT_NAMES) (fun w initial => ?_)
    fun w action w' inv allowed stepped => inv.1.step inv.2 (cautious w action allowed) stepped
  obtain ⟨sound, first⟩ := Alive.start initial
  exact ⟨sound, first ▸ by decide⟩

def create (target : Nat) : LogLifetime where
  log := openedLog [] 0 target (writeSegmentHeader .empty HEADER_LEN none) { startLsn := HEADER_LEN, records := [] }
  removing := []
  history := []
  bound := 0

theorem create_init (target : Nat) : system.init (create target) := by
  refine ⟨rfl, rfl, rfl, target, ?_⟩
  exact openWithStore_create target

theorem rounds (count : Nat) (few : count ≤ SEGMENT_NAMES + 1) :
    ∃ w model parts active, system.Reachable w ∧ w.removing = [] ∧ w.log.targetSegmentSize = 0 ∧
      w.log.activeId = count ∧ w.log.nextLsn = HEADER_LEN + count * LogRecordKind.begin.encodedLen ∧
      w.log.buffer = [] ∧ Resting w.log w.history [] model [] parts active ∧
      parts.map Part.id = List.range count ∧ ∀ part ∈ parts, part.segment.records ≠ [] := by
  induction count with
  | zero =>
    obtain ⟨first, device, synced, keeping⟩ := Keeping.create (openWithStore_create 0) rfl
    exact ⟨create 0, _, _, _, .start (create_init 0), rfl, rfl, first, rfl, rfl, ⟨keeping, by simp, synced⟩, rfl,
      by simp⟩
  | succ count ih =>
    obtain ⟨w, model, parts, active, reached, finished, target, activeId, nextLsn, empty, resting, ids, filled⟩ :=
      ih (Nat.le_of_succ_le few)
    have room : Appendable w.log 0 .begin := by
      refine ⟨by decide, trivial, by decide, ?_⟩
      rw [nextLsn]
      have length : LogRecordKind.begin.encodedLen = 37 := rfl
      simp only [length, SEGMENT_NAMES, HEADER_LEN] at few ⊢
      omega
    let appended : LogLifetime :=
      { w with log := w.log.append 0 .begin, history := w.history ++ [w.log.nextRecord 0 .begin] }
    have late : ¬appended.log.durableLsn > w.log.nextLsn := by
      have := resting.keeping.holds.buffered.le
      have := resting.keeping.represents.durableLsn
      have := resting.keeping.represents.nextLsn
      exact Nat.not_lt.mpr (by simp only [appended, SegmentedLog.append]; omega)
    have rolls : (appended.log.flush w.log.nextLsn (.succeeds none)).1 = appended.log.persist.rollSegment none := by
      have oversize : appended.log.persist.activeDevice.size - HEADER_LEN ≥ appended.log.targetSegmentSize :=
        target ▸ Nat.zero_le _
      simp only [SegmentedLog.flush, if_neg late, if_pos oversize]
    have isAppended : system.Reachable appended := .next (a := .append 0 .begin) reached trivial rfl
    have isRolled : system.Reachable { appended with log := appended.log.persist.rollSegment none } :=
      .next (a := .flush w.log.nextLsn) isAppended trivial (by rw [← rolls]; rfl)
    refine ⟨_, _, _, _, isRolled, finished, target, ?_, ?_, rfl, ((resting.append room).persist.roll rfl), ?_, ?_⟩
    · rw [← activeId]
      rfl
    · have length : ((w.log.nextRecord 0 .begin).encode).length = LogRecordKind.begin.encodedLen :=
        LoggedRecord.encode_length _
      simp only [appended, SegmentedLog.rollSegment, SegmentedLog.persist, SegmentedLog.append, length, nextLsn]
      rw [Nat.succ_mul, Nat.add_assoc]
    · rw [List.map_append, ids, List.range_succ, ← activeId]
      rfl
    · intro part member
      rcases List.mem_append.mp member with old | new
      · exact filled part old
      · obtain rfl := List.mem_singleton.mp new
        simp [SegmentedLog.part, LogManager.persist, LogManager.append]

end LogLifetime

theorem Keeping.reopen_unnamed {log : SegmentedLog} {history : List LoggedRecord} {model : LogManager}
    {parts : List Part} {active : Device} (keeping : Keeping log history [] model [] parts active [] none)
    (ids : parts.map Part.id = List.range (SEGMENT_NAMES + 1)) (activeId : log.activeId = SEGMENT_NAMES + 1)
    (filled : ∀ part ∈ parts, part.segment.records ≠ []) :
    ∃ reopened record, SegmentedLog.openWithStore log.files log.targetSegmentSize = some reopened ∧
      record ∈ history ∧ record.lsn < model.durableLsn ∧ reopened.nextLsn = record.lsn := by
  have represents := keeping.represents
  rw [List.range_succ, show SEGMENT_NAMES = 999999 + 1 from rfl, List.range_succ] at ids
  obtain ⟨listed, last, split, idsListed, isLast⟩ := List.map_eq_append_iff.mp ids
  obtain ⟨front, middle, splitListed, idsFront, isMiddle⟩ := List.map_eq_append_iff.mp idsListed
  obtain ⟨q, rfl, qId⟩ := List.map_eq_singleton_iff.mp isLast
  obtain ⟨p, rfl, pId⟩ := List.map_eq_singleton_iff.mp isMiddle
  have parts_eq : parts = front ++ p :: [q] := by rw [split, splitListed, List.append_assoc, List.singleton_append]
  have mem : ∀ part ∈ front ++ p :: [q], part ∈ parts := fun part member => parts_eq ▸ member
  have tiled := keeping.holds.tiled
  rw [represents.segments, parts_eq, List.map_append] at tiled
  obtain ⟨start, -, begins, stop, here, qBegins, _, qHere, -⟩ := tiled.split
  have frontMem : ∀ part ∈ front, part ∈ parts := fun part member => mem part (List.mem_append_left _ member)
  have pMem : p ∈ parts := mem p (by simp)
  have qMem : q ∈ parts := mem q (by simp)
  obtain ⟨device, opened, bytes, -⟩ : ∃ device,
      SegmentedLog.openActive p.device (((front.map Part.segment).getLast?).map Segment.stop) =
        some (p.segment.startLsn, p.segment.records, device) ∧ device.bytes = image p.segment ∧ _ :=
    openActive_image ((represents.images p pMem).trans (List.append_nil _).symm) (keeping.parts_bound p pMem)
      (keeping.partFits pMem) decodeRecord_nil
  have below : ∀ part ∈ front, part.id < p.id := by
    intro part member
    have inRange : part.id ∈ List.range 999999 := idsFront ▸ List.mem_map.mpr ⟨part, member, rfl⟩
    rw [pId]
    exact List.mem_range.mp inRange
  have long : ∀ file ∈ [q.file, (log.activeId, active)], (SegmentFiles.suffix file.1).length ≠ 6 := by
    intro file member
    rcases List.mem_pair.mp member with rfl | rfl
    · rw [show q.file.1 = 1000000 from qId]
      decide
    · change (SegmentFiles.suffix log.activeId).length ≠ 6
      rw [show log.activeId = 1000001 from activeId]
      decide
  have files : log.files = front.map Part.file ++ (p.id, p.device) :: [q.file, (log.activeId, active)] := by
    rw [represents.files, parts_eq]
    simp [Part.file]
  have whole := openWithStore_listed below (pId ▸ by decide)
    (fun part member => represents.images part (frontMem part member))
    (fun part member => keeping.partFits (frontMem part member))
    (fun part member => keeping.parts_bound part (frontMem part member)) opened bytes log.targetSegmentSize long
  rw [← files] at whole
  obtain ⟨record, rest, records⟩ := List.exists_cons_of_ne_nil (filled q qMem)
  rw [records] at qHere
  have inSealed : record ∈ model.sealed.flatMap Segment.records := by
    refine List.mem_flatMap.mpr ⟨q.segment, keeping.part_sealed qMem, ?_⟩
    rw [records]
    exact List.mem_cons_self
  refine ⟨_, record, whole, ?_, ?_, ?_⟩
  · rw [keeping.holds.history_eq]
    exact List.mem_append_right _ (List.mem_append_left _ (List.mem_append_left _ inSealed))
  · exact Nat.lt_of_lt_of_le (keeping.holds.tiled.laidOut.lt inSealed) keeping.holds.durable.le
  · have ends := here.total
    rw [qHere.1, ends, ← begins]
    rfl

namespace LogLifetime
variable {w : LogLifetime}

structure KeepsWhole (reopened : SegmentedLog) (survivors : List LoggedRecord) : Prop where
  iterFrom : ∀ lsn, reopened.iterFrom lsn = survivors.filter fun record => decide (lsn ≤ record.lsn)
  nextLsn : ∀ record, survivors.getLast? = some record → reopened.nextLsn = record.endLsn
  last : ∀ txnId, reopened.lastLsnByTxn txnId = lastLsnOf survivors txnId

theorem crash_keeps_whole_records (reached : system.ReachableBy Named w) (point : CrashPoint)
    (named : w.Named (.crash point)) :
    ∃ reopened, SegmentedLog.openWithStore (w.crashFiles point) w.log.targetSegmentSize = some reopened ∧
      KeepsWhole reopened ((w.crashFiles point).survivors w.history) := by
  obtain ⟨⟨gone, model, leaving, parts, active, alive⟩, -⟩ :=
    sound_of_reachable (fun _ _ named => named) reached
  obtain ⟨crashed, reopened, lost, model', _, _, files, target, reopens, resting, -, -⟩ := alive.restart point named
  have opened := reopens.opened
  have survivors := reopens.survivors
  have last := reopens.last
  rw [files] at opened survivors last
  rw [target] at opened
  refine ⟨reopened, opened, ?_, ?_, ?_⟩
  · intro lsn
    rw [resting.keeping.iterFrom, survivors]
  · intro record isLast
    rw [survivors, resting.keeping.holds.filter_retained] at isLast
    have holds := resting.keeping.holds
    have laid := (holds.tiled.laidOut.append holds.durable).append holds.buffered
    rw [resting.keeping.represents.nextLsn]
    exact (laid.getLast isLast).symm
  · intro txnId
    rw [last]

theorem crash_keeps_whole_records_roll :
    ∃ w reopened, system.run (create 0) [.append 1 .begin] = some w ∧
      SegmentedLog.openWithStore
        (w.crashFiles { flush := some (16, .succeeds (some .sync)), removed := 0, keep := fun _ => 7 }) 0 =
          some reopened ∧
      KeepsWhole reopened
        ((w.crashFiles { flush := some (16, .succeeds (some .sync)), removed := 0, keep := fun _ => 7 }).survivors
          w.history) := by
  have room : Appendable (create 0).log 1 .begin := ⟨by decide, trivial, by decide, by decide⟩
  have reached : system.ReachableBy Named
      { create 0 with log := (create 0).log.append 1 .begin, history := [(create 0).log.nextRecord 1 .begin] } :=
    .next (a := .append 1 .begin) (.start (create_init 0)) room rfl
  obtain ⟨reopened, opened, keeps⟩ := crash_keeps_whole_records reached
    { flush := some (16, .succeeds (some .sync)), removed := 0, keep := fun _ => 7 }
    (show (0 : Nat) + 1 < SEGMENT_NAMES by decide)
  exact ⟨_, reopened, rfl, opened, keeps⟩

theorem crash_loses_unnamed_segments :
    ∃ w point reopened record, system.Reachable w ∧
      SegmentedLog.openWithStore (w.crashFiles point) w.log.targetSegmentSize = some reopened ∧
      ((w.crashFiles point).survivors w.history).getLast? = some record ∧ reopened.nextLsn < record.endLsn := by
  obtain ⟨w, model, parts, active, reached, finished, -, activeId, -, -, resting, ids, filled⟩ :=
    rounds (SEGMENT_NAMES + 1) (Nat.le_refl _)
  let point : CrashPoint := { flush := none, removed := 0, keep := fun _ => 0 }
  obtain ⟨torn, isNil, crashed⟩ := resting.keeping.crash resting.partsSynced resting.imageSynced point.keep
  obtain rfl := List.prefix_nil.mp isNil
  have sameIds : (parts.map (Part.crash point.keep)).map Part.id = List.range (SEGMENT_NAMES + 1) := by
    rw [← ids, List.map_map]
    rfl
  have sameRecords : ∀ part ∈ parts.map (Part.crash point.keep), part.segment.records ≠ [] := by
    intro part member
    obtain ⟨old, isPart, rfl⟩ := List.mem_map.mp member
    exact filled old isPart
  obtain ⟨reopened, record, opened, member, low, repeated⟩ := crashed.reopen_unnamed sameIds activeId sameRecords
  have files : w.crashFiles point = LogHistory.crashed w.log.files point.keep := rfl
  have survivors := crashed.survivors_eq (List.nil_append _).symm rfl (fun first _ => first.len_pos) (by simp)
  have survives : record ∈ (w.crashFiles point).survivors w.history := by
    have bounds := resting.keeping.holds.whole.bounds member
    have base : HEADER_LEN = model.base := resting.keeping.holds.dropped
    rw [files, survivors]
    refine List.mem_filter.mpr ⟨List.mem_filter.mpr ⟨member, decide_eq_true low⟩, decide_eq_true (base ▸ bounds.1)⟩
  have sorted : ((w.crashFiles point).survivors w.history).Pairwise (·.lsn < ·.lsn) :=
    resting.keeping.holds.whole.sorted.filter _
  obtain ⟨last, isLast⟩ : ∃ last, ((w.crashFiles point).survivors w.history).getLast? = some last :=
    ⟨_, List.getLast?_eq_some_getLast (List.ne_nil_of_mem survives)⟩
  refine ⟨w, point, reopened, last, reached, opened, isLast, ?_⟩
  obtain ⟨before, split⟩ := List.getLast?_eq_some_iff.mp isLast
  rw [split] at survives sorted
  have positive := last.len_pos
  rw [repeated, LoggedRecord.endLsn]
  rcases List.mem_append.mp survives with earlier | same
  · have := (List.pairwise_append.mp sorted).2.2 record earlier last (List.mem_singleton_self _)
    omega
  · obtain rfl := List.mem_singleton.mp same
    omega

/-- The log is closed without a crash, and transactions go on only while their last record is retained. -/
def Clean (w : LogLifetime) : Action → Prop
  | .append txnId kind =>
    Appendable w.log txnId kind ∧ ∀ lsn, w.log.lastLsnByTxn txnId = some lsn → w.log.firstLsn ≤ lsn
  | .crash _ => False
  | action => w.Named action

structure Flat (w : LogLifetime) : Prop where
  ascending : w.history.Pairwise (·.lsn < ·.lsn)
  fresh : ∀ record ∈ w.history, record.lsn < w.log.nextLsn
  linked : ∀ txnId kind, w.Clean (.append txnId kind) →
    (w.log.nextRecord txnId kind).prevLsn = lastLsnOf w.retained txnId
  readAt : ∀ record ∈ w.history, w.bound ≤ record.lsn → w.log.readAt record.lsn = some record
  iterFrom : ∀ lsn, w.log.iterFrom lsn = w.retained.filter fun record => decide (lsn ≤ record.lsn)
  kept : ∀ record ∈ w.history, w.bound ≤ record.lsn → record ∈ w.retained
  reopens : w.removing = [] → w.Clean .reopen → (w.step .reopen).isSome

theorem Clean.named {action : Action} (clean : w.Clean action) : w.Named action := by
  cases action with
  | append txnId kind => exact clean.1
  | crash point => exact clean.elim
  | flush | flushAll | truncateBelow | removeFiles | reopen => exact clean

theorem Alive.linked {gone : List LoggedRecord} {model : LogManager} {leaving parts : List Part}
    {active : Device} (alive : w.Alive gone model leaving parts active) {txnId : Nat}
    (tracked : ∀ lsn, w.log.lastLsnByTxn txnId = some lsn → w.log.firstLsn ≤ lsn) :
    w.log.lastLsnByTxn txnId = lastLsnOf w.retained txnId := by
  have keeping := alive.resting.keeping
  have retained : w.retained = model.sealed.flatMap Segment.records ++ model.active.records ++ model.buffer := by
    rw [LogLifetime.retained, keeping.firstLsn]
    exact keeping.holds.filter_retained
  rw [keeping.represents.last, keeping.firstLsn] at tracked
  rw [keeping.represents.last, retained]
  by_cases present : ∃ record ∈ model.sealed.flatMap Segment.records ++ model.active.records ++ model.buffer,
    record.txnId = txnId
  · rw [keeping.holds.last txnId (.inl present), keeping.holds.history_eq]
    exact lastLsnOf_append present
  · have absent : ∀ record ∈ model.sealed.flatMap Segment.records ++ model.active.records ++ model.buffer,
        record.txnId ≠ txnId :=
      fun record member mine => present ⟨record, member, mine⟩
    rw [lastLsnOf_eq_none absent]
    cases last : model.lastLsnByTxn txnId with
    | none => rfl
    | some lsn =>
      obtain ⟨record, member, rfl, mine⟩ := keeping.known txnId lsn last
      exact absurd mine (absent record (keeping.holds.retained member (tracked _ last)))

theorem refines_record_list (reached : system.ReachableBy Clean w) : w.Flat := by
  obtain ⟨⟨gone, model, leaving, parts, active, alive⟩, -⟩ :=
    sound_of_reachable (fun _ _ clean => clean.named) reached
  have keeping := alive.resting.keeping
  have low : ∀ record ∈ w.history, w.bound ≤ record.lsn → model.base ≤ record.lsn := by
    intro record member above
    have := (keeping.holds.whole.bounds member).1
    have := alive.bound
    omega
  have retained : w.retained = w.history.filter fun record => decide (model.base ≤ record.lsn) := by
    rw [LogLifetime.retained, keeping.firstLsn]
  refine ⟨keeping.holds.whole.sorted, ?_, ?_, ?_, ?_, ?_, ?_⟩
  · intro record member
    rw [keeping.represents.nextLsn]
    exact keeping.holds.lsn_lt member
  · exact fun txnId kind clean => alive.linked clean.2
  · exact fun record member above => keeping.readAt member (low record member above)
  · intro lsn
    rw [retained, keeping.iterFrom]
  · intro record member above
    rw [retained]
    exact List.mem_filter.mpr ⟨member, decide_eq_true (low record member above)⟩
  · intro finished named
    obtain ⟨w', stepped, -, -⟩ := alive.reopen finished named
    rw [stepped]
    rfl

theorem refines_record_list_rolled :
    ∃ w first second, system.run (create 0) [.append 1 .begin, .flush 16, .append 1 .commit, .flush 53] = some w ∧
      w.history = [first, second] ∧ w.log.activeId = 2 ∧ w.log.readAt first.lsn = some first ∧
      w.log.readAt second.lsn = some second ∧ second.prevLsn = some first.lsn ∧ (w.step .reopen).isSome := by
  let appended : LogLifetime :=
    { create 0 with log := (create 0).log.append 1 .begin, history := [(create 0).log.nextRecord 1 .begin] }
  let rolled : LogLifetime := { appended with log := (appended.log.flush 16 (.succeeds none)).1 }
  let continued : LogLifetime :=
    { rolled with log := rolled.log.append 1 .commit, history := rolled.history ++ [rolled.log.nextRecord 1 .commit] }
  let flushed : LogLifetime := { continued with log := (continued.log.flush 53 (.succeeds none)).1 }
  have first : Appendable (create 0).log 1 .begin := ⟨by decide, trivial, by decide, by decide⟩
  have second : Appendable rolled.log 1 .commit := ⟨by decide, trivial, by decide, by decide⟩
  have isAppended : system.ReachableBy Clean appended :=
    .next (a := .append 1 .begin) (.start (create_init 0)) ⟨first, by simp [create, openedLog, lastLsnOf]⟩ rfl
  have isRolled : system.ReachableBy Clean rolled :=
    .next (a := .flush 16) isAppended (show (0 : Nat) + 1 < SEGMENT_NAMES by decide) rfl
  have isContinued : system.ReachableBy Clean continued :=
    .next (a := .append 1 .commit) isRolled ⟨second, fun lsn last => by cases last; decide⟩ rfl
  have isFlushed : system.ReachableBy Clean flushed :=
    .next (a := .flush 53) isContinued (show (1 : Nat) + 1 < SEGMENT_NAMES by decide) rfl
  have flat := refines_record_list isFlushed
  refine ⟨flushed, _, _, rfl, rfl, rfl, ?_, ?_, rfl, ?_⟩
  · exact flat.readAt _ List.mem_cons_self (Nat.zero_le _)
  · exact flat.readAt _ (List.mem_cons_of_mem _ List.mem_cons_self) (Nat.zero_le _)
  · exact flat.reopens rfl (show (2 : Nat) + 1 < SEGMENT_NAMES by decide)

theorem reopening_repeats_lsn :
    ∃ w w' record, system.Reachable w ∧ w.step .reopen = some w' ∧ record ∈ w'.history ∧
      w'.log.nextLsn = record.lsn := by
  obtain ⟨w, model, parts, active, reached, finished, -, activeId, -, empty, resting, ids, filled⟩ :=
    rounds (SEGMENT_NAMES + 1) (Nat.le_refl _)
  obtain ⟨reopened, record, opened, member, -, repeated⟩ := resting.keeping.reopen_unnamed ids activeId filled
  have flushed : w.log.flushAll = w.log := by rw [SegmentedLog.flushAll, empty]; rfl
  refine ⟨w, { w with log := reopened }, record, reached, ?_, member, repeated⟩
  rw [step, LogLifetime.reopen, if_neg (not_not.mpr finished), flushed, opened]
  rfl

end LogLifetime

end SimpleRdbms.Storage
