import Mathlib.Data.Nat.Digits.Defs
import SimpleRdbms.Proof.SegmentedLog

namespace SimpleRdbms.Storage
open Lib

private theorem mapM_eq_some {α β : Type} {f : α → Option β} {g : α → β} {values : List α}
    (each : ∀ a ∈ values, f a = some (g a)) : values.mapM f = some (values.map g) := by
  induction values with
  | nil => rfl
  | cons value values ih =>
    rw [List.mapM_cons, each value List.mem_cons_self, ih fun a member => each a (List.mem_cons_of_mem _ member)]
    rfl

def SEGMENT_NAMES : Nat := 1000000

variable {id startLsn : Nat} {device : Device} {segment : Segment}

theorem SegmentFiles.suffix_length (named : id < SEGMENT_NAMES) : (suffix id).length = 6 := by
  have short : (Nat.toDigits 10 id).length ≤ 6 := by
    refine Nat.toDigits_length 10 id 6 (by decide) (Nat.lt_of_lt_of_eq named ?_)
    norm_num [SEGMENT_NAMES]
  rw [suffix, List.length_leftpad]
  omega

theorem SegmentFiles.existing_append {listed unlisted : SegmentFiles} (named : ∀ file ∈ listed, file.1 < SEGMENT_NAMES)
    (long : ∀ file ∈ unlisted, (suffix file.1).length ≠ 6) : existing (listed ++ unlisted) = listed := by
  have all : listed.filter (fun file => decide ((suffix file.1).length = 6)) = listed := by
    rw [List.filter_eq_self]
    exact fun file member => decide_eq_true (suffix_length (named file member))
  have none_ : unlisted.filter (fun file => decide ((suffix file.1).length = 6)) = [] := by
    rw [List.filter_eq_nil_iff]
    intro file member
    simpa using long file member
  rw [existing, List.filter_append, all, none_, List.append_nil]

theorem lastLsns_eq (records : List LoggedRecord) (txnId : Nat) :
    SegmentedLog.lastLsns records txnId = lastLsnOf records txnId := by
  induction records using List.reverseRecOn with
  | nil => rfl
  | append_singleton records record ih =>
    rw [lastLsnOf_snoc, ← ih]
    simp [SegmentedLog.lastLsns]

def Segment.stop (segment : Segment) : Nat := segment.startLsn + totalLen segment.records

theorem scanSealedSegment_image {part : Part} (bytes : part.device.bytes = image part.segment)
    (fits : ∀ record ∈ part.segment.records, record.Fits) (start : part.segment.startLsn < 2 ^ 64) :
    SegmentedLog.scanSealedSegment part.id part.device = some (part.meta, part.segment.records, part.segment.stop) := by
  have found := scanDecodedRecords_image fits decodeRecord_nil
  rw [List.append_nil, ← bytes] at found
  rw [SegmentedLog.scanSealedSegment, readSegmentHeader_image start bytes, Option.bind_eq_bind, Option.bind_some, found,
    if_neg (by simp [Device.size]), bytes, image_length, Nat.add_sub_cancel_left]
  rfl

def openedLog (parts : List Part) (id target : Nat) (device : Device) (segment : Segment) : SegmentedLog where
  files := parts.map Part.file ++ [(id, device)]
  targetSegmentSize := target
  sealed := parts.map Part.meta
  activeId := id
  activeStartLsn := segment.startLsn
  buffer := []
  nextLsn := segment.stop
  lastLsnByTxn := lastLsnOf ((parts.map Part.segment).flatMap Segment.records ++ segment.records)
  durableLsn := segment.stop

section
variable {parts : List Part} {d : Device} (ids : ∀ part ∈ parts, part.id < id) (named : id < SEGMENT_NAMES)
  (images : ∀ part ∈ parts, part.device.bytes = image part.segment)
  (fits : ∀ part ∈ parts, ∀ record ∈ part.segment.records, record.Fits)
  (bounded : ∀ part ∈ parts, part.segment.startLsn < 2 ^ 64)
  (opened : SegmentedLog.openActive d (((parts.map Part.segment).getLast?).map Segment.stop) =
    some (segment.startLsn, segment.records, device)) (bytes : device.bytes = image segment) (target : Nat)
include ids named images fits bounded opened bytes

theorem openWithStore_listed {unlisted : SegmentFiles}
    (long : ∀ file ∈ unlisted, (SegmentFiles.suffix file.1).length ≠ 6) :
    SegmentedLog.openWithStore (parts.map Part.file ++ (id, d) :: unlisted) target =
      some { openedLog parts id target device segment with
        files := parts.map Part.file ++ (id, device) :: unlisted } := by
  have listed : SegmentFiles.existing (parts.map Part.file ++ (id, d) :: unlisted) =
      parts.map Part.file ++ [(id, d)] := by
    rw [List.append_cons]
    refine SegmentFiles.existing_append (fun file member => ?_) long
    rcases List.mem_append.mp member with sealed_ | active
    · obtain ⟨part, isPart, rfl⟩ := List.mem_map.mp sealed_
      exact Nat.lt_trans (ids part isPart) named
    · obtain rfl := List.mem_singleton.mp active
      exact named
  have after : ∀ file ∈ unlisted, file.1 ≠ id := by
    rintro file member rfl
    exact long file member (SegmentFiles.suffix_length named)
  have before : ∀ file ∈ parts.map Part.file, file.1 ≠ id := by
    intro file member
    obtain ⟨part, isPart, rfl⟩ := List.mem_map.mp member
    exact Nat.ne_of_lt (ids part isPart)
  have scanned : (parts.map Part.file).mapM (fun file => SegmentedLog.scanSealedSegment file.1 file.2) =
      some (parts.map fun part => (part.meta, part.segment.records, part.segment.stop)) := by
    rw [List.mapM_map]
    refine mapM_eq_some fun part isPart => ?_
    exact scanSealedSegment_image (images part isPart) (fits part isPart) (bounded part isPart)
  have last : ((parts.map fun part => (part.meta, part.segment.records, part.segment.stop)).getLast?.map (·.2.2)) =
      ((parts.map Part.segment).getLast?).map Segment.stop := by
    simp only [List.getLast?_map, Option.map_map, Function.comp_def]
  have size : device.size - HEADER_LEN = totalLen segment.records := by
    rw [Device.size, bytes, image_length, Nat.add_sub_cancel_left]
  rw [SegmentedLog.openWithStore, listed, List.getLast?_concat, List.dropLast_concat]
  simp only [SegmentedLog.bootstrap]
  rw [scanned, SegmentFiles.device_middle before]
  simp only [Option.bind_eq_bind, Option.bind_some, last, opened, size]
  rw [SegmentFiles.modify_middle before after]
  simp only [Option.pure_def, openedLog, List.map_map, List.flatMap_map, Function.comp_def]
  congr 2
  funext txnId
  exact lastLsns_eq _ _

theorem openWithStore_parts :
    SegmentedLog.openWithStore (parts.map Part.file ++ [(id, d)]) target =
      some (openedLog parts id target device segment) :=
  openWithStore_listed ids named images fits bounded opened bytes target (by simp)

end

def Device.Synced (device : Device) : Prop := device.size ≤ device.synced

theorem Device.Synced.setLen (synced : device.Synced) (len : Nat) : (device.setLen len).Synced := by
  simp only [Synced, Device.setLen, size, List.length_take] at synced ⊢
  omega

theorem Device.Synced.crash (synced : device.Synced) (keep : Nat) : (device.crash keep).bytes = device.bytes := by
  refine List.take_of_length_le ?_
  exact Nat.le_trans synced (Nat.le_max_left _ _)

theorem Device.crash_synced (device : Device) (keep : Nat) : (device.crash keep).Synced := Nat.le_refl _

theorem writeSegmentHeader_synced (device : Device) (startLsn : Nat) :
    (writeSegmentHeader device startLsn none).Synced :=
  Nat.le_refl _

theorem openActive_image {torn : List UInt8} {last : Option Nat}
    (bytes : device.bytes = image segment ++ torn) (start : segment.startLsn < 2 ^ 64)
    (fits : ∀ record ∈ segment.records, record.Fits) (ends : decodeRecord torn = none) :
    ∃ opened, SegmentedLog.openActive device last = some (segment.startLsn, segment.records, opened) ∧
      opened.bytes = image segment ∧ (device.Synced → opened.Synced) := by
  have long : ¬device.size < HEADER_LEN := by
    rw [Device.size, bytes, List.length_append, image_length]
    omega
  have header : readSegmentHeader device = some segment.startLsn := by
    rw [image, List.append_assoc] at bytes
    exact readSegmentHeader_image start bytes
  have found := scanDecodedRecords_image fits ends
  rw [← bytes] at found
  refine ⟨device.setLen (image segment).length, ?_, ?_, fun synced => synced.setLen _⟩
  · rw [SegmentedLog.openActive, if_neg long, header, Option.bind_eq_bind, Option.bind_some, found]
    rfl
  · rw [Device.setLen, bytes, List.take_left]

def Harmless (device : Device) (durableLsn : Nat) : Prop :=
  device.size < HEADER_LEN ∨ device.bytes = segmentHeader durableLsn

theorem Harmless.openActive {durableLsn : Nat} (harmless : Harmless device durableLsn)
    (bounded : durableLsn < 2 ^ 64) :
    ∃ opened, SegmentedLog.openActive device (some durableLsn) = some (durableLsn, [], opened) ∧
      opened.bytes = segmentHeader durableLsn ∧ (device.Synced → opened.Synced) := by
  rcases harmless with short | header
  · refine ⟨writeSegmentHeader device durableLsn none, ?_, rfl, fun _ => writeSegmentHeader_synced _ _⟩
    rw [SegmentedLog.openActive, if_pos short]
    rfl
  · have bytes : device.bytes = image { startLsn := durableLsn, records := [] } ++ [] := by simp [header, image]
    obtain ⟨opened, isOpened, kept, synced⟩ := openActive_image bytes bounded (by simp) decodeRecord_nil
    refine ⟨opened, isOpened, ?_, synced⟩
    rw [kept, image]
    simp

theorem Harmless.of_cut (cut : device.bytes <+: segmentHeader startLsn) : Harmless device startLsn := by
  by_cases short : device.size < HEADER_LEN
  · exact .inl short
  · refine .inr (cut.eq_of_length_le ?_)
    rw [segmentHeader_length]
    exact Nat.not_lt.mp short

theorem Harmless.crash (harmless : Harmless device startLsn) (keep : Nat) :
    Harmless (device.crash keep) startLsn := by
  rcases harmless with short | header
  · refine .inl (Nat.lt_of_le_of_lt ?_ short)
    exact (List.take_prefix _ _).length_le
  · refine .of_cut ?_
    rw [← header]
    exact List.take_prefix _ _

theorem RollFault.leaves_harmless {fault : RollFault} {next : Option Device}
    (stale : fault = .openFile ∨ fault = .setLen → ∀ d ∈ next, Harmless d startLsn) :
    ∀ d ∈ fault.leaves next startLsn, Harmless d startLsn := by
  intro d left
  cases fault with
  | openFile => exact stale (Or.inl rfl) d left
  | setLen =>
    obtain rfl := Option.some.inj left
    cases next with
    | none => exact .of_cut List.nil_prefix
    | some d => exact stale (Or.inr rfl) d rfl
  | write written =>
    obtain rfl := Option.some.inj left
    exact .of_cut (List.take_prefix _ _)
  | sync =>
    obtain rfl := Option.some.inj left
    exact .of_cut (List.prefix_refl _)

theorem LogManager.Holds.nextLsn_le {log reopened : LogManager}
    {history gone below lost : List LoggedRecord} (holds : LogManager.Holds log history gone)
    (split : history = below ++ lost) (again : LogManager.Holds reopened below gone) :
    reopened.nextLsn ≤ log.nextLsn := by
  have whole := holds.whole
  rw [split] at whole
  obtain ⟨middle, first, second⟩ := whole.split
  rw [again.whole.unique first]
  exact second.le

theorem openWithStore_create (target : Nat) :
    SegmentedLog.openWithStore [] target = some (openedLog [] 0 target (writeSegmentHeader .empty HEADER_LEN none)
      { startLsn := HEADER_LEN, records := [] }) := by
  have header : (writeSegmentHeader .empty HEADER_LEN none).bytes =
    image { startLsn := HEADER_LEN, records := [] } := rfl
  have created : SegmentedLog.openWithStore ([].map Part.file ++ [(0, .empty)]) target = _ :=
    openWithStore_parts (by simp) (by decide) (by simp) (by simp) (by simp) rfl header target
  rw [← created, SegmentedLog.openWithStore, SegmentedLog.openWithStore]
  rfl

structure Reopens (log reopened : SegmentedLog) (history : List LoggedRecord) (base : Nat) : Prop where
  opened : SegmentedLog.openWithStore log.files log.targetSegmentSize = some reopened
  durable : log.durableLsn ≤ reopened.nextLsn
  all : reopened.durableLsn = reopened.nextLsn
  survivors : log.files.survivors history =
    (history.filter fun r => decide (r.lsn < reopened.nextLsn)).filter fun r => decide (base ≤ r.lsn)
  last : reopened.lastLsnByTxn = lastLsnOf (log.files.survivors history)

def Part.crash (keep : Nat → Nat) (part : Part) : Part := { part with device := part.device.crash (keep part.id) }

theorem Part.crash_synced {parts : List Part} {keep : Nat → Nat} :
    ∀ part ∈ parts.map (Part.crash keep), part.device.Synced := by
  intro part member
  obtain ⟨old, -, rfl⟩ := List.mem_map.mp member
  exact Device.crash_synced _ _

theorem Device.crash_synced_of_mem {next : Option Device} {keep : Nat} : ∀ d ∈ next.map (·.crash keep), d.Synced := by
  intro d member
  obtain ⟨old, -, rfl⟩ := Option.map_eq_some_iff.mp member
  exact Device.crash_synced _ _

theorem Harmless.crash_of_mem {next : Option Device} (harmless : ∀ d ∈ next, Harmless d startLsn)
    (keep : Nat) : ∀ d ∈ next.map (·.crash keep), Harmless d startLsn := by
  intro d member
  obtain ⟨old, isNext, rfl⟩ := Option.map_eq_some_iff.mp member
  exact (harmless old isNext).crash keep

namespace Keeping
variable {log : SegmentedLog} {history gone : List LoggedRecord} {model : LogManager}
  {leaving parts : List Part} {active d : Device} {torn : List UInt8} {next : Option Device}

theorem leaves_nil (gone : List LoggedRecord) (base : Nat) :
    ∃ start lost, gone = lost ++ (([] : List Part).map Part.segment).flatMap Segment.records ∧
      Tiled start (([] : List Part).map Part.segment) base :=
  ⟨base, gone, by simp, rfl⟩

section
variable (keeping : Keeping log history gone model leaving parts active torn next)
include keeping

theorem durable_bound : model.durableLsn < 2 ^ 64 := by
  have := keeping.holds.buffered.le
  have := keeping.bound
  omega

theorem active_bound : model.active.startLsn < 2 ^ 64 := by
  have := keeping.holds.durable.le
  have := keeping.durable_bound
  omega

theorem part_sealed {part : Part} (isPart : part ∈ parts) : part.segment ∈ model.sealed := by
  rw [keeping.represents.segments]
  exact List.mem_map.mpr ⟨part, isPart, rfl⟩

theorem parts_bound : ∀ part ∈ parts, part.segment.startLsn < 2 ^ 64 := by
  intro part isPart
  have := (keeping.holds.tiled.bounds (keeping.part_sealed isPart)).2
  have := keeping.active_bound
  omega

theorem torn_split :
    ∃ kept lost remnant, model.buffer = kept ++ lost ∧ torn = recordFraming.encodeAll kept ++ remnant ∧
      decodeRecord remnant = none ∧ ∀ first ∈ lost.head?, remnant.length < first.len := by
  obtain ⟨kept, lost, remnant, split, part, left, short⟩ :=
    recordFraming.prefix_encodeAll keeping.bufferFits keeping.copied
  refine ⟨kept, lost, remnant, split, part, left.decode decodeRecord_nil, fun first isFirst => ?_⟩
  rw [← first.encode_length]
  exact short first isFirst

theorem lost_end {kept lost : List LoggedRecord} {remnant : List UInt8} (split : model.buffer = kept ++ lost)
    (short : ∀ first ∈ lost.head?, remnant.length < first.len) {record : LoggedRecord} (member : record ∈ history)
    (late : model.durableLsn + totalLen kept ≤ record.lsn) :
    model.durableLsn + totalLen kept + remnant.length < record.endLsn := by
  have buffered := keeping.holds.buffered
  rw [split] at buffered
  obtain ⟨middle, first, second⟩ := buffered.split
  have middleEq := first.total
  have inLost : record ∈ lost := by
    have whole : LaidOut HEADER_LEN
        (gone ++ (model.sealed.flatMap Segment.records ++ model.active.records ++ kept)) middle :=
      keeping.holds.dropped.append ((keeping.holds.tiled.laidOut.append keeping.holds.durable).append first)
    rw [keeping.holds.history_eq, split, ← List.append_assoc _ kept lost, ← List.append_assoc gone] at member
    rcases List.mem_append.mp member with early | found
    · have := whole.lt early
      omega
    · exact found
  cases lost with
  | nil => simp at inLost
  | cons head rest =>
    have shorter := short head rfl
    have begins := second.1
    rw [LoggedRecord.endLsn]
    rcases List.mem_cons.mp inLost with rfl | later
    · omega
    · have := (second.2.bounds later).1
      omega

end

theorem in_files_iff (keeping : Keeping log history gone model [] parts active torn next)
    {kept lost : List LoggedRecord} {remnant : List UInt8} (split : model.buffer = kept ++ lost)
    (cut : torn = recordFraming.encodeAll kept ++ remnant) (short : ∀ first ∈ lost.head?, remnant.length < first.len)
    (harmless : ∀ d ∈ next, Harmless d model.durableLsn) {record : LoggedRecord} (member : record ∈ history) :
    (log.files.any fun file => file.2.holdsRecord record) = true ↔
      model.base ≤ record.lsn ∧ record.lsn < model.durableLsn + totalLen kept := by
  have represents := keeping.represents
  have positive := record.len_pos
  have total := keeping.holds.durable.total
  have tiled := keeping.holds.tiled.laidOut.le
  rw [represents.files, List.nil_append, List.any_append, List.any_cons, Bool.or_eq_true, Bool.or_eq_true]
  constructor
  · rintro (inSealed | inActive | inNext)
    · obtain ⟨file, isFile, held⟩ := List.any_eq_true.mp inSealed
      obtain ⟨part, isPart, rfl⟩ := List.mem_map.mp isFile
      have isSealed := keeping.part_sealed isPart
      have bounds := Device.holdsRecord_bounds (keeping.parts_bound part isPart) (represents.images part isPart) held
      have low := (keeping.holds.tiled.bounds isSealed).1
      have high := keeping.holds.tiled.stop_le isSealed
      rw [recordFraming_length, LoggedRecord.endLsn] at bounds
      omega
    · have bytes := represents.activeImage
      rw [image, List.append_assoc] at bytes
      have bounds := Device.holdsRecord_bounds keeping.active_bound bytes inActive
      rw [cut, List.length_append, List.length_append, recordFraming_length,
        recordFraming_length] at bounds
      refine ⟨by omega, Nat.lt_of_not_le fun late => ?_⟩
      have := keeping.lost_end split short member late
      omega
    · exfalso
      cases next with
      | none => simp at inNext
      | some d =>
        have held : d.holdsRecord record = true := by simpa using inNext
        rcases harmless d rfl with small | header
        · rw [Device.holdsRecord, readSegmentHeader, if_pos small] at held
          exact Bool.noConfusion held
        · have bytes : d.bytes = segmentHeader model.durableLsn ++ [] := by rw [header, List.append_nil]
          have bounds := Device.holdsRecord_bounds keeping.durable_bound bytes held
          rw [List.length_nil, LoggedRecord.endLsn] at bounds
          omega
  · rintro ⟨low, high⟩
    let whole : Segment := { model.active with records := model.active.records ++ kept }
    have laid : LaidOut whole.startLsn whole.records (model.durableLsn + totalLen kept) := by
      have buffered := keeping.holds.buffered
      rw [split] at buffered
      obtain ⟨middle, first, -⟩ := buffered.split
      rw [← first.total]
      exact keeping.holds.durable.append first
    have bytes : active.bytes = image whole ++ remnant := by
      rw [represents.activeImage, cut]
      simp [image, whole]
    have retained := keeping.holds.retained member low
    simp only [split, List.mem_append] at retained
    have inActive : record ∈ model.active.records ++ kept → active.holdsRecord record = true := fun found =>
      laid.holdsRecord found keeping.active_bound bytes
    rcases retained with (inSealed | old) | isKept | isLost
    · left
      obtain ⟨segment, isSegment, inSegment⟩ := List.mem_flatMap.mp inSealed
      rw [represents.segments] at isSegment
      obtain ⟨part, isPart, rfl⟩ := List.mem_map.mp isSegment
      obtain ⟨before, after, around⟩ := List.append_of_mem (keeping.part_sealed isPart)
      have tiled := keeping.holds.tiled
      rw [around] at tiled
      obtain ⟨_, -, rfl, stop, here, -⟩ := tiled.split
      refine List.any_eq_true.mpr ⟨part.file, List.mem_map.mpr ⟨part, isPart, rfl⟩, ?_⟩
      exact here.holdsRecord inSegment (keeping.parts_bound part isPart)
        ((represents.images part isPart).trans (List.append_nil _).symm)
    · exact .inr (Or.inl (inActive (List.mem_append_left _ old)))
    · exact .inr (Or.inl (inActive (List.mem_append_right _ isKept)))
    · exfalso
      have buffered := keeping.holds.buffered
      rw [split] at buffered
      obtain ⟨middle, first, second⟩ := buffered.split
      have := first.total
      have := (second.bounds isLost).1
      omega

theorem survivors_eq (keeping : Keeping log history gone model [] parts active torn next)
    {kept lost : List LoggedRecord} {remnant : List UInt8} (split : model.buffer = kept ++ lost)
    (cut : torn = recordFraming.encodeAll kept ++ remnant) (short : ∀ first ∈ lost.head?, remnant.length < first.len)
    (harmless : ∀ d ∈ next, Harmless d model.durableLsn) :
    log.files.survivors history =
      (history.filter fun r => decide (r.lsn < model.durableLsn + totalLen kept)).filter
        fun r => decide (model.base ≤ r.lsn) := by
  rw [SegmentFiles.survivors, List.filter_filter]
  refine List.filter_congr fun record member => ?_
  rw [← Bool.decide_and, Bool.eq_iff_iff, decide_eq_true_iff]
  exact keeping.in_files_iff split cut short harmless member

theorem opened {id target : Nat} {device : Device} {segment : Segment} (ids : ∀ part ∈ parts, part.id < id)
    (distinct : (parts.map Part.id).Nodup) (images : ∀ part ∈ parts, part.device.bytes = image part.segment)
    (bytes : device.bytes = image segment)
    (holds : (LogManager.bootstrap target (parts.map Part.segment) segment).Holds history gone)
    (fits : ∀ record ∈ history, record.Fits) (bound : segment.stop < 2 ^ 64) :
    Keeping (openedLog parts id target device segment) history gone
      (LogManager.bootstrap target (parts.map Part.segment) segment) [] parts device [] none := by
  refine ⟨?_, holds, fun txnId lsn isLast => ?_, leaves_nil _ _, fits, bound, List.prefix_refl _⟩
  · exact {
      files := rfl
      ids := ids
      distinct := distinct
      sealed := rfl
      segments := rfl
      images := images
      activeImage := bytes.trans (List.append_nil _).symm
      activeStart := rfl
      buffer := rfl
      nextLsn := rfl
      durableLsn := rfl
      last := rfl
      target := rfl }
  · obtain ⟨record, member, facts⟩ := lastLsnOf_mem isLast
    refine ⟨record, ?_, facts⟩
    rw [holds.history_eq, List.append_assoc]
    exact List.mem_append_right _ (by simpa [LogManager.bootstrap] using member)

theorem reopens {id : Nat} {device : Device} {segment : Segment}
    (whole : SegmentedLog.openWithStore log.files log.targetSegmentSize =
      some (openedLog parts id log.targetSegmentSize device segment)) (durable : log.durableLsn ≤ segment.stop)
    (holds : (LogManager.bootstrap log.targetSegmentSize (parts.map Part.segment) segment).Holds
      (history.filter fun r => decide (r.lsn < segment.stop)) gone)
    (survivors : log.files.survivors history = (history.filter fun r => decide (r.lsn < segment.stop)).filter
      fun r => decide ((LogManager.bootstrap log.targetSegmentSize (parts.map Part.segment) segment).base ≤ r.lsn)) :
    Reopens log (openedLog parts id log.targetSegmentSize device segment) history
      (LogManager.bootstrap log.targetSegmentSize (parts.map Part.segment) segment).base := by
  refine ⟨whole, durable, rfl, survivors, ?_⟩
  rw [survivors, holds.filter_retained, openedLog]
  simp [LogManager.bootstrap]

theorem bootstrap_rollSegment (target : Nat) (sealed : List Segment) (active : Segment) :
    (LogManager.bootstrap target sealed active).rollSegment =
      LogManager.bootstrap target (sealed ++ [active]) { startLsn := active.stop, records := [] } := by
  simp [LogManager.rollSegment, LogManager.bootstrap, Segment.stop, totalLen]

theorem reopen_active (keeping : Keeping log history gone model [] parts active torn none)
    (named : log.activeId < SEGMENT_NAMES) :
    ∃ reopened model' active', Reopens log reopened history model'.base ∧
      Keeping reopened (history.filter fun r => decide (r.lsn < reopened.nextLsn)) gone model' [] parts active'
        [] none ∧
      reopened.activeId = log.activeId ∧ model'.base = model.base ∧ (active.Synced → active'.Synced) := by
  have represents := keeping.represents
  obtain ⟨kept, lost, remnant, split, part, ends, short⟩ := keeping.torn_split
  have isKept : kept = model.buffer.take kept.length := by rw [split, List.take_left]
  have bytes : active.bytes = image { model.active with records := model.active.records ++ kept } ++ remnant := by
    rw [represents.activeImage, part]
    simp [image]
  have fits : ∀ record ∈ model.active.records ++ kept, record.Fits := by
    intro record member
    rcases List.mem_append.mp member with old | new
    · exact keeping.activeFits record old
    · rw [isKept] at new
      exact keeping.bufferFits record (List.mem_of_mem_take new)
  obtain ⟨active', opens, left, synced⟩ := openActive_image bytes keeping.active_bound fits ends
  have ids : ∀ part ∈ parts, part.id < log.activeId := represents.ids
  have whole := openWithStore_parts ids named represents.images (fun part isPart => keeping.partFits isPart)
    keeping.parts_bound opens left log.targetSegmentSize
  rw [← show log.files = parts.map Part.file ++ [(log.activeId, active)] from represents.files] at whole
  have bootstrapped := keeping.holds.bootstrap (rfl :
    LogManager.bootstrap model.targetSegmentSize model.sealed
      { model.active with records := model.active.records ++ model.buffer.take kept.length } = _)
  rw [← isKept, ← represents.target, represents.segments] at bootstrapped
  obtain ⟨lost', below, holds, durable, base⟩ := bootstrapped
  have survivors := keeping.survivors_eq split part short (by simp)
  rw [← base, show model.durableLsn + totalLen kept =
      Segment.stop { model.active with records := model.active.records ++ kept } by
    rw [Segment.stop, totalLen_append, ← Nat.add_assoc,
      keeping.holds.durable.total]] at survivors
  refine ⟨_, _, active', reopens whole (represents.durableLsn ▸ durable) holds survivors,
    opened ids represents.distinct represents.images left holds ?_ ?_, rfl, base, synced⟩
  · exact fun record member => keeping.fits record (List.mem_of_mem_filter member)
  · exact Nat.lt_of_le_of_lt (keeping.holds.nextLsn_le below holds) keeping.bound

theorem reopen_next (keeping : Keeping log history gone model [] parts active [] (some d))
    (harmless : Harmless d model.durableLsn) (named : log.activeId + 1 < SEGMENT_NAMES) :
    ∃ reopened model' active', Reopens log reopened history model'.base ∧
      Keeping reopened (history.filter fun r => decide (r.lsn < reopened.nextLsn)) gone model' []
        (parts ++ [log.part active model.active]) active' [] none ∧
      reopened.activeId = log.activeId + 1 ∧ model'.base = model.base ∧ (d.Synced → active'.Synced) := by
  have represents := keeping.represents
  have stop : model.active.stop = model.durableLsn := by
    rw [Segment.stop, keeping.holds.durable.total]
  obtain ⟨active', opens, bytes, synced⟩ := harmless.openActive keeping.durable_bound
  have segments : (parts ++ [log.part active model.active]).map Part.segment = model.sealed ++ [model.active] := by
    rw [List.map_append, represents.segments]
    rfl
  have facts : ∀ part ∈ parts ++ [log.part active model.active],
      (∀ record ∈ part.segment.records, record.Fits) ∧ part.segment.startLsn < 2 ^ 64 := by
    intro part member
    rcases List.mem_append.mp member with old | new
    · exact ⟨keeping.partFits old, keeping.parts_bound part old⟩
    · obtain rfl := List.mem_singleton.mp new
      exact ⟨keeping.activeFits, keeping.active_bound⟩
  rw [← stop, ← Option.map_some, ← List.getLast?_concat, ← segments] at opens
  have held : active'.bytes = image { startLsn := model.active.stop, records := [] } := by
    rw [bytes, image, stop]
    exact (List.append_nil _).symm
  have ids : ∀ part ∈ parts ++ [log.part active model.active], part.id < log.activeId + 1 := represents.ids_snoc
  have whole := openWithStore_parts ids named represents.images_snoc
    (fun part member => (facts part member).1)
      (fun part member => (facts part member).2) opens held log.targetSegmentSize
  have files : log.files = (parts ++ [log.part active model.active]).map Part.file ++ [(log.activeId + 1, d)] := by
    rw [represents.files]
    simp [Part.file, SegmentedLog.part]
  rw [← files] at whole
  have bootstrapped := keeping.holds.bootstrap (rfl :
    LogManager.bootstrap model.targetSegmentSize model.sealed
      { model.active with records := model.active.records ++ model.buffer.take 0 } = _)
  rw [List.take_zero, List.append_nil] at bootstrapped
  obtain ⟨lost, below, holds, durable, base⟩ := bootstrapped
  have rolled := holds.rollSegment rfl
  rw [← LogManager.Holds.base_rollSegment] at base
  rw [bootstrap_rollSegment, ← represents.target, ← segments] at rolled base
  have survivors := keeping.survivors_eq (List.nil_append _).symm rfl (fun first _ => first.len_pos) (by
    rintro other isNext
    obtain rfl := Option.some.inj isNext
    exact harmless)
  rw [← base, show model.durableLsn + totalLen [] = model.active.stop from stop.symm] at survivors
  refine ⟨_, _, active', reopens whole (represents.durableLsn ▸ stop.ge) rolled survivors,
    opened ids represents.distinct_snoc represents.images_snoc held rolled ?_ ?_, rfl, base, synced⟩
  · exact fun record member => keeping.fits record (List.mem_of_mem_filter member)
  · exact Nat.lt_of_le_of_lt (keeping.holds.nextLsn_le below rolled) keeping.bound

theorem reopen (keeping : Keeping log history gone model [] parts active torn next)
    (written : next = none ∨ torn = []) (harmless : ∀ d ∈ next, Harmless d model.durableLsn)
    (named : log.activeId + next.toList.length < SEGMENT_NAMES) :
    ∃ reopened model' parts' active', Reopens log reopened history model'.base ∧
      Keeping reopened (history.filter fun r => decide (r.lsn < reopened.nextLsn)) gone model'
        [] parts' active'
        [] none ∧
      reopened.activeId = log.activeId + next.toList.length ∧ model'.base = model.base ∧
      ((∀ part ∈ parts, part.device.Synced) → active.Synced → (∀ d ∈ next, d.Synced) →
        (∀ part ∈ parts', part.device.Synced) ∧ active'.Synced) := by
  cases next with
  | none =>
    obtain ⟨reopened, model', active', reopens, after, same, base, synced⟩ := keeping.reopen_active named
    exact ⟨_, _, _, _, reopens, after, same, base, fun sealed_ last _ => ⟨sealed_, synced last⟩⟩
  | some d =>
    obtain rfl := written.resolve_left (by simp)
    obtain ⟨reopened, model', active', reopens, after, same, base, synced⟩ := keeping.reopen_next (harmless d rfl) named
    refine ⟨_, _, _, _, reopens, after, same, base, fun sealed_ last rolled => ⟨?_, synced (rolled d rfl)⟩⟩
    intro part member
    rcases List.mem_append.mp member with old | new
    · exact sealed_ part old
    · obtain rfl := List.mem_singleton.mp new
      exact last

theorem create {target : Nat} (isOpened : SegmentedLog.openWithStore [] target = some log) (empty : history = []) :
    log.activeId = 0 ∧ ∃ device, device.Synced ∧
      Keeping log history [] (LogManager.create target) [] [] device [] none := by
  subst empty
  obtain rfl : openedLog _ _ _ _ _ = log := Option.some.inj ((openWithStore_create target).symm.trans isOpened)
  refine ⟨rfl, _, writeSegmentHeader_synced .empty HEADER_LEN, ?_⟩
  exact opened (by simp) List.nodup_nil (by simp) rfl (.create target) (by simp) (by decide)

theorem crash (keeping : Keeping log history gone model leaving parts active torn next)
    (partsSynced : ∀ part ∈ leaving ++ parts, part.device.Synced)
    (activeSynced : (image model.active).length ≤ active.synced) (keep : Nat → Nat) :
    ∃ torn', torn' <+: torn ∧ Keeping { log with files := LogHistory.crashed log.files keep } history gone model
      (leaving.map (Part.crash keep)) (parts.map (Part.crash keep)) (active.crash (keep log.activeId)) torn'
      (next.map (·.crash (keep (log.activeId + 1)))) := by
  have represents := keeping.represents
  obtain ⟨cut, activeBytes⟩ : ∃ cut,
    (active.crash (keep log.activeId)).bytes = image model.active ++ torn.take cut := by
    refine ⟨max active.synced (keep log.activeId) - (image model.active).length, ?_⟩
    rw [Device.crash, represents.activeImage, List.take_append, List.take_of_length_le]
    omega
  have segments : ∀ parts : List Part, (parts.map (Part.crash keep)).map Part.segment = parts.map Part.segment := by
    intro parts
    rw [List.map_map]
    rfl
  have leaves := keeping.leaves
  rw [← segments leaving] at leaves
  refine ⟨torn.take cut, List.take_prefix _ _, ?_, keeping.holds, keeping.known, leaves, keeping.fits, keeping.bound,
    (List.take_prefix _ _).trans keeping.copied⟩
  exact { represents with
    files := by
      simp only [LogHistory.crashed, represents.files]
      cases next <;> simp [Function.comp_def, Part.file, Part.crash]
    ids := by
      rw [← List.map_append]
      intro part member
      obtain ⟨old, isPart, rfl⟩ := List.mem_map.mp member
      exact represents.ids old isPart
    distinct := by
      rw [← List.map_append, List.map_map]
      exact represents.distinct
    sealed := by
      rw [represents.sealed, List.map_map]
      rfl
    segments := by rw [represents.segments, segments]
    images := by
      rw [← List.map_append]
      intro part member
      obtain ⟨old, isPart, rfl⟩ := List.mem_map.mp member
      exact ((partsSynced old isPart).crash _).trans (represents.images old isPart)
    activeImage := activeBytes }

end Keeping

def LogHistory.create (target : Nat) : LogHistory where
  log := openedLog [] 0 target (writeSegmentHeader .empty HEADER_LEN none) { startLsn := HEADER_LEN, records := [] }
  history := []
  flushed := []

theorem LogHistory.create_init (target : Nat) : LogHistory.system.init (LogHistory.create target) := by
  refine ⟨rfl, rfl, target, ?_⟩
  exact openWithStore_create target

end SimpleRdbms.Storage
