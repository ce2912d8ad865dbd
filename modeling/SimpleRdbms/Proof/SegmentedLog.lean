import SimpleRdbms.Proof.LogLayout
import SimpleRdbms.Proof.RecordCodec
import SimpleRdbms.Storage.SegmentedLog

namespace SimpleRdbms.Storage
open Lib

namespace SegmentFiles
variable {front back : SegmentFiles} {id : Nat} {d : Device}

theorem device_middle (before : ∀ file ∈ front, file.1 ≠ id) : device (front ++ (id, d) :: back) id = d := by
  have absent : front.lookup id = none := by
    refine List.lookup_eq_none_iff.mpr fun file member => ?_
    simpa using (before file member).symm
  simp [device, List.lookup_append, absent]

theorem modify_middle (before : ∀ file ∈ front, file.1 ≠ id) (after : ∀ file ∈ back, file.1 ≠ id)
    (change : Device → Device) : modify (front ++ (id, d) :: back) id change = front ++ (id, change d) :: back := by
  have others : ∀ files : SegmentFiles, (∀ file ∈ files, file.1 ≠ id) →
      files.map (fun file => if file.1 = id then (file.1, change file.2) else file) = files := by
    intro files different
    conv_rhs => rw [← List.map_id files]
    exact List.map_congr_left fun file member => if_neg (different file member)
  rw [modify, List.map_append, List.map_cons, others front before, others back after, if_pos rfl]

theorem open_last (before : ∀ file ∈ front, file.1 < id) : open_ id front = front ++ [(id, .empty)] := by
  induction front with
  | nil => rfl
  | cons file front ih =>
    have here := before file List.mem_cons_self
    rw [open_, if_neg (by omega), if_neg (by omega), ih fun other member =>
      before other (List.mem_cons_of_mem _ member)]
    rfl

theorem open_present (before : ∀ file ∈ front, file.1 < id) :
    open_ id (front ++ (id, d) :: back) = front ++ (id, d) :: back := by
  induction front with
  | nil => simp [open_]
  | cons file front ih =>
    have here := before file List.mem_cons_self
    rw [List.cons_append, open_, if_neg (by omega), if_neg (by omega),
      ih fun other member => before other (List.mem_cons_of_mem _ member)]

end SegmentFiles

def image (segment : Segment) : List UInt8 := segmentHeader segment.startLsn ++ recordFraming.encodeAll segment.records

theorem segmentHeader_length (startLsn : Nat) : (segmentHeader startLsn).length = HEADER_LEN := by
  simp [segmentHeader, SEGMENT_MAGIC, HEADER_LEN]

theorem image_length (segment : Segment) : (image segment).length = HEADER_LEN + totalLen segment.records := by
  rw [image, List.length_append, segmentHeader_length, recordFraming_length]

theorem decodeRecord_nil : decodeRecord [] = none := rfl

variable {device : Device} {rest : List UInt8} {segment : Segment} {stop : Nat}

theorem readSegmentHeader_image {startLsn : Nat} (fits : startLsn < 2 ^ 64)
    (bytes : device.bytes = segmentHeader startLsn ++ rest) : readSegmentHeader device = some startLsn := by
  have long : ¬device.size < HEADER_LEN := by
    rw [Device.size, bytes, List.length_append, segmentHeader_length]
    omega
  have magic : device.bytes.take 8 = SEGMENT_MAGIC := by rw [bytes]; rfl
  have start : (device.bytes.drop 8).take 8 = leBytes 8 startLsn := by
    have eight : (device.bytes.drop 8) = leBytes 8 startLsn ++ rest := by rw [bytes]; rfl
    rw [eight]
    simp
  rw [readSegmentHeader, if_neg long, if_neg (by simp [magic]), start,
    leValue_leBytes (Nat.lt_of_lt_of_eq fits (by decide))]

theorem scanDecodedRecords_encodeAll {front torn : List UInt8} {records : List LoggedRecord}
    (fits : ∀ record ∈ records, record.Fits) (ends : decodeRecord torn = none) :
    scanDecodedRecords (front ++ (recordFraming.encodeAll records ++ torn)) front.length =
      (records, (front ++ recordFraming.encodeAll records).length) := by
  have enough : (recordFraming.encodeAll records).length <
    (front ++ (recordFraming.encodeAll records ++ torn)).length + 1 := by simp; omega
  have found := recordFraming.scan_encodeAll fits ends enough
  simp only [scanDecodedRecords, List.drop_left]
  rw [show scan decodeRecord _ _ = _ from found]
  simp only [List.length_append]
  congr 1
  omega

theorem scanDecodedRecords_image {torn : List UInt8}
    (fits : ∀ record ∈ segment.records, record.Fits) (ends : decodeRecord torn = none) :
    scanDecodedRecords (image segment ++ torn) HEADER_LEN = (segment.records, (image segment).length) := by
  have found : scanDecodedRecords (segmentHeader segment.startLsn ++ (recordFraming.encodeAll segment.records ++ torn))
      (segmentHeader segment.startLsn).length = _ := scanDecodedRecords_encodeAll fits ends
  rwa [segmentHeader_length, ← List.append_assoc] at found

theorem readRecordAt_encode {offset : Nat} {record : LoggedRecord}
    (fits : record.Fits) (here : device.bytes.drop offset = record.encode ++ rest) :
    readRecordAt device offset = some record := by
  have length := record.encode_length
  have minimal := record.minimal
  have whole : (record.encode ++ rest).take record.len = record.encode := by rw [← length, List.take_left]
  have decoded := decodeRecord_encode fits []
  rw [List.append_nil] at decoded
  unfold readRecordAt
  simp only [here, record.encode_front, fits.leValue_len, whole, decoded]
  rw [if_neg]
  · rfl
  · rw [List.length_append, length]
    simp only [MIN_RECORD_LEN] at minimal ⊢
    omega

theorem LaidOut.drop_encodeAll {start : Nat} {records : List LoggedRecord} {record : LoggedRecord}
    (laid : LaidOut start records stop) (member : record ∈ records) :
    ∃ rest, (recordFraming.encodeAll records).drop (record.lsn - start) = record.encode ++ rest := by
  obtain ⟨before, after, rfl⟩ := List.append_of_mem member
  obtain ⟨middle, first, second⟩ := laid.split
  have at_ : record.lsn - start = (recordFraming.encodeAll before).length := by
    have total := first.total
    have here := second.1
    rw [recordFraming_length]
    omega
  refine ⟨recordFraming.encodeAll after, ?_⟩
  rw [at_, Framing.encodeAll_append, List.drop_left]
  rfl

theorem LaidOut.drop_image {record : LoggedRecord} (laid : LaidOut segment.startLsn segment.records stop)
    (member : record ∈ segment.records)
    (bytes : device.bytes = image segment ++ rest) :
    ∃ others, device.bytes.drop (HEADER_LEN + (record.lsn - segment.startLsn)) = record.encode ++ others := by
  obtain ⟨others, here⟩ := laid.drop_encodeAll member
  have inside : record.lsn - segment.startLsn ≤ (recordFraming.encodeAll segment.records).length := by
    rw [recordFraming_length]
    have := laid.lt member
    have := laid.total
    omega
  refine ⟨others ++ rest, ?_⟩
  rw [bytes, image, List.append_assoc, ← segmentHeader_length segment.startLsn, List.drop_length_add_append,
    List.drop_append_of_le_length inside, here, List.append_assoc]

theorem LaidOut.readRecordAt {record : LoggedRecord} (laid : LaidOut segment.startLsn segment.records stop)
    (member : record ∈ segment.records)
    (fits : record.Fits) (bytes : device.bytes = image segment ++ rest) :
    readRecordAt device (HEADER_LEN + (record.lsn - segment.startLsn)) = some record := by
  obtain ⟨others, behind⟩ := laid.drop_image member bytes
  exact readRecordAt_encode fits behind

theorem LaidOut.holdsRecord {record : LoggedRecord} (laid : LaidOut segment.startLsn segment.records stop)
    (member : record ∈ segment.records)
    (start : segment.startLsn < 2 ^ 64) (bytes : device.bytes = image segment ++ rest) :
    device.holdsRecord record = true := by
  obtain ⟨others, behind⟩ := laid.drop_image member bytes
  have header : readSegmentHeader device = some segment.startLsn := by
    rw [image, List.append_assoc] at bytes
    exact readSegmentHeader_image start bytes
  have above := (laid.bounds member).1
  simp [Device.holdsRecord, header, behind, above]

theorem Device.holdsRecord_bounds {record : LoggedRecord} {startLsn : Nat}
    (start : startLsn < 2 ^ 64) (bytes : device.bytes = segmentHeader startLsn ++ rest)
    (held : device.holdsRecord record = true) : startLsn ≤ record.lsn ∧ record.endLsn ≤ startLsn + rest.length := by
  rw [Device.holdsRecord, readSegmentHeader_image start bytes] at held
  simp only [Bool.and_eq_true, decide_eq_true_eq, List.isPrefixOf_iff_prefix] at held
  obtain ⟨above, inside⟩ := held
  have length := inside.length_le
  rw [List.length_drop, bytes, List.length_append, segmentHeader_length, record.encode_length] at length
  have positive := record.len_pos
  refine ⟨above, ?_⟩
  rw [LoggedRecord.endLsn]
  omega

structure Part where
  id : Nat
  device : Device
  segment : Segment

namespace Part

def file (part : Part) : Nat × Device := (part.id, part.device)

def «meta» (part : Part) : SegmentMeta := { id := part.id, startLsn := part.segment.startLsn }

end Part

def SegmentedLog.part (log : SegmentedLog) (active : Device) (segment : Segment) : Part :=
  { id := log.activeId, device := active, segment }

/-- `torn` stands behind the records of the active segment, `next` is the file after it, and `leaving` are truncated. -/
structure Represents (log : SegmentedLog) (model : LogManager) (leaving parts : List Part) (active : Device)
    (torn : List UInt8) (next : Option Device) : Prop where
  files : log.files =
    (leaving ++ parts).map Part.file ++ (log.activeId, active) :: next.toList.map fun d => (log.activeId + 1, d)
  ids : ∀ part ∈ leaving ++ parts, part.id < log.activeId
  distinct : ((leaving ++ parts).map Part.id).Nodup
  sealed : log.sealed = parts.map Part.meta
  segments : model.sealed = parts.map Part.segment
  images : ∀ part ∈ leaving ++ parts, part.device.bytes = image part.segment
  activeImage : active.bytes = image model.active ++ torn
  activeStart : log.activeStartLsn = model.active.startLsn
  buffer : log.buffer = recordFraming.encodeAll model.buffer
  nextLsn : log.nextLsn = model.nextLsn
  durableLsn : log.durableLsn = model.durableLsn
  last : log.lastLsnByTxn = model.lastLsnByTxn
  target : log.targetSegmentSize = model.targetSegmentSize

structure Keeping (log : SegmentedLog) (history gone : List LoggedRecord) (model : LogManager)
    (leaving parts : List Part) (active : Device) (torn : List UInt8)
    (next : Option Device) : Prop where
  represents : Represents log model leaving parts active torn next
  holds : LogManager.Holds model history gone
  known : ∀ txnId lsn, model.lastLsnByTxn txnId = some lsn → ∃ record ∈ history, record.lsn = lsn ∧ record.txnId = txnId
  leaves : ∃ start lost, gone = lost ++ (leaving.map Part.segment).flatMap Segment.records ∧
    Tiled start (leaving.map Part.segment) model.base
  fits : ∀ record ∈ history, record.Fits
  bound : model.nextLsn < 2 ^ 64
  copied : torn <+: recordFraming.encodeAll model.buffer

def RollFault.leaves (next : Option Device) (startLsn : Nat) : RollFault → Option Device
  | .openFile => next
  | fault => some (writeSegmentHeader (next.getD .empty) startLsn (some fault))

section Represents
variable {log : SegmentedLog} {model : LogManager} {leaving parts : List Part} {active : Device} {torn : List UInt8}
  {next : Option Device}

section
variable (represents : Represents log model leaving parts active torn next)
include represents

theorem Represents.before : ∀ file ∈ (leaving ++ parts).map Part.file, file.1 < log.activeId := by
  intro file member
  obtain ⟨part, isPart, rfl⟩ := List.mem_map.mp member
  exact represents.ids part isPart

theorem Represents.activeDevice : log.activeDevice = active := by
  rw [SegmentedLog.activeDevice, represents.files]
  exact SegmentFiles.device_middle fun file member => Nat.ne_of_lt (represents.before file member)

theorem Represents.partDevice {part : Part}
    (member : part ∈ leaving ++ parts) : log.files.device part.id = part.device := by
  obtain ⟨before, after, split⟩ := List.append_of_mem member
  have distinct := represents.distinct
  rw [split, List.map_append, List.map_cons, List.nodup_append] at distinct
  rw [represents.files, split, List.map_append, List.map_cons, List.append_assoc]
  refine SegmentFiles.device_middle fun file isFile => ?_
  obtain ⟨other, isOther, rfl⟩ := List.mem_map.mp isFile
  exact distinct.2.2 _ (List.mem_map.mpr ⟨other, isOther, rfl⟩) _ List.mem_cons_self

theorem Represents.modifyActive (change : Device → Device) :
    log.files.modify log.activeId change =
      (leaving ++ parts).map Part.file ++ (log.activeId, change active) :: next.toList.map fun d =>
        (log.activeId + 1, d) := by
  rw [represents.files]
  refine SegmentFiles.modify_middle (fun file member => Nat.ne_of_lt (represents.before file member)) ?_ change
  intro file member
  obtain ⟨d, -, rfl⟩ := List.mem_map.mp member
  exact Nat.succ_ne_self _

theorem Represents.lookup_next : log.files.lookup (log.activeId + 1) = next := by
  have before : ((leaving ++ parts).map Part.file).lookup (log.activeId + 1) = none := by
    refine List.lookup_eq_none_iff.mpr fun file member => ?_
    have := represents.before file member
    exact bne_iff_ne.mpr (by omega)
  have other : (log.activeId + 1 == log.activeId) = false := beq_eq_false_iff_ne.mpr (Nat.succ_ne_self _)
  rw [represents.files, List.lookup_append, before]
  cases next <;> simp [List.lookup_cons, other]

theorem Represents.ids_snoc :
    ∀ part ∈ leaving ++ (parts ++ [log.part active model.active]), part.id < log.activeId + 1 := by
  intro part member
  rw [← List.append_assoc] at member
  rcases List.mem_append.mp member with old | new
  · exact Nat.lt_succ_of_lt (represents.ids part old)
  · obtain rfl := List.mem_singleton.mp new
    exact Nat.lt_succ_self _

theorem Represents.distinct_snoc : ((leaving ++ (parts ++ [log.part active model.active])).map Part.id).Nodup := by
  rw [← List.append_assoc, List.map_append, List.nodup_append]
  refine ⟨represents.distinct, by simp, ?_⟩
  intro id isPart other isNew
  obtain ⟨part, member, rfl⟩ := List.mem_map.mp isPart
  obtain rfl := List.mem_singleton.mp isNew
  exact Nat.ne_of_lt (represents.ids part member)

end

theorem Represents.images_snoc (represents : Represents log model leaving parts active [] next) :
    ∀ part ∈ leaving ++ (parts ++ [log.part active model.active]), part.device.bytes = image part.segment := by
  intro part member
  rw [← List.append_assoc] at member
  rcases List.mem_append.mp member with old | new
  · exact represents.images part old
  · obtain rfl := List.mem_singleton.mp new
    exact represents.activeImage.trans (List.append_nil _)

theorem Represents.open_next (represents : Represents log model leaving parts active torn next) :
    log.files.open_ (log.activeId + 1) =
      ((leaving ++ parts).map Part.file ++ [(log.activeId, active)]) ++ [(log.activeId + 1, next.getD .empty)] := by
  have below : ∀ file ∈ (leaving ++ parts).map Part.file ++ [(log.activeId, active)], file.1 < log.activeId + 1 := by
    intro file member
    rcases List.mem_append.mp member with early | last
    · exact Nat.lt_succ_of_lt (represents.before file early)
    · obtain rfl := List.mem_singleton.mp last
      exact Nat.lt_succ_self _
  rw [represents.files]
  cases next with
  | none => exact SegmentFiles.open_last below
  | some d =>
    have present : SegmentFiles.open_ (log.activeId + 1) (_ ++ (log.activeId + 1, d) :: []) = _ :=
      SegmentFiles.open_present below
    simpa using present

theorem Represents.modifyNext (represents : Represents log model leaving parts active torn next)
    (change : Device → Device) :
    (log.files.open_ (log.activeId + 1)).modify (log.activeId + 1) change =
      (leaving ++ parts).map Part.file ++
        (log.activeId, active) :: [(log.activeId + 1, change (next.getD .empty))] := by
  rw [represents.open_next, SegmentFiles.modify_middle]
  · simp
  · intro file member
    rcases List.mem_append.mp member with early | last
    · exact Nat.ne_of_lt (Nat.lt_succ_of_lt (represents.before file early))
    · obtain rfl := List.mem_singleton.mp last
      exact Nat.ne_of_lt (Nat.lt_succ_self _)
  · simp

end Represents

/-- Every number fits its width, and the log does not run out of LSNs. -/
structure Appendable (log : SegmentedLog) (txnId : Nat) (kind : LogRecordKind) : Prop where
  txnFits : txnId < 2 ^ 64
  kindFits : kind.Fits
  len : kind.encodedLen < 2 ^ 32
  room : log.nextLsn + kind.encodedLen < 2 ^ 64

namespace Keeping
variable {log : SegmentedLog} {history gone : List LoggedRecord} {model : LogManager}
  {leaving parts : List Part} {active : Device} {torn : List UInt8} {next : Option Device} {record : LoggedRecord}

section
variable (keeping : Keeping log history gone model leaving parts active torn next)
include keeping

theorem partFits {part : Part} (isPart : part ∈ parts) : ∀ record ∈ part.segment.records, record.Fits := by
  intro record member
  refine keeping.fits record ?_
  rw [keeping.holds.history_eq, keeping.represents.segments]
  refine List.mem_append_right _ (List.mem_append_left _ (List.mem_append_left _ (List.mem_flatMap.mpr ?_)))
  exact ⟨part.segment, List.mem_map.mpr ⟨part, isPart, rfl⟩, member⟩

theorem activeFits : ∀ record ∈ model.active.records, record.Fits := by
  intro record member
  refine keeping.fits record ?_
  rw [keeping.holds.history_eq]
  exact List.mem_append_right _ (List.mem_append_left _ (List.mem_append_right _ member))

theorem bufferFits : ∀ record ∈ model.buffer, record.Fits := by
  intro record member
  refine keeping.fits record ?_
  rw [keeping.holds.history_eq]
  exact List.mem_append_right _ (List.mem_append_right _ member)

theorem readAt (member : record ∈ history) (low : model.base ≤ record.lsn) : log.readAt record.lsn = some record := by
  have fits := keeping.fits record member
  have positive := keeping.holds.lsn_pos member
  have kept := keeping.holds.retained member low
  simp only [List.mem_append] at kept
  unfold SegmentedLog.readAt
  rw [if_neg (by omega), keeping.represents.durableLsn, keeping.represents.activeStart]
  rcases kept with (inSealed | inActive) | inBuffer
  · have high := keeping.holds.tiled.laidOut.lt inSealed
    have activeLe := keeping.holds.durable.le
    rw [if_neg (by omega), if_neg (by omega)]
    obtain ⟨segment, stop, found, inSegment, laid⟩ := keeping.holds.find_sealed inSealed
    rw [keeping.represents.segments, ← List.map_reverse, List.find?_map] at found
    obtain ⟨part, isFound, rfl⟩ := Option.map_eq_some_iff.mp found
    have isPart : part ∈ leaving ++ parts :=
      List.mem_append_right _ (List.mem_reverse.mp (List.mem_of_find?_eq_some isFound))
    have located : log.sealed.reverse.find? (fun s => decide (s.startLsn ≤ record.lsn)) = some part.meta := by
      rw [keeping.represents.sealed, ← List.map_reverse, List.find?_map]
      exact Option.map_eq_some_iff.mpr ⟨part, isFound, rfl⟩
    simp only [located, Part.meta]
    rw [keeping.represents.partDevice isPart]
    have bytes : part.device.bytes = image part.segment ++ [] := by
      rw [keeping.represents.images part isPart, List.append_nil]
    exact laid.readRecordAt inSegment fits bytes
  · have bounds := keeping.holds.durable.bounds inActive
    have below := keeping.holds.durable.lt inActive
    rw [if_neg (by omega), if_pos bounds.1, keeping.represents.activeDevice]
    have laid := keeping.holds.durable
    exact laid.readRecordAt inActive fits keeping.represents.activeImage
  · have bounds := keeping.holds.buffered.bounds inBuffer
    rw [if_pos bounds.1, keeping.represents.buffer]
    obtain ⟨rest, here⟩ := keeping.holds.buffered.drop_encodeAll inBuffer
    rw [here, decodeRecord_encode fits]
    rfl

theorem segmentsFrom (lsn : Nat) : ∃ visited : List Part, (∀ part ∈ visited, part ∈ parts) ∧
      SegmentedLog.segmentsFrom log.sealed lsn = visited.map Part.meta ∧
      LogManager.segmentsFrom model.sealed lsn = visited.map Part.segment := by
  let skipped := (parts.reverse.dropWhile fun part => decide (lsn < part.segment.startLsn)).length - 1
  refine ⟨parts.drop skipped, fun part => List.mem_of_mem_drop, ?_, ?_⟩
  · rw [SegmentedLog.segmentsFrom, keeping.represents.sealed, ← List.map_reverse, List.dropWhile_map, List.length_map,
      List.map_drop]
    rfl
  · rw [LogManager.segmentsFrom, keeping.represents.segments, ← List.map_reverse, List.dropWhile_map, List.length_map,
      List.map_drop]
    rfl

theorem nextRecord_eq (txnId : Nat)
    (kind : LogRecordKind) : log.nextRecord txnId kind = model.nextRecord txnId kind := by
  rw [SegmentedLog.nextRecord, LogManager.nextRecord, keeping.represents.nextLsn, keeping.represents.last]

theorem nextRecord_fits {txnId : Nat}
    {kind : LogRecordKind} (room : Appendable log txnId kind) : (model.nextRecord txnId kind).Fits := by
  refine ⟨keeping.bound, ?_, room.txnFits, room.kindFits, room.len⟩
  intro prev isPrev
  obtain ⟨record, member, rfl, -⟩ := keeping.known txnId prev isPrev
  have := keeping.holds.lsn_pos member
  have := keeping.holds.lsn_lt member
  have := keeping.bound
  omega

theorem append {txnId : Nat} {kind : LogRecordKind} (room : Appendable log txnId kind) :
    Keeping (log.append txnId kind) (history ++ [log.nextRecord txnId kind]) gone (model.append txnId kind) leaving
      parts active torn next := by
  have fits := keeping.nextRecord_fits room
  have record := keeping.nextRecord_eq txnId kind
  have represents := keeping.represents
  have length : (log.nextRecord txnId kind).encode.length = kind.encodedLen := by
    rw [LoggedRecord.encode_length]
    rfl
  have encoded : recordFraming.encodeAll [log.nextRecord txnId kind] = (log.nextRecord txnId kind).encode :=
    List.append_nil _
  have simulated : Represents (log.append txnId kind) (model.append txnId kind) leaving parts active torn next :=
    { represents with
      buffer := by
        simp only [SegmentedLog.append, LogManager.append, represents.buffer, Framing.encodeAll_append, ← record,
          encoded]
      nextLsn := by simp only [SegmentedLog.append, LogManager.append, length, represents.nextLsn]
      last := by simp only [SegmentedLog.append, LogManager.append, represents.last, represents.nextLsn] }
  rw [record]
  refine ⟨simulated, keeping.holds.append txnId kind, ?_, keeping.leaves, ?_, ?_, ?_⟩
  · intro other lsn last
    simp only [LogManager.append] at last
    by_cases mine : other = txnId
    · rw [if_pos mine] at last
      refine ⟨model.nextRecord txnId kind, by simp, ?_, mine.symm⟩
      exact Option.some.inj last
    · rw [if_neg mine] at last
      obtain ⟨earlier, member, facts⟩ := keeping.known other lsn last
      exact ⟨earlier, List.mem_append_left _ member, facts⟩
  · intro other member
    rcases List.mem_append.mp member with old | new
    · exact keeping.fits other old
    · obtain rfl := List.mem_singleton.mp new
      exact fits
  · rw [LogManager.append_nextLsn, ← represents.nextLsn]
    exact room.room
  · refine keeping.copied.trans ?_
    simp only [LogManager.append, Framing.encodeAll_append]
    exact List.prefix_append _ _

theorem write {part : List UInt8} (cut : torn ++ part <+: recordFraming.encodeAll model.buffer) :
    Keeping { log with files := log.files.modify log.activeId (·.writeEnd part) } history gone model leaving parts
      (active.writeEnd part) (torn ++ part) next := by
  have represents := keeping.represents
  refine ⟨?_, keeping.holds, keeping.known, keeping.leaves, keeping.fits, keeping.bound, cut⟩
  exact { represents with
    files := represents.modifyActive (·.writeEnd part)
    activeImage := by
      rw [Device.writeEnd, represents.activeImage, List.append_assoc] }

theorem rollFault (fault : RollFault) :
    Keeping (log.rollSegment (some fault)) history gone model leaving parts active torn
      (fault.leaves next log.nextLsn) := by
  have represents := keeping.represents
  refine ⟨?_, keeping.holds, keeping.known, keeping.leaves, keeping.fits, keeping.bound, keeping.copied⟩
  have changed := fun fault => represents.modifyNext (writeSegmentHeader · log.nextLsn (some fault))
  cases fault with
  | openFile => exact represents
  | setLen => exact { represents with files := changed .setLen }
  | write written => exact { represents with files := changed (.write written) }
  | sync => exact { represents with files := changed .sync }

end

section
variable (keeping : Keeping log history gone model leaving parts active [] next)
include keeping

theorem iterFrom (lsn : Nat) :
    log.iterFrom lsn = (history.filter fun record => decide (model.base ≤ record.lsn)).filter
      fun record => decide (lsn ≤ record.lsn) := by
  have same : log.iterFrom lsn = model.iterFrom lsn := by
    obtain ⟨visited, areParts, metas, segments⟩ := keeping.segmentsFrom (max lsn HEADER_LEN)
    have tail : (scanDecodedRecords (log.activeDevice.bytes.drop HEADER_LEN ++ log.buffer) 0).1 =
        model.active.records ++ model.buffer := by
      have bytes : log.activeDevice.bytes.drop HEADER_LEN ++ log.buffer =
          [] ++ (recordFraming.encodeAll (model.active.records ++ model.buffer) ++ []) := by
        rw [keeping.represents.activeDevice, keeping.represents.activeImage, keeping.represents.buffer, image,
          List.append_nil, ← segmentHeader_length model.active.startLsn, List.drop_left, Framing.encodeAll_append]
        simp
      have fits : ∀ record ∈ model.active.records ++ model.buffer, record.Fits := by
        intro record member
        rcases List.mem_append.mp member with settled | buffered
        · exact keeping.activeFits record settled
        · exact keeping.bufferFits record buffered
      rw [bytes, show 0 = ([] : List UInt8).length from rfl, scanDecodedRecords_encodeAll fits decodeRecord_nil]
    have scanned : ∀ part ∈ visited,
        (scanDecodedRecords (log.files.device part.meta.id).bytes HEADER_LEN).1 = part.segment.records := by
      intro part isVisited
      have isPart := areParts part isVisited
      have found := scanDecodedRecords_image (keeping.partFits isPart) decodeRecord_nil
      rw [List.append_nil] at found
      rw [show part.meta.id = part.id from rfl, keeping.represents.partDevice (List.mem_append_right _ isPart),
        keeping.represents.images part (List.mem_append_right _ isPart), found]
    simp only [SegmentedLog.iterFrom, LogManager.iterFrom, metas, segments, tail, List.flatMap_map,
      List.append_assoc]
    rw [List.flatMap_congr scanned]
  rw [same, keeping.holds.iterFrom_retained]

theorem persist :
    Keeping log.persist history gone model.persist leaving parts (active.writeEnd log.buffer).syncAll
      [] next := by
  have represents := keeping.represents
  refine ⟨?_, keeping.holds.persist, keeping.known, keeping.leaves, keeping.fits, keeping.bound, List.prefix_refl _⟩
  exact { represents with
    files := represents.modifyActive fun device => (device.writeEnd log.buffer).syncAll
    activeImage := by
      simp [LogManager.persist, Device.syncAll, Device.writeEnd, represents.activeImage, represents.buffer, image]
    buffer := rfl
    durableLsn := represents.nextLsn }

theorem size : log.activeDevice.size - HEADER_LEN = totalLen model.active.records := by
  rw [keeping.represents.activeDevice, Device.size, keeping.represents.activeImage, List.append_nil, image_length]
  omega

theorem rollSegment (empty : model.buffer = []) :
    Keeping (log.rollSegment none) history gone model.rollSegment leaving (parts ++ [log.part active model.active])
      (writeSegmentHeader (next.getD .empty) log.nextLsn none) [] none := by
  have represents := keeping.represents
  have leaves := keeping.leaves
  rw [← LogManager.Holds.base_rollSegment] at leaves
  refine ⟨?_, keeping.holds.rollSegment empty, keeping.known, leaves, keeping.fits, keeping.bound, List.nil_prefix⟩
  exact { represents with
    files := by
      simp only [SegmentedLog.rollSegment, represents.modifyNext]
      simp [Part.file, SegmentedLog.part]
    ids := represents.ids_snoc
    distinct := represents.distinct_snoc
    sealed := by simp [SegmentedLog.rollSegment, represents.sealed, represents.activeStart, Part.meta,
      SegmentedLog.part]
    segments := by simp [LogManager.rollSegment, represents.segments, SegmentedLog.part]
    images := represents.images_snoc
    activeImage := by
      simp [LogManager.rollSegment, writeSegmentHeader, Device.syncAll, Device.writeEnd, Device.setLen, image,
        represents.nextLsn]
    activeStart := represents.nextLsn }

end

end Keeping

end SimpleRdbms.Storage
