import SimpleRdbms.Lib.Frames
import SimpleRdbms.Storage.LogCodec

namespace SimpleRdbms.Storage
open Lib

def LogRecordKind.Fits : LogRecordKind → Prop
  | .begin | .commit | .abort | .endTxn | .checkpointBegin => True
  | .update pageId offset _ _ => pageId < 2 ^ 32 ∧ offset < 2 ^ 16
  | .allocPage pageId => pageId < 2 ^ 32
  | .clr pageId offset _ undoNextLsn => pageId < 2 ^ 32 ∧ offset < 2 ^ 16 ∧ undoNextLsn < 2 ^ 64
  | .checkpointEnd att dpt =>
    (∀ entry ∈ att, entry.1 < 2 ^ 64 ∧ entry.2 < 2 ^ 64) ∧ ∀ entry ∈ dpt, entry.1 < 2 ^ 32 ∧ entry.2 < 2 ^ 64

structure LoggedRecord.Fits (record : LoggedRecord) : Prop where
  lsn : record.lsn < 2 ^ 64
  prevLsn : ∀ prev ∈ record.prevLsn, prev ≠ 0 ∧ prev < 2 ^ 64
  txnId : record.txnId < 2 ^ 64
  kind : record.kind.Fits
  len : record.len < 2 ^ 32

namespace Cursor
variable {α β : Type}

theorem run_bind_some {m : Cursor α} {f : α → Cursor β} {bytes rest : List UInt8} {a : α}
    (first : m.run bytes = some (a, rest)) : (m >>= f).run bytes = (f a).run rest := by
  rw [StateT.run_bind, first]
  rfl

theorem run_map_some {m : Cursor α} {f : α → β} {bytes rest : List UInt8} {a : α}
    (first : m.run bytes = some (a, rest)) : (f <$> m).run bytes = some (f a, rest) := by
  rw [StateT.run_map, first]
  rfl

theorem take_append (bytes rest : List UInt8) : (take bytes.length).run (bytes ++ rest) = some (bytes, rest) := by
  simp [take, StateT.run]

theorem takeLE_append {width value : Nat} (fits : value < 256 ^ width) (rest : List UInt8) :
    (leValue <$> take width).run (leBytes width value ++ rest) = some (value, rest) := by
  have bytes := take_append (leBytes width value) rest
  rw [leBytes_length] at bytes
  rw [run_map_some bytes, leValue_leBytes fits]

theorem takeU16_append {value : Nat} (fits : value < 2 ^ 16) (rest : List UInt8) :
    takeU16.run (leBytes 2 value ++ rest) = some (value, rest) :=
  takeLE_append (Nat.lt_of_lt_of_eq fits (by decide) : value < 256 ^ 2) rest

theorem takeU32_append {value : Nat} (fits : value < 2 ^ 32) (rest : List UInt8) :
    takeU32.run (leBytes 4 value ++ rest) = some (value, rest) :=
  takeLE_append (Nat.lt_of_lt_of_eq fits (by decide) : value < 256 ^ 4) rest

theorem takeU64_append {value : Nat} (fits : value < 2 ^ 64) (rest : List UInt8) :
    takeU64.run (leBytes 8 value ++ rest) = some (value, rest) :=
  takeLE_append (Nat.lt_of_lt_of_eq fits (by decide) : value < 256 ^ 8) rest

theorem takeLenPrefixed_append {bytes : List UInt8} (fits : bytes.length < 2 ^ 32) (rest : List UInt8) :
    takeLenPrefixed.run (leBytes 4 bytes.length ++ (bytes ++ rest)) = some (bytes, rest) :=
  (run_bind_some (takeU32_append fits _)).trans (take_append bytes rest)

theorem takePairs_append {first second : Cursor Nat} {encode : Nat × Nat → List UInt8} {pairs : List (Nat × Nat)}
    (reads : ∀ pair ∈ pairs, ∀ rest, ∃ middle, first.run (encode pair ++ rest) = some (pair.1, middle) ∧
      second.run middle = some (pair.2, rest)) (rest : List UInt8) :
    (takePairs first second pairs.length).run (pairs.flatMap encode ++ rest) = some (pairs, rest) := by
  induction pairs with
  | nil => rfl
  | cons pair pairs ih =>
    obtain ⟨middle, left, right⟩ := reads pair List.mem_cons_self (pairs.flatMap encode ++ rest)
    have others := ih fun other member => reads other (List.mem_cons_of_mem _ member)
    rw [List.flatMap_cons, List.append_assoc, List.length_cons, takePairs, run_bind_some left,
      run_bind_some right, run_bind_some others]
    rfl

end Cursor

open Cursor

theorem encodePayload_length (kind : LogRecordKind) : kind.encodePayload.length = kind.payloadLen := by
  have pairs : ∀ (list : List (Nat × Nat)) (first second : Nat),
      (list.flatMap fun pair => leBytes first pair.1 ++ leBytes second pair.2).length =
        (first + second) * list.length := by
    intro list first second
    induction list with
    | nil => simp
    | cons pair list ih =>
      rw [List.flatMap_cons, List.length_append, ih, List.length_append, leBytes_length, leBytes_length,
        List.length_cons, Nat.mul_succ]
      omega
  cases kind with
  | begin | commit | abort | endTxn | checkpointBegin => rfl
  | update | allocPage | clr =>
    simp only [LogRecordKind.encodePayload, LogRecordKind.payloadLen, List.length_append, leBytes_length]
  | checkpointEnd att dpt =>
    simp only [LogRecordKind.encodePayload, LogRecordKind.payloadLen, List.length_append, leBytes_length, pairs]

theorem payloadCursor_encodePayload {kind : LogRecordKind} (fits : kind.Fits) (len : kind.encodedLen < 2 ^ 32) :
    (LogRecordKind.payloadCursor kind.tag).run kind.encodePayload = some (kind, []) := by
  have lengths : kind.payloadLen < 2 ^ 32 := by
    unfold LogRecordKind.encodedLen at len
    omega
  cases kind with
  | begin | commit | abort | endTxn | checkpointBegin => rfl
  | update pageId offset before after =>
    obtain ⟨page, at_⟩ := fits
    simp only [LogRecordKind.payloadLen] at lengths
    have last := takeLenPrefixed_append (by omega : after.length < 2 ^ 32) []
    rw [List.append_nil] at last
    simp only [LogRecordKind.encodePayload, LogRecordKind.tag, LogRecordKind.payloadCursor, List.append_assoc]
    rw [run_bind_some (takeU32_append page _), run_bind_some (takeU16_append at_ _),
      run_bind_some (takeLenPrefixed_append (by omega) _), run_bind_some last]
    rfl
  | allocPage pageId =>
    have last := takeU32_append fits []
    rw [List.append_nil] at last
    exact run_bind_some last
  | clr pageId offset after undoNextLsn =>
    obtain ⟨page, at_, undo⟩ := fits
    simp only [LogRecordKind.payloadLen] at lengths
    have last := takeU64_append undo []
    rw [List.append_nil] at last
    simp only [LogRecordKind.encodePayload, LogRecordKind.tag, LogRecordKind.payloadCursor, List.append_assoc]
    rw [run_bind_some (takeU32_append page _), run_bind_some (takeU16_append at_ _),
      run_bind_some (takeLenPrefixed_append (by omega) _), run_bind_some last]
    rfl
  | checkpointEnd att dpt =>
    obtain ⟨attFits, dptFits⟩ := fits
    simp only [LogRecordKind.payloadLen] at lengths
    have readsAtt : ∀ pair ∈ att, ∀ rest, ∃ middle,
        takeU64.run ((fun entry : Nat × Nat => leBytes 8 entry.1 ++ leBytes 8 entry.2) pair ++ rest) =
          some (pair.1, middle) ∧ takeU64.run middle = some (pair.2, rest) := by
      intro pair member rest
      refine ⟨leBytes 8 pair.2 ++ rest, ?_, takeU64_append (attFits pair member).2 rest⟩
      rw [List.append_assoc]
      exact takeU64_append (attFits pair member).1 _
    have readsDpt : ∀ pair ∈ dpt, ∀ rest, ∃ middle,
        takeU32.run ((fun entry : Nat × Nat => leBytes 4 entry.1 ++ leBytes 8 entry.2) pair ++ rest) =
          some (pair.1, middle) ∧ takeU64.run middle = some (pair.2, rest) := by
      intro pair member rest
      refine ⟨leBytes 8 pair.2 ++ rest, ?_, takeU64_append (dptFits pair member).2 rest⟩
      rw [List.append_assoc]
      exact takeU32_append (dptFits pair member).1 _
    have last := takePairs_append readsDpt []
    rw [List.append_nil] at last
    simp only [LogRecordKind.encodePayload, LogRecordKind.tag, LogRecordKind.payloadCursor, List.append_assoc]
    rw [run_bind_some (takeU32_append (by omega) _), run_bind_some (takePairs_append readsAtt _),
      run_bind_some (takeU32_append (by omega) _), run_bind_some last]
    rfl

theorem decodePayload_encodePayload {kind : LogRecordKind} (fits : kind.Fits) (len : kind.encodedLen < 2 ^ 32) :
    LogRecordKind.decodePayload kind.tag kind.encodePayload = some kind := by
  simp only [LogRecordKind.decodePayload, payloadCursor_encodePayload fits len]

variable {record : LoggedRecord}

theorem bodyCursor_encodeBody (fits : record.Fits) :
    bodyCursor.run (encodeBody record.lsn record.prevLsn record.txnId record.kind) =
      some (record, record.kind.encodePayload) := by
  have prev : record.prevLsn.getD 0 < 2 ^ 64 := by
    cases named : record.prevLsn with
    | none => decide
    | some lsn => exact (fits.prevLsn lsn named).2
  have again : (if record.prevLsn.getD 0 ≠ 0 then some (record.prevLsn.getD 0) else none) = record.prevLsn := by
    cases named : record.prevLsn with
    | none => rfl
    | some lsn => simp [(fits.prevLsn lsn named).1]
  have tag : (take 1).run ([record.kind.tag] ++ record.kind.encodePayload) =
      some ([record.kind.tag], record.kind.encodePayload) := take_append [record.kind.tag] _
  have payload := decodePayload_encodePayload fits.kind fits.len
  simp only [encodeBody, List.append_assoc, bodyCursor]
  rw [run_bind_some (takeU64_append fits.lsn _), run_bind_some (takeU64_append prev _),
    run_bind_some (takeU64_append fits.txnId _), run_bind_some tag]
  simp only [StateT.run_bind, StateT.run_get, StateT.run_lift, StateT.run_pure, List.headD_cons, payload, again,
    Option.pure_def, Option.bind_eq_bind, Option.bind_some]

theorem encodeBody_length (record : LoggedRecord) :
    (encodeBody record.lsn record.prevLsn record.txnId record.kind).length + 12 = record.len := by
  simp only [encodeBody, List.length_append, leBytes_length, encodePayload_length, List.length_singleton,
    LoggedRecord.len, LogRecordKind.encodedLen]
  omega

theorem LoggedRecord.encode_length (record : LoggedRecord) : record.encode.length = record.len := by
  have body := encodeBody_length record
  simp only [LoggedRecord.encode, encodeRecord, List.length_append, leBytes_length]
  omega

theorem LoggedRecord.encode_eq (record : LoggedRecord) :
    ∃ body checksum : List UInt8, checksum.length = 4 ∧ body.length + 12 = record.len ∧
      body = encodeBody record.lsn record.prevLsn record.txnId record.kind ∧
      leValue checksum = (crc32 (leBytes 4 record.len ++ body)).toNat ∧
      record.encode = leBytes 4 record.len ++ body ++ checksum ++ leBytes 4 record.len := by
  have body := encodeBody_length record
  have total : 4 + (encodeBody record.lsn record.prevLsn record.txnId record.kind).length + 4 + 4 = record.len := by
    omega
  refine ⟨_, leBytes 4 (crc32 (leBytes 4 record.len ++
    encodeBody record.lsn record.prevLsn record.txnId record.kind)).toNat, leBytes_length _ _, body, rfl, ?_, ?_⟩
  · exact leValue_leBytes (UInt32.toNat_lt _)
  · simp only [LoggedRecord.encode, encodeRecord, total]

theorem LoggedRecord.encode_front (record : LoggedRecord) (rest : List UInt8) :
    (record.encode ++ rest).take 4 = leBytes 4 record.len := by
  obtain ⟨body, checksum, -, -, -, -, encoded⟩ := record.encode_eq
  rw [encoded]
  simp

theorem LoggedRecord.Fits.leValue_len (fits : record.Fits) : leValue (leBytes 4 record.len) = record.len :=
  leValue_leBytes (Nat.lt_of_lt_of_eq fits.len (by decide))

theorem LoggedRecord.minimal (record : LoggedRecord) : MIN_RECORD_LEN ≤ record.len := by
  simp only [MIN_RECORD_LEN, LoggedRecord.len, LogRecordKind.encodedLen]
  omega

theorem decodeRecord_encode (fits : record.Fits) (rest : List UInt8) :
    decodeRecord (record.encode ++ rest) = some (record, record.encode.length) := by
  obtain ⟨body, checksum, four, bodyLength, isBody, isChecksum, encoded⟩ := record.encode_eq
  have length := record.encode_length
  have minimal := record.minimal
  have front := record.encode_front rest
  have whole : (record.encode ++ rest).take record.len = record.encode := by rw [← length, List.take_left]
  have trailing : record.encode.drop (record.len - 4) = leBytes 4 record.len := by
    have split : record.len - 4 = (leBytes 4 record.len ++ body ++ checksum).length := by simp; omega
    rw [encoded, split, List.drop_left]
  have leading : record.encode.take 4 = leBytes 4 record.len := by
    simpa using record.encode_front []
  have covered : record.encode.take (record.len - 8) = leBytes 4 record.len ++ body := by
    have split : record.len - 8 = (leBytes 4 record.len ++ body).length := by simp; omega
    rw [encoded, List.append_assoc _ checksum, split, List.take_left]
  have stored : (record.encode.drop (record.len - 8)).take 4 = checksum := by
    have split : record.len - 8 = (leBytes 4 record.len ++ body).length := by simp; omega
    rw [encoded, List.append_assoc _ checksum, split, List.drop_left, ← four, List.take_left]
  have inside : (leBytes 4 record.len ++ body).drop 4 = body := by
    have split : 4 = (leBytes 4 record.len).length := by simp
    nth_rewrite 1 [split]
    rw [List.drop_left]
  have enough : ¬((record.encode ++ rest).length < 4 ∨ record.len < MIN_RECORD_LEN ∨
      (record.encode ++ rest).length < record.len) := by
    rw [List.length_append, length]
    simp only [MIN_RECORD_LEN] at minimal ⊢
    omega
  unfold decodeRecord
  simp only [front, fits.leValue_len, whole, trailing, leading, covered, stored, inside]
  rw [if_neg enough, if_neg (by simp), if_neg (by simp [isChecksum]), isBody, bodyCursor_encodeBody fits, length]
  rfl

theorem decodeRecord_torn {part : List UInt8} (fits : record.Fits)
    (cut : part <+: record.encode) (short : part ≠ record.encode) : decodeRecord part = none := by
  obtain ⟨missing, split⟩ := cut
  have less : part.length < record.len := by
    rw [← record.encode_length, ← split, List.length_append]
    have : 0 < missing.length := by
      refine List.length_pos_iff.mpr ?_
      rintro rfl
      exact short (by simpa using split)
    omega
  unfold decodeRecord
  by_cases tiny : part.length < 4
  · rw [if_pos (.inl tiny)]
  · have front : part.take 4 = leBytes 4 record.len := by
      have same := congrArg (List.take 4) split
      rw [List.take_append_of_le_length (by omega)] at same
      rw [same]
      simpa using record.encode_front []
    simp only [front, fits.leValue_len]
    rw [if_pos (.inr (.inr less))]

def recordFraming : Framing LoggedRecord UInt8 where
  encode := LoggedRecord.encode
  decode := decodeRecord
  Valid := LoggedRecord.Fits
  nonempty record := by
    rw [← List.length_pos_iff, record.encode_length]
    exact record.kind.encodedLen_pos
  whole _ rest fits := decodeRecord_encode fits rest
  torn _ _ fits cut short := decodeRecord_torn fits cut short

/-- A record is read at its position and a cut one is not, so that a scan stops exactly at the cut. -/
theorem log_records_self_delimiting (record : LoggedRecord) (fits : record.Fits) :
    (∀ before after, decodeRecord ((before ++ (record.encode ++ after)).drop before.length) =
      some (record, record.encode.length)) ∧
    (∀ before part, part <+: record.encode → part ≠ record.encode →
      decodeRecord ((before ++ part).drop before.length) = none) ∧
    ∀ records : List LoggedRecord, (∀ earlier ∈ records, earlier.Fits) →
      ∀ part, part <+: record.encode → part ≠ record.encode →
      ∀ fuel, (records.flatMap LoggedRecord.encode ++ part).length < fuel →
        scan decodeRecord fuel (records.flatMap LoggedRecord.encode ++ part) = (records, part) := by
  refine ⟨fun before after => ?_, fun before part cut short => ?_, fun records allFit part cut short fuel enough => ?_⟩
  · rw [List.drop_left]
    exact decodeRecord_encode fits after
  · rw [List.drop_left]
    exact decodeRecord_torn fits cut short
  · rw [List.length_append] at enough
    exact recordFraming.scan_encodeAll allFit (decodeRecord_torn fits cut short)
      (Nat.lt_of_le_of_lt (Nat.le_add_right _ _) enough)

def tornCommit : LoggedRecord := ⟨106, some 53, 1, .commit⟩

theorem log_records_self_delimiting_torn :
    ∃ records : List LoggedRecord, records.map LoggedRecord.kind = [.begin, .update 1 20 [0] [7]] ∧
      scan decodeRecord 200 (records.flatMap LoggedRecord.encode ++ tornCommit.encode.take 5) =
        (records, tornCommit.encode.take 5) := by
  have cut : tornCommit.Fits := ⟨by decide, by simp [tornCommit], by decide, trivial, by decide⟩
  refine ⟨[⟨16, none, 1, .begin⟩, ⟨53, some 16, 1, .update 1 20 [0] [7]⟩], rfl, ?_⟩
  refine (log_records_self_delimiting tornCommit cut).2.2 _ ?_ _ (List.take_prefix 5 _) (by decide) 200 (by decide)
  simp only [List.mem_cons, List.not_mem_nil, or_false, forall_eq_or_imp, forall_eq]
  refine ⟨⟨by decide, by simp, by decide, trivial, by decide⟩, ⟨by decide, by simp, by decide, ?_, by decide⟩⟩
  simp [LogRecordKind.Fits]

theorem recordFraming_length (records : List LoggedRecord) :
    (recordFraming.encodeAll records).length = totalLen records := by
  induction records with
  | nil => rfl
  | cons record records ih =>
    rw [Framing.encodeAll_cons, List.length_append, ih]
    exact congrArg (· + totalLen records) record.encode_length

theorem totalLen_append (first second : List LoggedRecord) :
    totalLen (first ++ second) = totalLen first + totalLen second := by
  rw [← recordFraming_length, Framing.encodeAll_append, List.length_append, recordFraming_length, recordFraming_length]

end SimpleRdbms.Storage
