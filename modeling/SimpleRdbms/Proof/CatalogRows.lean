import SimpleRdbms.Catalog.Persist
import SimpleRdbms.Proof.TupleCodec
import SimpleRdbms.Storage.Heap

namespace SimpleRdbms.Catalog
open SimpleRdbms.Lib SimpleRdbms.Storage

theorem hexPairs_hexDigits (byte : UInt8) :
    (hexDigits byte).asBytes.length = 2 ∧ hexPairs (hexDigits byte).asBytes = .ok [byte] := by
  cases byte with
  | ofBitVec bits =>
    cases bits with
    | ofFin value =>
      revert value
      decide +kernel

theorem hexPairs_append {digits rest first second : Bytes} (two : digits.length = 2)
    (isFirst : hexPairs digits = .ok first)
    (isSecond : hexPairs rest = .ok second) : hexPairs (digits ++ rest) = .ok (first ++ second) := by
  obtain ⟨high, low, rfl⟩ := List.length_eq_two.mp two
  obtain ⟨highValue, isHigh, decoded⟩ := bind_eq_ok.mp isFirst
  obtain ⟨lowValue, isLow, decoded⟩ := bind_eq_ok.mp decoded
  cases decoded
  exact bind_eq_ok.mpr ⟨highValue, isHigh, bind_eq_ok.mpr ⟨lowValue, isLow, bind_eq_ok.mpr ⟨second, isSecond, rfl⟩⟩⟩

theorem toHex_asBytes (bytes : Bytes) :
    (toHex bytes).asBytes.length = 2 * bytes.length ∧ hexPairs (toHex bytes).asBytes = .ok bytes := by
  induction bytes with
  | nil => exact ⟨rfl, rfl⟩
  | cons byte rest ih =>
    obtain ⟨two, pair⟩ := hexPairs_hexDigits byte
    rw [toHex, List.flatMap_cons, Text.asBytes_append]
    constructor
    · rw [List.length_append, two, List.length_cons]
      have := ih.1
      rw [toHex] at this
      omega
    · exact hexPairs_append two pair ih.2

theorem fromHex_toHex (bytes : Bytes) : fromHex (toHex bytes) = .ok bytes := by
  obtain ⟨length, pairs⟩ := toHex_asBytes bytes
  rw [fromHex, length, if_neg (by omega), pairs]

theorem take_middle (before middle after : Bytes) :
    take (before ++ (middle ++ after)) before.length middle.length = .ok middle := by
  rw [take, if_pos (by simp), List.drop_left, List.take_left]

def ColumnFits (column : Column) : Prop :=
  column.name.asBytes.length < 2 ^ 32 ∧ ∀ len, column.dataType = .varchar len → len < 2 ^ 32

theorem tagToType_typeTag {dataType : DataType} {varcharLen : Nat}
    (same : ∀ len, dataType = .varchar len → varcharLen = len) :
    tagToType (typeTag dataType) varcharLen = .ok dataType := by
  cases dataType with
  | varchar len =>
    rw [same len rfl]
    rfl
  | boolean | integer | bigInt | double => rfl

def varcharBytes : DataType → Bytes
  | .varchar len => leBytes 4 len
  | _ => []

theorem encodeColumn_eq (column : Column) :
    encodeColumn column = leBytes 4 column.name.asBytes.length ++ (column.name.asBytes ++ ([typeTag column.dataType] ++
      (varcharBytes column.dataType ++ [if column.nullable then 1 else 0]))) := by
  simp only [encodeColumn, List.append_assoc]
  cases column.dataType <;> rfl

theorem decodeVarcharLen_encode {dataType : DataType} (before after : Bytes)
    (fits : ∀ len, dataType = .varchar len → len < 2 ^ 32) :
    ∃ varcharLen, (∀ len, dataType = .varchar len → varcharLen = len) ∧
      decodeVarcharLen (before ++ (varcharBytes dataType ++ after)) before.length (typeTag dataType) =
        .ok (varcharLen, before.length + (varcharBytes dataType).length) := by
  cases dataType with
  | varchar len =>
    have read := take_middle before (leBytes 4 len) after
    rw [leBytes_length] at read
    refine ⟨len, fun other isOther => (by cases isOther; rfl), ?_⟩
    rw [decodeVarcharLen, if_pos (show typeTag (.varchar len) = 4 from rfl)]
    simp only [varcharBytes, read, ok_bind, leValue_leBytes (show len < 256 ^ 4 from fits len rfl), leBytes_length]
    rfl
  | boolean | integer | bigInt | double =>
    exact ⟨0, fun other isOther => (by cases isOther), rfl⟩

theorem decodeColumn_encode {column : Column} (before after : Bytes) (fits : ColumnFits column) :
    decodeColumn (before ++ (encodeColumn column ++ after)) before.length =
      .ok (column, before.length + (encodeColumn column).length) := by
  obtain ⟨name, dataType, nullable⟩ := column
  obtain ⟨nameFits, lenFits⟩ := fits
  simp only at nameFits lenFits
  have nameLen := take_middle before (leBytes 4 name.asBytes.length)
    (name.asBytes ++ ([typeTag dataType] ++ (varcharBytes dataType ++ ([if nullable then 1 else 0] ++ after))))
  have isName := take_middle (before ++ leBytes 4 name.asBytes.length) name.asBytes
    ([typeTag dataType] ++ (varcharBytes dataType ++ ([if nullable then 1 else 0] ++ after)))
  have isTag := take_middle (before ++ leBytes 4 name.asBytes.length ++ name.asBytes) [typeTag dataType]
    (varcharBytes dataType ++ ([if nullable then 1 else 0] ++ after))
  obtain ⟨varcharLen, same, isLen⟩ := decodeVarcharLen_encode
    (before ++ leBytes 4 name.asBytes.length ++ name.asBytes ++ [typeTag dataType])
    ([if nullable then 1 else 0] ++ after) lenFits
  have isNullable := take_middle
    (before ++ leBytes 4 name.asBytes.length ++ name.asBytes ++ [typeTag dataType] ++ varcharBytes dataType)
    [if nullable then 1 else 0] after
  simp only [List.append_assoc, List.length_append, leBytes_length, List.length_singleton] at nameLen isName isTag isLen
  simp only [List.append_assoc, List.length_append, leBytes_length, List.length_singleton] at isNullable
  simp only [encodeColumn_eq, List.append_assoc, List.length_append, leBytes_length, List.length_singleton,
    decodeColumn]
  simp only [nameLen, ok_bind, leValue_leBytes (show name.asBytes.length < 256 ^ 4 from nameFits), Nat.add_assoc,
    isName, Text.fromUtf8_asBytes, isTag, List.headD_cons, isLen, tagToType_typeTag same, isNullable]
  cases nullable <;> rfl

theorem decodeColumns_encode {columns : List Column} (before after : Bytes)
    (fits : ∀ column ∈ columns, ColumnFits column) :
    decodeColumns (before ++ (columns.flatMap encodeColumn ++ after)) columns.length before.length = .ok columns := by
  induction columns generalizing before with
  | nil => rfl
  | cons column rest ih =>
    have first := decodeColumn_encode before (rest.flatMap encodeColumn ++ after) (fits column List.mem_cons_self)
    have others := ih (before ++ encodeColumn column) fun other member => fits other (List.mem_cons_of_mem _ member)
    rw [List.length_append, List.append_assoc] at others
    rw [List.length_cons, decodeColumns, List.flatMap_cons, List.append_assoc, first, ok_bind]
    simp only [others, ok_bind]
    rfl

theorem decodeSchemaBlob_encode {schema : Schema} (fits : ∀ column ∈ schema.columns, ColumnFits column)
    (count : schema.columns.length < 2 ^ 32) : decodeSchemaBlob (encodeSchemaBlob schema) = .ok schema := by
  have isCount := take_middle [] (leBytes 4 schema.columns.length) (schema.columns.flatMap encodeColumn)
  have columns := decodeColumns_encode (leBytes 4 schema.columns.length) [] fits
  rw [List.append_nil, leBytes_length] at columns
  rw [List.nil_append, List.length_nil, leBytes_length] at isCount
  rw [decodeSchemaBlob, encodeSchemaBlob, fromHex_toHex, ok_bind]
  simp only [schemaBytes, isCount, ok_bind, leValue_leBytes (show schema.columns.length < 256 ^ 4 from count), columns]
  rfl

structure TableFits (info : TableInfo) : Prop where
  tableId : info.tableId < 2 ^ 32
  firstPageId : info.firstPageId < 2 ^ 32
  name : info.name.asBytes.length < 2 ^ 32
  columns : ∀ column ∈ info.schema.columns, ColumnFits column

structure IndexFits (info : IndexInfo) : Prop where
  indexId : info.indexId < 2 ^ 32
  name : info.name.asBytes.length < 2 ^ 32
  tableId : info.tableId < 2 ^ 32
  columnIndex : info.columnIndex < 2 ^ 31
  rootPageId : info.rootPageId < 2 ^ 32

theorem asId_asInteger {id : Nat} (small : id < 2 ^ 32) : asId (.ofBitVec (.ofNat 32 id)) = id := by
  rw [asId, Int32.toBitVec_ofBitVec, BitVec.toNat_ofNat, Nat.mod_eq_of_lt small]

theorem asUsize_asInteger {column : Nat} (small : column < 2 ^ 31) :
    asUsize (.ofBitVec (.ofNat 32 column)) = column := by
  have value : (Int32.ofBitVec (.ofNat 32 column)).toInt = column := by
    rw [← Int32.toInt_toBitVec, Int32.toBitVec_ofBitVec, BitVec.toInt_eq_toNat_of_lt, BitVec.toNat_ofNat]
    · omega
    · rw [BitVec.toNat_ofNat]
      omega
  rw [asUsize, value]
  omega

theorem fits_varchar (text : Text) : Executor.Fits (.varchar text) (some (.varchar 0)) :=
  fun own isOwn => by cases isOwn; rfl

theorem fits_integer (id : Nat) : Executor.Fits (asInteger id) (some .integer) :=
  fun own isOwn => by cases isOwn; rfl

theorem short_integer (id : Nat) : Tuple.Short (asInteger id) := fun text isText => by cases isText

theorem short_varchar {text : Text} (short : text.asBytes.length < 2 ^ 32) : Tuple.Short (.varchar text) :=
  fun other isOther => by cases isOther; exact short

theorem tableTuple_conforming (tableId firstPageId : Nat) {name blob : Text} (nameShort : name.asBytes.length < 2 ^ 32)
    (blobShort : blob.asBytes.length < 2 ^ 32) :
    Tuple.Conforming [asInteger tableId, .varchar name, asInteger firstPageId, .varchar blob] CATALOG_ROW_SCHEMA := by
  refine ⟨.cons (fits_integer _) (.cons (fits_varchar _) (.cons (fits_integer _) (.cons (fits_varchar _) .nil))), ?_⟩
  simp only [List.forall_mem_cons]
  exact ⟨short_integer _, short_varchar nameShort, short_integer _, short_varchar blobShort, by simp⟩

theorem indexRow_conforming (indexId tableId columnIndex rootPageId : Nat) {name : Text}
    (nameShort : name.asBytes.length < 2 ^ 32) :
    Tuple.Conforming (indexRow indexId name tableId columnIndex rootPageId) INDEX_CATALOG_ROW_SCHEMA := by
  refine ⟨.cons (fits_integer _) (.cons (fits_varchar _) (.cons (fits_integer _) (.cons (fits_integer _)
    (.cons (fits_integer _) .nil)))), ?_⟩
  simp only [indexRow, List.forall_mem_cons]
  exact ⟨short_integer _, short_varchar nameShort, short_integer _, short_integer _, short_integer _, by simp⟩

theorem decodeRow_encode {tuple : Tuple} {types : List DataType} (after : Bytes) (conforming : tuple.Conforming types) :
    decodeRow (tuple.encode ++ after) types = .ok tuple := by
  rw [decodeRow, Tuple.decode_encode after conforming]
  rfl

theorem columns_length_le (columns : List Column) : columns.length ≤ (columns.flatMap encodeColumn).length := by
  induction columns with
  | nil => exact le_rfl
  | cons column rest ih =>
    rw [List.flatMap_cons, List.length_append, List.length_cons, encodeColumn_eq]
    simp only [List.length_append, leBytes_length]
    omega

theorem decodeTableInfo_encode {info : TableInfo} (fits : TableFits info)
    (blob : (encodeSchemaBlob info.schema).asBytes.length < 2 ^ 32) :
    decodeTableInfo (encodeTableInfo info) = .ok info := by
  have row := decodeRow_encode [] (tableTuple_conforming info.tableId info.firstPageId fits.name blob)
  have count : info.schema.columns.length < 2 ^ 32 := by
    have := columns_length_le info.schema.columns
    rw [encodeSchemaBlob, (toHex_asBytes _).1, schemaBytes, List.length_append] at blob
    omega
  rw [List.append_nil] at row
  rw [decodeTableInfo, encodeTableInfo, tableRow, row, ok_bind]
  simp only [asInteger, decodeSchemaBlob_encode fits.columns count, ok_bind, asId_asInteger fits.tableId,
    asId_asInteger fits.firstPageId]
  rfl

def indexFront (indexId : Nat) (name : Text) (tableId columnIndex : Nat) : Bytes :=
  0 :: [asInteger indexId, .varchar name, asInteger tableId, asInteger columnIndex].flatMap Value.encode

theorem encodeIndexRow_eq (indexId : Nat) (name : Text) (tableId columnIndex rootPageId : Nat) :
    encodeIndexRow indexId name tableId columnIndex rootPageId =
      indexFront indexId name tableId columnIndex ++ leBytes 4 rootPageId := by
  have root : Value.encode (asInteger rootPageId) = leBytes 4 rootPageId := by
    rw [asInteger, Value.encode, Int32.toBitVec_ofBitVec, BitVec.toNat_ofNat]
    exact leBytes_mod 4 rootPageId
  have bitmap : (indexRow indexId name tableId columnIndex rootPageId).nullBitmap = [0] := by
    simp [Tuple.nullBitmap, indexRow, asInteger, Value.isNull, bitmapLength]
  rw [encodeIndexRow, Tuple.encode, bitmap, indexRow, indexFront]
  simp only [List.flatMap_cons, List.flatMap_nil, List.append_nil, root, List.append_assoc, List.cons_append,
    List.nil_append]

theorem patch_encodeIndexRow (indexId : Nat) (name : Text) (tableId columnIndex rootPageId newRoot : Nat) :
    HeapHistory.patch (encodeIndexRow indexId name tableId columnIndex rootPageId)
        ((encodeIndexRow indexId name tableId columnIndex rootPageId).length - 4) (leBytes 4 newRoot) =
      encodeIndexRow indexId name tableId columnIndex newRoot := by
  have offset : (encodeIndexRow indexId name tableId columnIndex rootPageId).length - 4 =
      (indexFront indexId name tableId columnIndex).length := by
    rw [encodeIndexRow_eq, List.length_append, leBytes_length, Nat.add_sub_cancel]
  rw [offset, encodeIndexRow_eq, encodeIndexRow_eq, HeapHistory.patch, List.take_left, List.drop_of_length_le,
    List.append_nil]
  rw [List.length_append, leBytes_length, leBytes_length]

theorem decodeIndexRow_offset {bytes : Bytes} {rid : Rid} {info : IndexInfo}
    (decoded : decodeIndexRow bytes rid = .ok info) :
    info.rootPageIdOffset = bytes.length - 4 := by
  obtain ⟨tuple, _, decoded⟩ := bind_eq_ok.mp decoded
  split at decoded
  · cases decoded
    rfl
  · cases decoded

theorem decodeIndexRow_encode {info : IndexInfo} (fits : IndexFits info) :
    decodeIndexRow (encodeIndexRow info.indexId info.name info.tableId info.columnIndex info.rootPageId)
      info.catalogRid =
      .ok (createdIndex info.indexId info.name info.tableId info.columnIndex info.rootPageId info.catalogRid) := by
  have row := decodeRow_encode []
    (indexRow_conforming info.indexId info.tableId info.columnIndex info.rootPageId fits.name)
  rw [List.append_nil] at row
  rw [decodeIndexRow, encodeIndexRow, row, ok_bind]
  simp only [indexRow, asInteger, asId_asInteger fits.indexId, asId_asInteger fits.tableId,
    asUsize_asInteger fits.columnIndex, asId_asInteger fits.rootPageId]
  rfl

/-- Tables whose schema is short enough and all indexes are read back, and an index root is replaced in its row. -/
theorem catalog_rows_read_back :
    (∀ info : TableInfo, TableFits info → (encodeSchemaBlob info.schema).asBytes.length < 2 ^ 32 →
      decodeTableInfo (encodeTableInfo info) = .ok info) ∧
    (∀ info : IndexInfo, IndexFits info →
      decodeIndexRow (encodeIndexRow info.indexId info.name info.tableId info.columnIndex info.rootPageId)
        info.catalogRid =
        .ok (createdIndex info.indexId info.name info.tableId info.columnIndex info.rootPageId info.catalogRid)) ∧
    ∀ (indexId : Nat) (name : Text) (tableId columnIndex rootPageId newRoot : Nat) (catalogRid : Rid)
      (info : IndexInfo), info = createdIndex indexId name tableId columnIndex rootPageId catalogRid ∨
        decodeIndexRow (encodeIndexRow indexId name tableId columnIndex rootPageId) catalogRid = .ok info →
      HeapHistory.patch (encodeIndexRow indexId name tableId columnIndex rootPageId) info.rootPageIdOffset
          (leBytes 4 newRoot) =
        encodeIndexRow indexId name tableId columnIndex newRoot := by
  refine ⟨fun info => decodeTableInfo_encode, fun info => decodeIndexRow_encode, ?_⟩
  intro indexId name tableId columnIndex rootPageId newRoot catalogRid info recorded
  have offset : info.rootPageIdOffset = (encodeIndexRow indexId name tableId columnIndex rootPageId).length - 4 := by
    rcases recorded with rfl | decoded
    · rfl
    · exact decodeIndexRow_offset decoded
  rw [offset]
  exact patch_encodeIndexRow ..

def userTable : TableInfo := ⟨3, "users".toList,
    ⟨[⟨"id".toList, .integer, false⟩, ⟨"name".toList, .varchar 40, true⟩]⟩, 7⟩

def userIndex : IndexInfo := createdIndex 1 "users_id".toList 3 0 9 ⟨2, 0⟩

theorem catalog_rows_read_back_users :
    decodeTableInfo (encodeTableInfo userTable) = .ok userTable ∧
      decodeIndexRow (encodeIndexRow 1 "users_id".toList 3 0 9) ⟨2, 0⟩ = .ok userIndex ∧
      HeapHistory.patch (encodeIndexRow 1 "users_id".toList 3 0 9) userIndex.rootPageIdOffset (leBytes 4 12) =
        encodeIndexRow 1 "users_id".toList 3 0 12 := by
  obtain ⟨tables, indexes, patched⟩ := catalog_rows_read_back
  have columns : ∀ column ∈ userTable.schema.columns, ColumnFits column := by
    simp only [userTable, List.forall_mem_cons]
    refine ⟨⟨by decide, fun len isLen => (by cases isLen)⟩, ⟨by decide, fun len isLen => ?_⟩, by simp⟩
    cases isLen
    decide
  exact ⟨tables userTable ⟨by decide, by decide, by decide, columns⟩ (by decide +kernel),
    indexes userIndex ⟨by decide, by decide, by decide, by decide, by decide⟩,
    patched _ _ _ _ _ _ _ userIndex (.inl rfl)⟩

section
variable (letters : Nat)

def longNamed : TableInfo := ⟨0, "t".toList, ⟨[⟨List.replicate letters 'a', .integer, false⟩]⟩, 1⟩

theorem replicate_asBytes : Text.asBytes (List.replicate letters 'a') = List.replicate letters 97 := by
  induction letters with
  | zero => rfl
  | succ letters ih =>
    rw [List.replicate_succ, List.replicate_succ, ← ih]
    rfl

theorem longNamed_bytes (two : 2 ≤ letters) : schemaBytes (longNamed letters).schema =
    leBytes 4 1 ++ leBytes 4 letters ++ [97, 97] ++ (List.replicate (letters - 2) 97 ++ [1, 0]) := by
  obtain ⟨more, rfl⟩ := Nat.exists_eq_add_of_le' two
  rw [schemaBytes, longNamed, List.flatMap_cons, encodeColumn_eq, replicate_asBytes]
  simp [varcharBytes, typeTag, List.replicate_succ]

theorem tableTuple_encode_cut (tableId firstPageId : Nat) (name : Text) {blob cut rest : Text}
    (split : blob = cut ++ rest) (wraps : blob.asBytes.length % 2 ^ 32 = cut.asBytes.length) :
    Tuple.encode [asInteger tableId, .varchar name, asInteger firstPageId, .varchar blob] =
      Tuple.encode [asInteger tableId, .varchar name, asInteger firstPageId, .varchar cut] ++ rest.asBytes := by
  have length : leBytes 4 blob.asBytes.length = leBytes 4 cut.asBytes.length := by
    rw [← wraps]
    exact (leBytes_mod 4 _).symm
  have bitmap (text : Text) :
      Tuple.nullBitmap [asInteger tableId, .varchar name, asInteger firstPageId, .varchar text] = [0] := by
    simp [Tuple.nullBitmap, asInteger, Value.isNull, bitmapLength]
  rw [Tuple.encode, Tuple.encode, bitmap, bitmap]
  simp only [List.flatMap_cons, List.flatMap_nil, List.append_nil, List.append_assoc, Value.encode, length]
  rw [split, Text.asBytes_append]

theorem longNamed_not_decoded (isLong : letters = 2 ^ 31) :
    decodeTableInfo (encodeTableInfo (longNamed letters)) = .error (.corrupt "truncated schema blob") := by
  have bytes := longNamed_bytes letters (by omega)
  have split : encodeSchemaBlob (longNamed letters).schema =
      toHex (leBytes 4 1 ++ leBytes 4 letters ++ [97, 97]) ++ toHex (List.replicate (letters - 2) 97 ++ [1, 0]) := by
    rw [encodeSchemaBlob, bytes]
    exact List.flatMap_append
  have cutLength := (toHex_asBytes (leBytes 4 1 ++ leBytes 4 letters ++ [97, 97])).1
  have wraps : (encodeSchemaBlob (longNamed letters).schema).asBytes.length % 2 ^ 32 =
      (toHex (leBytes 4 1 ++ leBytes 4 letters ++ [97, 97])).asBytes.length := by
    rw [cutLength, encodeSchemaBlob, (toHex_asBytes _).1, bytes]
    simp only [List.length_append, leBytes_length, List.length_replicate, List.length_cons, List.length_nil]
    omega
  have row := decodeRow_encode (toHex (List.replicate (letters - 2) 97 ++ [1, 0])).asBytes
    (tableTuple_conforming 0 1 (show (Text.asBytes "t".toList).length < 2 ^ 32 by decide)
      (show (toHex (leBytes 4 1 ++ leBytes 4 letters ++ [97, 97])).asBytes.length < 2 ^ 32 by
        rw [cutLength]
        simp))
  rw [← tableTuple_encode_cut 0 1 "t".toList split wraps] at row
  have cut : decodeSchemaBlob (toHex (leBytes 4 1 ++ leBytes 4 letters ++ [97, 97])) =
      .error (.corrupt "truncated schema blob") := by
    rw [isLong]
    rfl
  rw [decodeTableInfo, encodeTableInfo, tableRow]
  simp only [longNamed] at row ⊢
  rw [row, ok_bind]
  simp only [asInteger, cut]
  rfl

end

/-- The length in the row is that of a first part of the digits, which ends within the name of the column. -/
theorem long_column_name_not_read_back :
    TableFits (longNamed (2 ^ 31)) ∧
      decodeTableInfo (encodeTableInfo (longNamed (2 ^ 31))) = .error (.corrupt "truncated schema blob") := by
  have columns (letters : Nat) (isLong : letters = 2 ^ 31) : ∀ column ∈ (longNamed letters).schema.columns,
    ColumnFits column := by
    simp only [longNamed, List.forall_mem_cons]
    refine ⟨⟨?_, fun len isLen => (by cases isLen)⟩, by simp⟩
    rw [replicate_asBytes, List.length_replicate]
    omega
  have fits (letters : Nat) (isLong : letters = 2 ^ 31) : TableFits (longNamed letters) :=
    ⟨Nat.two_pow_pos 32, Nat.one_lt_two_pow (by decide), show (Text.asBytes "t".toList).length < 2 ^ 32 by decide,
      columns letters isLong⟩
  exact ⟨fits _ rfl, longNamed_not_decoded _ rfl⟩

end SimpleRdbms.Catalog
