import SimpleRdbms.Catalog.Catalog

/-!
# Catalog rows

The schema of a table is written as bytes, and those as hexadecimal digits in a string column.
-/

namespace SimpleRdbms.Catalog

def CATALOG_ROW_SCHEMA : List DataType := [.integer, .varchar 0, .integer, .varchar 0]

def INDEX_CATALOG_ROW_SCHEMA : List DataType := [.integer, .varchar 0, .integer, .integer, .integer]

def typeTag : DataType → UInt8
  | .boolean => 0
  | .integer => 1
  | .bigInt => 2
  | .double => 3
  | .varchar _ => 4

def tagToType (tag : UInt8) (varcharLen : Nat) : Except CatalogError DataType :=
  match tag with
  | 0 => .ok .boolean
  | 1 => .ok .integer
  | 2 => .ok .bigInt
  | 3 => .ok .double
  | 4 => .ok (.varchar varcharLen)
  | other => .error (.corrupt ("unknown column type tag " ++ toString other.toNat))

def HEX_DIGITS : Text := "0123456789abcdef".toList

def hexDigits (byte : UInt8) : Text :=
    [HEX_DIGITS.getD (byte >>> 4).toNat '0', HEX_DIGITS.getD (byte &&& 0x0f).toNat '0']

def toHex (bytes : Bytes) : Text := bytes.flatMap hexDigits

def hexDigit (digit : UInt8) : Except CatalogError UInt8 :=
  if 48 ≤ digit ∧ digit ≤ 57 then .ok (digit - 48)
  else if 97 ≤ digit ∧ digit ≤ 102 then .ok (digit - 97 + 10)
  else .error (.corrupt "invalid hex digit in schema blob")

def hexPairs : Bytes → Except CatalogError Bytes
  | high :: low :: rest => do
      let high ← hexDigit high
      let low ← hexDigit low
      return (high <<< 4 ||| low) :: (← hexPairs rest)
  | _ => .ok []

def fromHex (text : Text) : Except CatalogError Bytes :=
  if text.asBytes.length % 2 ≠ 0 then .error (.corrupt "odd-length hex blob") else hexPairs text.asBytes

def encodeColumn (column : Column) : Bytes :=
  leBytes 4 column.name.asBytes.length ++ column.name.asBytes ++ [typeTag column.dataType] ++
    (match column.dataType with
    | .varchar len => leBytes 4 len
    | _ => []) ++
    [if column.nullable then 1 else 0]

def schemaBytes (schema : Schema) : Bytes := leBytes 4 schema.columns.length ++ schema.columns.flatMap encodeColumn

def encodeSchemaBlob (schema : Schema) : Text := toHex (schemaBytes schema)

def take (bytes : Bytes) (offset len : Nat) : Except CatalogError Bytes :=
  if offset + len ≤ bytes.length then .ok ((bytes.drop offset).take len) else .error (.corrupt "truncated schema blob")

def decodeVarcharLen (bytes : Bytes) (offset : Nat) (tag : UInt8) : Except CatalogError (Nat × Nat) :=
  if tag = 4 then do return (leValue (← take bytes offset 4), offset + 4) else .ok (0, offset)

def decodeColumn (bytes : Bytes) (offset : Nat) : Except CatalogError (Column × Nat) := do
  let nameLen := leValue (← take bytes offset 4)
  let offset := offset + 4
  match Text.fromUtf8 (← take bytes offset nameLen) with
  | none => throw (.corrupt "invalid utf-8 column name")
  | some name =>
    let offset := offset + nameLen
    let tag := (← take bytes offset 1).headD 0
    let (varcharLen, offset) ← decodeVarcharLen bytes (offset + 1) tag
    let dataType ← tagToType tag varcharLen
    let nullable := (← take bytes offset 1).headD 0 != 0
    return ({ name, dataType, nullable }, offset + 1)

def decodeColumns (bytes : Bytes) : Nat → Nat → Except CatalogError (List Column)
  | 0, _ => .ok []
  | count + 1, offset => do
      let (column, offset) ← decodeColumn bytes offset
      return column :: (← decodeColumns bytes count offset)

def decodeSchemaBlob (blob : Text) : Except CatalogError Schema := do
  let bytes ← fromHex blob
  let count := leValue (← take bytes 0 4)
  return ⟨← decodeColumns bytes count 4⟩

def asInteger (id : Nat) : Value := .integer (.ofBitVec (.ofNat 32 id))

def asId (value : Int32) : Nat := value.toBitVec.toNat

def asUsize (value : Int32) : Nat := (value.toInt % 18446744073709551616).toNat

def tableRow (info : TableInfo) : Tuple :=
  [asInteger info.tableId, .varchar info.name, asInteger info.firstPageId, .varchar (encodeSchemaBlob info.schema)]

def encodeTableInfo (info : TableInfo) : Bytes := (tableRow info).encode

def decodeRow (bytes : Bytes) (types : List DataType) : Except CatalogError Tuple :=
  (Tuple.decode bytes types).mapError .corruptTuple

def decodeTableInfo (bytes : Bytes) : Except CatalogError TableInfo := do
  match ← decodeRow bytes CATALOG_ROW_SCHEMA with
  | [.integer tableId, .varchar name, .integer firstPage, .varchar blob] =>
    let schema ← decodeSchemaBlob blob
    return { tableId := asId tableId, name, schema, firstPageId := asId firstPage }
  | _ => throw (.corrupt "malformed catalog row")

def indexRow (indexId : Nat) (name : Text) (tableId columnIndex rootPageId : Nat) : Tuple :=
  [asInteger indexId, .varchar name, asInteger tableId, asInteger columnIndex, asInteger rootPageId]

def encodeIndexRow (indexId : Nat) (name : Text) (tableId columnIndex rootPageId : Nat) : Bytes :=
  (indexRow indexId name tableId columnIndex rootPageId).encode

def decodeIndexRow (bytes : Bytes) (catalogRid : Rid) : Except CatalogError IndexInfo := do
  match ← decodeRow bytes INDEX_CATALOG_ROW_SCHEMA with
  | [.integer indexId, .varchar name, .integer tableId, .integer columnIndex, .integer rootPageId] =>
    return {
      indexId := asId indexId, name, tableId := asId tableId, columnIndex := asUsize columnIndex, catalogRid,
      rootPageIdOffset := bytes.length - 4, rootPageId := asId rootPageId }
  | _ => throw (.corrupt "malformed index catalog row")

/-- The index that `create_index_with_root` adds, once its row is in the heap. -/
def createdIndex (indexId : Nat) (name : Text) (tableId columnIndex rootPageId : Nat) (catalogRid : Rid) : IndexInfo :=
  { indexId, name, tableId, columnIndex, catalogRid,
    rootPageIdOffset := (encodeIndexRow indexId name tableId columnIndex rootPageId).length - 4, rootPageId }

end SimpleRdbms.Catalog
