import SimpleRdbms.Common.Ids
import SimpleRdbms.Types.Tuple

/-!
# The catalog in memory

The source's hash maps are association lists: an insertion shadows the earlier entry of its key.
-/

namespace SimpleRdbms

structure Column where
  name : Text
  dataType : DataType
  nullable : Bool
deriving DecidableEq, Repr

structure Schema where
  columns : List Column
deriving DecidableEq, Repr

def Schema.columnIndex (schema : Schema) (name : Text) : Option Nat :=
  schema.columns.findIdx? (·.name == name)

structure TableInfo where
  tableId : Nat
  name : Text
  schema : Schema
  firstPageId : Nat
deriving DecidableEq, Repr

structure IndexInfo where
  indexId : Nat
  name : Text
  tableId : Nat
  columnIndex : Nat
  catalogRid : Rid
  rootPageIdOffset : Nat
  rootPageId : Nat
deriving DecidableEq, Repr

inductive CatalogError where
  | tableAlreadyExists (name : Text)
  | tableNotFound (name : Text)
  | indexAlreadyExists (name : Text)
  | indexNotFound (name : Text)
  | corrupt (reason : String)
  | corruptTuple (err : TupleError)
deriving DecidableEq, Repr

structure Catalog where
  tablesByName : List (Text × TableInfo)
  tablesById : List (Nat × Text)
  nextTableId : Nat
  catalogFirstPage : Option Nat
  indexesByName : List (Text × IndexInfo)
  indexesById : List (Nat × Text)
  indexesByTable : List (Nat × List Nat)
  nextIndexId : Nat
  indexCatalogFirstPage : Option Nat
deriving DecidableEq, Repr

namespace Catalog

def new : Catalog :=
  { tablesByName := [], tablesById := [], nextTableId := 0, catalogFirstPage := none, indexesByName := [],
    indexesById := [], indexesByTable := [], nextIndexId := 0, indexCatalogFirstPage := none }

def insertTable (catalog : Catalog) (info : TableInfo) : Catalog :=
  { catalog with
    nextTableId := max catalog.nextTableId (info.tableId + 1)
    tablesById := (info.tableId, info.name) :: catalog.tablesById
    tablesByName := (info.name, info) :: catalog.tablesByName }

def insertIndex (catalog : Catalog) (info : IndexInfo) : Catalog :=
  { catalog with
    nextIndexId := max catalog.nextIndexId (info.indexId + 1)
    indexesById := (info.indexId, info.name) :: catalog.indexesById
    indexesByTable :=
      (info.tableId, (catalog.indexesByTable.lookup info.tableId).getD [] ++ [info.indexId]) :: catalog.indexesByTable
    indexesByName := (info.name, info) :: catalog.indexesByName }

def fromTablesAndIndexes (tables : List TableInfo) (indexes : List IndexInfo) : Catalog :=
  indexes.foldl insertIndex (tables.foldl insertTable new)

def getTable (catalog : Catalog) (name : Text) : Except CatalogError TableInfo :=
  match catalog.tablesByName.lookup name with
  | some info => .ok info
  | none => .error (.tableNotFound name)

def getTableById (catalog : Catalog) (tableId : Nat) : Except CatalogError TableInfo :=
  match catalog.tablesById.lookup tableId with
  | some name => catalog.getTable name
  | none => .error (.tableNotFound ("table id ".toList ++ (toString tableId).toList))

def indexInfo (catalog : Catalog) (indexId : Nat) : Option IndexInfo := do
  catalog.indexesByName.lookup (← catalog.indexesById.lookup indexId)

def indexForColumn (catalog : Catalog) (tableId columnIndex : Nat) : Option IndexInfo := do
  let indexIds ← catalog.indexesByTable.lookup tableId
  indexIds.findSome? fun indexId => (catalog.indexInfo indexId).filter (·.columnIndex == columnIndex)

end Catalog

end SimpleRdbms
