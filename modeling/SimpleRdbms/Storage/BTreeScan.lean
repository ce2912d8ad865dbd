import SimpleRdbms.Storage.BTree

/-!
# A scan beside a writer

Between two steps a scan holds no latch. The way down to the first leaf may be one step or be taken node by node.
-/

namespace SimpleRdbms.Storage
open Lib BTree

inductive ScanPosition where
  | range (state : BTreeIndex.RangeState)
  | descending (start : Option Bytes) (pageId : Nat)

structure ScanRun where
  index : BTreeIndex
  root : Nat
  stop : Option Bytes
  position : ScanPosition
  items : List (Except BTreeError LeafEntry)
  finished : Bool

namespace ScanRun

inductive Action where
  | insert (key : Bytes) (row : RowId)
  | newPage
  | descend
  | next

def isEnd (store : NodeStore) : BTreeIndex.RangeState → Bool
  | .inLeaf pageId after =>
    match BTreeIndex.scanLeaf store pageId after with
    | .ok (.endOfLeaf none) => true
    | _ => false
  | .notStarted _ | .done => false

def descend (run : ScanRun) (start : Option Bytes) (pageId : Nat) : ScanRun :=
  match run.index.store.nodes pageId with
  | .leaf _ _ => { run with position := .range (.inLeaf pageId start) }
  | .internal tail entries =>
    match start.elim (tail.elim (.error (.corruptPage pageId)) .ok) (childForKey pageId tail entries) with
    | .error failure => { run with position := .range .done, items := run.items ++ [.error failure] }
    | .ok child => { run with position := .descending start child }

def step (run : ScanRun) : Action → Option ScanRun
  | .insert key row =>
    match run.index.insert key row with
    | .error failure => some { run with index := { run.index with store := failure.store } }
    | .ok index => some { run with index }
  | .newPage => some { run with index := { run.index with store := run.index.store.newPage } }
  | .descend =>
    match run.position with
    | .range (.notStarted start) => some { run with position := .descending start run.root }
    | .descending start pageId => some (run.descend start pageId)
    | .range _ => none
  | .next =>
    match run.position with
    | .range state =>
      let round := BTreeIndex.rangeRound { run.index with rootPageId := run.root } run.stop state
      some { run with
        position := .range round.1
        items := run.items ++ round.2.toList
        finished := run.finished || isEnd run.index.store state }
    | .descending _ _ => none

def system (index : BTreeIndex) (root : Nat) (start stop : Option Bytes) : System ScanRun Action where
  init run := run = ⟨index, root, stop, .range (.notStarted start), [], false⟩
  step := step

def Fresh (run : ScanRun) : Action → Prop
  | .insert key row => ⟨key, row⟩ ∉ run.index.entries
  | .newPage | .descend | .next => True

end ScanRun

end SimpleRdbms.Storage
