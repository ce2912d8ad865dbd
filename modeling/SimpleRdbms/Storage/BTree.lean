import SimpleRdbms.Lib.SearchTree
import SimpleRdbms.Lib.System
import SimpleRdbms.Storage.Page

/-!
# B+tree indexes

A node is the list of its entries in slot order; what a page has room for is counted in bytes. The tail is the leftmost
child of an internal node and the right sibling of a leaf. Loops that follow page ids take the number of allocated pages
as fuel.
-/

namespace SimpleRdbms.Storage
open Lib

namespace BTree

def NODE_TYPE_START : Nat := 12
def HEADER_SIZE : Nat := 21
def SLOT_SIZE : Nat := 4
def KEY_LEN_PREFIX : Nat := 2
def RID_TRAILER_SIZE : Nat := 6
def CHILD_TRAILER_SIZE : Nat := 4

def MAX_KEY_SIZE : Nat :=
  PAGE_SIZE - HEADER_SIZE - SLOT_SIZE - KEY_LEN_PREFIX - RID_TRAILER_SIZE - CHILD_TRAILER_SIZE

def MAX_INTERNAL_PUSH_UP_SIZE : Nat := KEY_LEN_PREFIX + MAX_KEY_SIZE + RID_TRAILER_SIZE + CHILD_TRAILER_SIZE

inductive BTreeError where
  | keyTooLarge (size : Nat)
  | nodeOverflow (pageId : Nat)
  | corruptPage (pageId : Nat)
  | endless
deriving DecidableEq, Repr

structure RowId where
  rid : Rid
  page : rid.pageId < 256 ^ 4
  slot : rid.slot < 256 ^ 2
deriving DecidableEq

def RowId.bytes (row : RowId) : Bytes := leBytes 4 row.rid.pageId ++ leBytes 2 row.rid.slot

structure LeafEntry where
  key : Bytes
  row : RowId
deriving DecidableEq

structure Separator where
  key : Bytes
  child : Nat
deriving DecidableEq

/-- `leaf_sort_key`. -/
def LeafEntry.sortKey (entry : LeafEntry) : Bytes := entry.key ++ entry.row.bytes

def LeafEntry.len (entry : LeafEntry) : Nat := KEY_LEN_PREFIX + entry.key.length + RID_TRAILER_SIZE

def Separator.len (entry : Separator) : Nat := KEY_LEN_PREFIX + entry.key.length + CHILD_TRAILER_SIZE

inductive Node where
  | leaf (tail : Option Nat) (entries : List LeafEntry)
  | internal (tail : Option Nat) (entries : List Separator)

def Node.tail : Node → Option Nat
  | .leaf tail _ => tail
  | .internal tail _ => tail

def Node.lens : Node → List Nat
  | .leaf _ entries => entries.map LeafEntry.len
  | .internal _ entries => entries.map Separator.len

/-- `node_will_fit`. -/
def willFit (lens : List Nat) (payloadLen : Nat) : Bool :=
  HEADER_SIZE + (lens.length + 1) * SLOT_SIZE + payloadLen ≤ PAGE_SIZE - lens.sum

/-- The capacity check of `rebuild`. -/
def canRebuild (lens : List Nat) : Bool :=
  (HEADER_SIZE - NODE_TYPE_START) + lens.length * SLOT_SIZE + lens.sum ≤ PAGE_SIZE - NODE_TYPE_START

def upperBound (entries : List Separator) (key : Bytes) : Nat := searchSlots (·.key ≤ key) entries

def upperBoundLeaf (entries : List LeafEntry) (sortKey : Bytes) : Nat := searchSlots (·.sortKey ≤ sortKey) entries

def lowerBoundLeaf (entries : List LeafEntry) (key : Bytes) : Nat := searchSlots (·.sortKey < key) entries

/-- `upper_bound_in`: the partition point of entries that are in order. -/
def upperBoundIn (entries : List Separator) (key : Bytes) : Nat := (entries.takeWhile (·.key ≤ key)).length

def upperBoundInLeaf (entries : List LeafEntry) (sortKey : Bytes) : Nat :=
  (entries.takeWhile (·.sortKey ≤ sortKey)).length

def childForKey (pageId : Nat) (tail : Option Nat) (entries : List Separator) (key : Bytes) :
    Except BTreeError Nat :=
  match upperBound entries key with
  | 0 => tail.elim (.error (.corruptPage pageId)) .ok
  | slot + 1 => entries[slot]?.elim (.error (.corruptPage pageId)) fun entry => .ok entry.child

def reachTarget (target : Nat) : List Nat → Nat → Nat → Option Nat
  | [], _, _ => none
  | len :: rest, index, running =>
    let running := running + (SLOT_SIZE + len)
    if target ≤ running then some index else reachTarget target rest (index + 1) running

def byteBalancedSplitPoint (lens : List Nat) : Nat :=
  (reachTarget ((lens.map (SLOT_SIZE + ·)).sum / 2) lens 0 0).getD (lens.length - 1)

def leafSplitPoint (lens : List Nat) : Nat :=
  min (max (byteBalancedSplitPoint lens + 1) 1) (lens.length - 1)

def internalSplitPoint (lens : List Nat) : Nat :=
  let mid := byteBalancedSplitPoint lens
  if 3 ≤ lens.length then min (max mid 1) (lens.length - 2) else min mid (lens.length - 1)

end BTree

/-- The pages of the file, those of an index as nodes. Page 0 is the header; as a tail it stands for no page. -/
structure NodeStore where
  nodes : Nat → BTree.Node
  pages : Nat
  header : 0 < pages

namespace NodeStore
open BTree Function

def write (store : NodeStore) (pageId : Nat) (node : Node) : NodeStore :=
  { store with nodes := update store.nodes pageId node }

def newPage (store : NodeStore) : NodeStore :=
  { store with
    pages := store.pages + 1
    header := Nat.succ_pos _ }

structure Failure where
  error : BTreeError
  store : NodeStore

def rebuild (store : NodeStore) (pageId : Nat) (node : Node) : Except Failure NodeStore :=
  if canRebuild node.lens then .ok (store.write pageId node) else .error ⟨.nodeOverflow pageId, store⟩

def descendToLeaf (store : NodeStore) (key : Bytes) : Nat → Nat → Except BTreeError Nat
  | 0, _ => .error .endless
  | fuel + 1, current =>
    match store.nodes current with
    | .leaf _ _ => .ok current
    | .internal tail entries => do
        let child ← childForKey current tail entries key
        descendToLeaf store key fuel child

def leftmostLeaf (store : NodeStore) : Nat → Nat → Except BTreeError Nat
  | 0, _ => .error .endless
  | fuel + 1, current =>
    match store.nodes current with
    | .leaf _ _ => .ok current
    | .internal tail _ => tail.elim (.error (.corruptPage current)) (leftmostLeaf store fuel)

def descendForInsert (store : NodeStore) (sortKey : Bytes) (leafPayloadLen : Nat) :
    Nat → Nat → List Nat → Except BTreeError (List Nat × Nat)
  | 0, _, _ => .error .endless
  | fuel + 1, current, ancestors =>
    match store.nodes current with
    | .leaf tail entries =>
      let fits := willFit (Node.leaf tail entries).lens leafPayloadLen
      .ok (if fits then [] else ancestors, current)
    | .internal tail entries => do
        let child ← childForKey current tail entries sortKey
        let safe := willFit (Node.internal tail entries).lens MAX_INTERNAL_PUSH_UP_SIZE
        descendForInsert store sortKey leafPayloadLen fuel child (current :: if safe then [] else ancestors)

/-- The result has the first sort key of the right leaf, which is on the page that was next. -/
def splitLeaf (store : NodeStore) (leaf : Nat) (tail : Option Nat) (entries : List LeafEntry) :
    Except Failure (NodeStore × Bytes) :=
  let mid := leafSplitPoint (entries.map LeafEntry.len)
  match entries[mid]? with
  | none => .error ⟨.corruptPage leaf, store⟩
  | some first => do
      let right := store.pages
      let store ← store.newPage.rebuild right (.leaf tail (entries.drop mid))
      let store ← store.rebuild leaf (.leaf (some right) (entries.take mid))
      return (store, first.sortKey)

/-- `left` was split, and `pushedRight` holds what is from `pushedKey` on. The result has the root if it is new. -/
def pushUp (store : NodeStore) (left : Nat) (pushedKey : Bytes) (pushedRight : Nat) :
    List Nat → Except Failure (NodeStore × Option Nat)
  | [] => do
      let newRoot := store.pages
      let store ← store.newPage.rebuild newRoot (.internal (some left) [⟨pushedKey, pushedRight⟩])
      return (store, some newRoot)
  | parent :: ancestors =>
    match store.nodes parent with
    | .leaf _ _ => .error ⟨.corruptPage parent, store⟩
    | .internal tail entries =>
      let pushed : Separator := ⟨pushedKey, pushedRight⟩
      if willFit (Node.internal tail entries).lens pushed.len then
        .ok (store.write parent (.internal tail (entries.insertIdx (upperBound entries pushedKey) pushed)), none)
      else
        match tail with
        | none => .error ⟨.corruptPage parent, store⟩
        | some oldTail =>
          let entries' := entries.insertIdx (upperBoundIn entries pushedKey) pushed
          let splitAt := internalSplitPoint (entries'.map Separator.len)
          match entries'[splitAt]? with
          | none => .error ⟨.corruptPage parent, store⟩
          | some pushedEntry => do
              let right := store.pages
              let store ← store.newPage.rebuild right
                (.internal (some pushedEntry.child) (entries'.drop (splitAt + 1)))
              let store ← store.rebuild parent (.internal (some oldTail) (entries'.take splitAt))
              pushUp store parent pushedEntry.key right ancestors

end NodeStore

structure BTreeIndex where
  store : NodeStore
  rootPageId : Nat

namespace BTreeIndex
open BTree

def create (store : NodeStore) : BTreeIndex where
  store := store.newPage.write store.pages (.leaf none [])
  rootPageId := store.pages

def insert (index : BTreeIndex) (key : Bytes) (row : RowId) : Except NodeStore.Failure BTreeIndex :=
  if MAX_KEY_SIZE < key.length then .error ⟨.keyTooLarge key.length, index.store⟩
  else
    let entry : LeafEntry := { key, row }
    match index.store.descendForInsert entry.sortKey entry.len index.store.pages index.rootPageId [] with
    | .error failure => .error ⟨failure, index.store⟩
    | .ok (ancestors, leaf) =>
      match index.store.nodes leaf with
      | .internal _ _ => .error ⟨.corruptPage leaf, index.store⟩
      | .leaf tail entries =>
        if willFit (Node.leaf tail entries).lens entry.len then
          let entries' := entries.insertIdx (upperBoundLeaf entries entry.sortKey) entry
          .ok { index with store := index.store.write leaf (.leaf tail entries') }
        else do
          let entries' := entries.insertIdx (upperBoundInLeaf entries entry.sortKey) entry
          let split ← index.store.splitLeaf leaf tail entries'
          let pushed ← split.1.pushUp leaf split.2 index.store.pages ancestors
          return { store := pushed.1, rootPageId := pushed.2.getD index.rootPageId }

def getFrom (store : NodeStore) (key : Bytes) : Nat → Nat → Except BTreeError (List RowId)
  | 0, _ => .error .endless
  | fuel + 1, current =>
    match store.nodes current with
    | .internal _ _ => .error (.corruptPage current)
    | .leaf tail entries =>
      let rest := entries.drop (lowerBoundLeaf entries key)
      let found := (rest.takeWhile (·.key == key)).map LeafEntry.row
      if found.length = rest.length then
        match tail with
        | none => .ok found
        | some next => do
            let more ← getFrom store key fuel next
            return found ++ more
      else .ok found

def get (index : BTreeIndex) (key : Bytes) : Except BTreeError (List RowId) := do
  let leaf ← index.store.descendToLeaf key index.store.pages index.rootPageId
  getFrom index.store key index.store.pages leaf

def leafForStart (index : BTreeIndex) : Option Bytes → Except BTreeError Nat
  | some key => index.store.descendToLeaf key index.store.pages index.rootPageId
  | none => index.store.leftmostLeaf index.store.pages index.rootPageId

inductive LeafScan where
  | entry (entry : LeafEntry)
  | endOfLeaf (nextLeafPageId : Option Nat)
deriving DecidableEq

def scanSlot (entries : List LeafEntry) : Option Bytes → Nat
  | none => 0
  | some sortKey =>
    let slot := lowerBoundLeaf entries sortKey
    if entries[slot]?.any (·.sortKey == sortKey) then slot + 1 else slot

def scanLeaf (store : NodeStore) (pageId : Nat) (after : Option Bytes) : Except BTreeError LeafScan :=
  match store.nodes pageId with
  | .internal _ _ => .error (.corruptPage pageId)
  | .leaf tail entries =>
    match entries[scanSlot entries after]? with
    | none => .ok (.endOfLeaf tail)
    | some entry => .ok (.entry entry)

inductive RangeState where
  | notStarted (start : Option Bytes)
  | inLeaf (pageId : Nat) (after : Option Bytes)
  | done

/-- One round of the loop of `BTreeRangeIterator::next`, and the item it returns. An index scan goes on from leaf to
leaf in the same way. -/
def rangeRound (index : BTreeIndex) (stop : Option Bytes) :
    RangeState → RangeState × Option (Except BTreeError LeafEntry)
  | .done => (.done, none)
  | .notStarted start =>
    match index.leafForStart start with
    | .error failure => (.done, some (.error failure))
    | .ok pageId => (.inLeaf pageId start, none)
  | .inLeaf pageId after =>
    match scanLeaf index.store pageId after with
    | .error failure => (.done, some (.error failure))
    | .ok (.endOfLeaf none) => (.done, none)
    | .ok (.endOfLeaf (some next)) => (.inLeaf next after, none)
    | .ok (.entry entry) =>
      if stop.any (· ≤ entry.key) then (.done, none)
      else (.inLeaf pageId (some entry.sortKey), some (.ok entry))

def collect (index : BTreeIndex) (stop : Option Bytes) : Nat → RangeState → List (Except BTreeError LeafEntry)
  | _, .done => []
  | 0, _ => [.error .endless]
  | fuel + 1, state =>
    let round := rangeRound index stop state
    round.2.toList ++ collect index stop fuel round.1

def rounds (store : NodeStore) : Nat :=
  ((List.range store.pages).map fun pageId => (store.nodes pageId).lens.length + 1).sum + 1

def rangeScan (index : BTreeIndex) (start stop : Option Bytes) : List (Except BTreeError LeafEntry) :=
  collect index stop (rounds index.store) (.notStarted start)

def inOrder (store : NodeStore) : Nat → Nat → List LeafEntry
  | 0, _ => []
  | fuel + 1, pageId =>
    match store.nodes pageId with
    | .leaf _ entries => entries
    | .internal tail entries =>
      tail.toList.flatMap (inOrder store fuel) ++ entries.flatMap fun entry => inOrder store fuel entry.child

def entries (index : BTreeIndex) : List LeafEntry := inOrder index.store index.store.pages index.rootPageId

inductive Violation where
  | shared (pageId : Nat)
  | notIncreasing (pageId : Nat)
  | belowBound (pageId : Nat)
  | notBelowBound (pageId : Nat)
  | depth (pageId : Nat) (depth expected : Nat)
  | noTail (pageId : Nat)
  | chain (viaTail leaves : List Nat)
  | read (failure : BTreeError)
deriving DecidableEq

structure InvariantState where
  visited : List Nat
  leafDepth : Option Nat
  leaves : List Nat

def checkBounds (pageId : Nat) (bounds : Option Bytes × Option Bytes) : List Bytes → Except Violation Unit
  | [] => .ok ()
  | key :: rest =>
    if bounds.1.any (key < ·) then .error (.belowBound pageId)
    else if bounds.2.any (· ≤ key) then .error (.notBelowBound pageId)
    else checkBounds pageId bounds rest

def checkKeys (pageId : Nat) (bounds : Option Bytes × Option Bytes) (keys : List Bytes) : Except Violation Unit :=
  if keys.IsChain (· < ·) then checkBounds pageId bounds keys else .error (.notIncreasing pageId)

def childBounds (low high : Option Bytes) (child : Nat) : List Separator → List (Nat × Option Bytes × Option Bytes)
  | [] => [(child, low, high)]
  | entry :: rest => (child, low, some entry.key) :: childBounds (some entry.key) high entry.child rest

def checkNode (store : NodeStore) :
    Nat → Nat → Option Bytes × Option Bytes → Nat → InvariantState → Except Violation InvariantState
  | 0, _, _, _, _ => .error (.read .endless)
  | fuel + 1, pageId, bounds, depth, state =>
    if pageId ∈ state.visited then .error (.shared pageId)
    else
      let state := { state with visited := pageId :: state.visited }
      match store.nodes pageId with
      | .leaf _ entries => do
          checkKeys pageId bounds (entries.map LeafEntry.sortKey)
          match state.leafDepth with
          | none => .ok { state with leafDepth := some depth, leaves := state.leaves ++ [pageId] }
          | some expected =>
            if expected = depth then .ok { state with leaves := state.leaves ++ [pageId] }
            else .error (.depth pageId depth expected)
      | .internal tail entries => do
          checkKeys pageId bounds (entries.map Separator.key)
          match tail with
          | none => .error (.noTail pageId)
          | some first =>
            (childBounds bounds.1 bounds.2 first entries).foldlM
              (fun state child => checkNode store fuel child.1 child.2 (depth + 1) state) state

def viaTail (store : NodeStore) : Nat → Nat → Except BTreeError (List Nat)
  | 0, _ => .error .endless
  | fuel + 1, current =>
    match (store.nodes current).tail with
    | none => .ok [current]
    | some next => do
        let rest ← viaTail store fuel next
        return current :: rest

/-- `check_invariants`, as far as it is about entries; the layout of the bytes of a page is below this model. -/
def checkInvariants (fuel : Nat) (index : BTreeIndex) : Except Violation Unit := do
  let state ← checkNode index.store fuel index.rootPageId (none, none) 0 ⟨[], none, []⟩
  let leaves ← ((index.store.leftmostLeaf fuel index.rootPageId).bind (viaTail index.store fuel)).mapError .read
  if leaves = state.leaves then .ok () else .error (.chain leaves state.leaves)

end BTreeIndex

/-- An index with the pages that have been its root; other pages are allocated in between. -/
structure IndexHistory where
  index : BTreeIndex
  roots : List Nat

namespace IndexHistory
open BTree

inductive Action where
  | insert (key : Bytes) (row : RowId)
  | newPage

def step (history : IndexHistory) : Action → Option IndexHistory
  | .insert key row =>
    match history.index.insert key row with
    | .error failure => some { history with index := { history.index with store := failure.store } }
    | .ok index => some { index, roots := index.rootPageId :: history.roots }
  | .newPage => some { history with index := { history.index with store := history.index.store.newPage } }

def system : System IndexHistory Action where
  init history := ∃ store, history = ⟨.create store, [(BTreeIndex.create store).rootPageId]⟩
  step := step

def Fresh (history : IndexHistory) : Action → Prop
  | .insert key row => ⟨key, row⟩ ∉ history.index.entries
  | .newPage => True

end IndexHistory

end SimpleRdbms.Storage
