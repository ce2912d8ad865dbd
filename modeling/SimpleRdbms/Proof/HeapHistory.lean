import SimpleRdbms.Proof.HeapChain

namespace SimpleRdbms.Storage
open Function (update update_of_ne update_self)
open Heap Lib

theorem nextPageId_overwrite {data : PageData} {offset : Nat} {bytes : Bytes} (after : 20 ≤ offset) :
    slottedNextPageId (overwrite data offset bytes) = slottedNextPageId data :=
  nextPageId_congr fun i _ high => overwrite_outside (.inl (by omega))

namespace Slotted

variable {data : PageData} {entries : List Entry} {slot page : Nat} {entry : Entry}

theorem delete_ok (slotted : Slotted data entries) (page : Nat) (found : entries[slot]? = some entry) :
    ∃ data', SlottedPage.delete data slot page = .ok data' ∧ slottedNextPageId data' = slottedNextPageId data ∧
      Slotted data' (entries.set slot { entry with bytes := none }) := by
  refine ⟨_, ?_, nextPageId_overwrite ?_, slotted.delete found⟩
  · rw [SlottedPage.delete, slotted.slotEntry_some found, ok_bind]
    rfl
  · rw [slotOffset_eq]
    omega

theorem updateInPlace_ok (slotted : Slotted data entries) (found : entries[slot]? = some entry) {offset : Nat}
    {bytes : Bytes} {data' : PageData} (updated : SlottedPage.updateInPlace data slot page offset bytes = .ok data') :
    slottedNextPageId data' = slottedNextPageId data ∧
      Slotted data' (entries.set slot
        { entry with bytes := entry.bytes.bind fun tuple => some (HeapHistory.patch tuple offset bytes) }) := by
  obtain ⟨low, -, -⟩ := slotted.tuple_within found
  rw [slotOffset_eq] at low
  rw [SlottedPage.updateInPlace, slotted.slotEntry_some found, ok_bind] at updated
  simp only at updated
  split at updated
  · cases updated
  · rename_i nonempty
    split at updated
    · cases updated
    · rename_i inBounds
      cases updated
      cases live : entry.bytes with
      | none => simp [Entry.stored, live] at nonempty
      | some tuple =>
        have stored : entry.stored = entry.length := by simp [Entry.stored, live]
        exact ⟨nextPageId_overwrite (by omega), slotted.update found live (by omega)⟩

theorem updateInPlace_succeeds (slotted : Slotted data entries) (page : Nat) (found : entries[slot]? = some entry)
    {offset : Nat} {bytes : Bytes} (live : entry.bytes.isSome) (inBounds : offset + bytes.length ≤ entry.length) :
    ∃ data', SlottedPage.updateInPlace data slot page offset bytes = .ok data' := by
  obtain ⟨-, -, nonempty⟩ := slotted.tuple_within found
  have stored : entry.stored = entry.length := by simp [Entry.stored, live]
  rw [SlottedPage.updateInPlace, slotted.slotEntry_some found, ok_bind]
  simp only [stored]
  rw [if_neg (by omega), if_neg (by omega)]
  exact ⟨_, rfl⟩

end Slotted

namespace HeapHistory

def recordOf (entry : Entry) : RowRecord := ⟨entry.length, entry.bytes⟩

structure Recorded (history : HeapHistory) (ids : List Nat) (entries : Nat → List Entry) : Prop where
  chain : Chain history.heap history.store ids entries
  records : ∀ rid, history.records rid = (entries rid.pageId)[rid.slot]?.map recordOf

variable {history next : HeapHistory} {ids : List Nat} {entries : Nat → List Entry} {rid : Rid} {record : RowRecord}

namespace Recorded

section
variable (recorded : Recorded history ids entries)
include recorded

theorem found (isRecord : history.records rid = some record) :
    rid.pageId ∈ ids ∧ ∃ entry, (entries rid.pageId)[rid.slot]? = some entry ∧ record = recordOf entry := by
  rw [recorded.records] at isRecord
  obtain ⟨entry, found, isEntry⟩ := Option.map_eq_some_iff.mp isRecord
  refine ⟨?_, entry, found, isEntry.symm⟩
  by_contra notPage
  rw [recorded.chain.outside _ notPage] at found
  cases found

theorem inserted {store : PageStore} {bytes : Bytes}
    (isInserted : Chain.Inserted history.heap entries bytes store rid) :
    history.records rid = none ∧ ∃ ids' entries', Recorded (history.inserted store rid bytes) ids' entries' := by
  obtain ⟨isSlot, ids', offset, chain⟩ := isInserted
  constructor
  · rw [recorded.records, isSlot, List.getElem?_eq_none le_rfl]
    rfl
  · refine ⟨ids', _, chain, fun other => ?_⟩
    simp only [HeapHistory.inserted]
    by_cases same : other = rid
    · subst same
      rw [update_self, update_self, isSlot, List.getElem?_concat_length]
      rfl
    · rw [update_of_ne same, recorded.records]
      by_cases samePage : other.pageId = rid.pageId
      · have notSlot : other.slot ≠ (entries rid.pageId).length := fun isSlot' =>
          same (by cases other; cases rid; simp_all)
        rw [samePage, update_self]
        congr 1
        grind
      · rw [update_of_ne samePage]

theorem changed {data : PageData} {entry : Entry}
    {change : Bytes → Option Bytes} (found : (entries rid.pageId)[rid.slot]? = some entry) (member : rid.pageId ∈ ids)
    (sameLink : slottedNextPageId data = slottedNextPageId (history.store.pages rid.pageId))
    (slotted : Slotted data ((entries rid.pageId).set rid.slot { entry with bytes := entry.bytes.bind change })) :
    ∃ entries', Recorded (history.changed (history.store.write rid.pageId data) rid change) ids entries' := by
  refine ⟨_, recorded.chain.set member sameLink slotted, fun other => ?_⟩
  simp only [HeapHistory.changed]
  by_cases same : other = rid
  · subst same
    rw [update_self, update_self, List.getElem?_set_self (List.getElem?_eq_some_iff.mp found).1,
      recorded.records, found]
    rfl
  · rw [update_of_ne same, recorded.records]
    by_cases samePage : other.pageId = rid.pageId
    · have notSlot : rid.slot ≠ other.slot := fun isSlot => same (by cases other; cases rid; simp_all)
      rw [samePage, update_self, List.getElem?_set_ne notSlot]
    · rw [update_of_ne samePage]

theorem step {action : Action} (room : Unwrapped history action)
    (stepped : HeapHistory.step history action = some next) : ∃ ids' entries', Recorded next ids' entries' := by
  cases action with
  | insert bytes =>
    simp only [HeapHistory.step] at stepped
    split at stepped
    · cases stepped
    · rename_i allowed
      obtain ⟨nonempty, fits⟩ := not_or.mp allowed
      obtain ⟨store, rid, isOk, isInserted⟩ := recorded.chain.insertTuple nonempty (not_lt.mp fits) room
      rw [isOk] at stepped
      cases stepped
      exact (recorded.inserted isInserted).2
  | delete rid =>
    simp only [HeapHistory.step] at stepped
    split at stepped
    · cases stepped
    · rename_i isRecorded
      obtain ⟨record, isRecord⟩ := Option.ne_none_iff_exists'.mp (Option.isNone_iff_eq_none.not.mp isRecorded)
      obtain ⟨member, entry, found, -⟩ := recorded.found isRecord
      obtain ⟨data, deleted, sameLink, slotted⟩ :=
        (recorded.chain.slotted _ member).delete_ok rid.pageId found
      rw [TableHeap.deleteTuple, deleted, ok_bind] at stepped
      cases stepped
      refine ⟨ids, recorded.changed found member sameLink ?_⟩
      rwa [show entry.bytes.bind (fun _ => none) = none by cases entry.bytes <;> rfl]
  | update rid offset bytes =>
    simp only [HeapHistory.step] at stepped
    split at stepped
    · cases stepped
    · rename_i isRecorded
      obtain ⟨record, isRecord⟩ := Option.ne_none_iff_exists'.mp (Option.isNone_iff_eq_none.not.mp isRecorded)
      obtain ⟨member, entry, found, -⟩ := recorded.found isRecord
      split at stepped
      · rename_i store isOk
        cases stepped
        obtain ⟨data, updated, isStore⟩ := bind_eq_ok.mp isOk
        cases isStore
        obtain ⟨sameLink, slotted⟩ := (recorded.chain.slotted _ member).updateInPlace_ok found updated
        exact ⟨ids, recorded.changed found member sameLink slotted⟩
      · cases stepped
        exact ⟨ids, entries, recorded⟩
  | newPage =>
    cases stepped
    exact ⟨ids, entries, recorded.chain.newPage room, recorded.records⟩

end

theorem init (isInit : system.init history) : ∃ ids entries, Recorded history ids entries := by
  obtain ⟨file, positive, room, created, none⟩ := isInit
  obtain ⟨isHeap, isStore⟩ := Prod.mk.inj created
  have next : file.newPage.2.next = file.next + 1 := Nat.mod_eq_of_lt room
  refine ⟨[file.next], fun _ => [], ?_, fun rid => by rw [none]; rfl⟩
  rw [← isHeap, ← isStore]
  refine ⟨rfl, List.nodup_singleton _, fun page member => ?_, next.trans_lt room, .last ?_, fun page member => ?_,
    fun _ _ => rfl⟩
  · rw [List.mem_singleton.mp member]
    exact ⟨positive, file.next.lt_succ_self.trans_eq next.symm⟩
  · simp only [PageStore.write, update_self]
    exact nextPageId_init _
  · rw [List.mem_singleton.mp member]
    simp only [PageStore.write, update_self]
    exact .init _

end Recorded

theorem recorded_of_reachable (reachable : system.ReachableBy Unwrapped history) :
    ∃ ids entries, Recorded history ids entries :=
  reachable.invariant (P := fun history => ∃ ids entries, Recorded history ids entries) (fun _ => Recorded.init)
    fun _ _ _ ⟨_, _, recorded⟩ room stepped => recorded.step room stepped

def Action.target : Action → Option Rid
  | .insert _ => none
  | .delete rid => some rid
  | .update rid _ _ => some rid
  | .newPage => none

def startOf (history : HeapHistory) (rid : Rid) : Nat := readU16 (history.store.pages rid.pageId) (slotOffset rid.slot)

def rows (history : HeapHistory) (ids : List Nat) : List (Rid × Bytes) :=
  ids.flatMap fun page =>
    (List.range (slottedSlotCount (history.store.pages page))).filterMap fun slot =>
      ((history.records ⟨page, slot⟩).bind RowRecord.bytes).map fun bytes => (⟨page, slot⟩, bytes)

structure Faithful (history : HeapHistory) (ids : List Nat) : Prop where
  first : ids.head? = some history.heap.firstPageId
  linked : Linked history.store ids
  acyclic : ids.Nodup
  recorded : ∀ rid, (history.records rid).isSome ↔
    rid.pageId ∈ ids ∧ rid.slot < slottedSlotCount (history.store.pages rid.pageId)
  read : ∀ rid record, history.records rid = some record → TableHeap.getTuple history.store rid = .ok record.bytes
  within : ∀ rid record, history.records rid = some record →
    slotOffset (slottedSlotCount (history.store.pages rid.pageId)) ≤ history.startOf rid ∧
      history.startOf rid + record.length ≤ PAGE_SIZE
  disjoint : ∀ page slot slot' record record', slot < slot' → history.records ⟨page, slot⟩ = some record →
    history.records ⟨page, slot'⟩ = some record' →
      history.startOf ⟨page, slot'⟩ + record'.length ≤ history.startOf ⟨page, slot⟩
  exact : ∀ rid record bytes, history.records rid = some record → record.bytes = some bytes →
    bytes.length = record.length ∧
      readU16 (history.store.pages rid.pageId) (slotOffset rid.slot + 2) = record.length ∧
      readBytes (history.store.pages rid.pageId) (history.startOf rid) record.length = bytes
  iterated : history.heap.iter history.store = .ok (history.rows ids)
  scanned : history.heap.scan history.store = .ok (history.rows ids)

namespace Recorded

theorem rowsFrom_eq (page slot : Nat) (all : List Entry) :
    rowsFrom page slot all = (List.range' slot all.length).filterMap fun i =>
      (all[i - slot]?.bind Entry.bytes).map fun bytes => (⟨page, i⟩, bytes) := by
  induction all generalizing slot with
  | nil => rfl
  | cons entry rest ih =>
    rw [rowsFrom_cons, ih, List.length_cons, List.range'_succ, List.filterMap_cons, Nat.sub_self,
      List.getElem?_cons_zero]
    have same : ((List.range' (slot + 1) rest.length).filterMap fun i =>
          (rest[i - (slot + 1)]?.bind Entry.bytes).map fun bytes => ((⟨page, i⟩, bytes) : Rid × Bytes)) =
        (List.range' (slot + 1) rest.length).filterMap fun i =>
          ((entry :: rest)[i - slot]?.bind Entry.bytes).map fun bytes => (⟨page, i⟩, bytes) := by
      refine List.filterMap_congr fun i member => ?_
      have low := (List.mem_range'_1.mp member).1
      rw [show i - slot = (i - (slot + 1)) + 1 by omega, List.getElem?_cons_succ]
    rw [same, Option.bind_some]
    cases entry.bytes <;> rfl

theorem rowsFrom_length (page slot : Nat) (all : List Entry) : (rowsFrom page slot all).length ≤ all.length := by
  rw [rowsFrom]
  exact (List.length_filterMap_le _ _).trans List.length_zipIdx.le

variable (recorded : Recorded history ids entries)
include recorded

theorem startOf {entry : Entry} (member : rid.pageId ∈ ids)
    (found : (entries rid.pageId)[rid.slot]? = some entry) : history.startOf rid = entry.offset :=
  ((recorded.chain.slotted _ member).slots _ _ found).offset

theorem rows : history.rows ids = liveRows ids entries := by
  refine List.flatMap_congr fun page member => ?_
  rw [(recorded.chain.slotted page member).count, rowsFrom_eq, List.range_eq_range']
  refine List.filterMap_congr fun slot _ => ?_
  rw [recorded.records, Nat.sub_zero]
  cases (entries page)[slot]? <;> rfl

theorem liveRows_length (pages : List Nat) (members : ∀ page ∈ pages, page ∈ ids) :
    (liveRows pages entries).length ≤ pages.length * MAX_SLOTS := by
  induction pages with
  | nil => exact Nat.zero_le _
  | cons page rest ih =>
    have others := ih fun other member => members other (List.mem_cons_of_mem _ member)
    have few := (recorded.chain.slotted page (members page List.mem_cons_self)).slots_fit
    have these := rowsFrom_length page 0 (entries page)
    simp only [liveRows, List.flatMap_cons, List.length_append, List.length_cons] at others ⊢
    have : MAX_SLOTS = 1019 := rfl
    rw [this] at others ⊢
    omega

theorem first : ∃ after, ids = history.heap.firstPageId :: after ∧ after.length + 1 < history.store.next ∧
    Chain history.heap history.store ([] ++ history.heap.firstPageId :: after) entries := by
  obtain ⟨after, rfl⟩ := recorded.chain.starts
  exact ⟨after, rfl, recorded.chain.length_lt, recorded.chain⟩

theorem iterated : history.heap.iter history.store = .ok (history.rows ids) := by
  obtain ⟨after, rfl, few, chain⟩ := recorded.first
  rw [TableHeap.iter, recorded.rows, chain.iterFrom (by omega)]

theorem scanned : history.heap.scan history.store = .ok (history.rows ids) := by
  obtain ⟨after, rfl, few, chain⟩ := recorded.first
  have all := recorded.liveRows_length (history.heap.firstPageId :: after) fun _ member => member
  have fuel : (after.length + 1) * (MAX_SLOTS + 1) ≤ history.store.next * (MAX_SLOTS + 1) :=
    Nat.mul_le_mul_right _ (by omega)
  rw [TableHeap.scan, recorded.rows, chain.sweep List.drop_zero]
  · rfl
  · simp only [liveRows, List.flatMap_cons, List.length_append, List.length_cons] at all ⊢
    have : MAX_SLOTS = 1019 := rfl
    rw [this] at all fuel ⊢
    omega

theorem faithful : Faithful history ids where
  first := recorded.chain.first
  linked := recorded.chain.linked
  acyclic := recorded.chain.distinct
  recorded rid := by
    constructor
    · intro isSome
      obtain ⟨record, isRecord⟩ := Option.isSome_iff_exists.mp isSome
      obtain ⟨member, entry, found, -⟩ := recorded.found isRecord
      rw [(recorded.chain.slotted _ member).count]
      exact ⟨member, (List.getElem?_eq_some_iff.mp found).1⟩
    · rintro ⟨member, inside⟩
      rw [(recorded.chain.slotted _ member).count] at inside
      rw [recorded.records, Option.isSome_map, List.getElem?_eq_getElem inside]
      rfl
  read rid record isRecord := by
    obtain ⟨member, entry, found, rfl⟩ := recorded.found isRecord
    rw [recorded.chain.getTuple member, found]
    rfl
  within rid record isRecord := by
    obtain ⟨member, entry, found, rfl⟩ := recorded.found isRecord
    have slotted := recorded.chain.slotted _ member
    rw [recorded.startOf member found, slotted.count]
    obtain ⟨low, high, -⟩ := slotted.tuple_within found
    exact ⟨low, high⟩
  disjoint page slot slot' record record' before isRecord isRecord' := by
    obtain ⟨member, entry, found, rfl⟩ := recorded.found isRecord
    obtain ⟨-, entry', found', rfl⟩ := recorded.found isRecord'
    have start' : history.startOf ⟨page, slot'⟩ = entry'.offset := recorded.startOf member found'
    rw [recorded.startOf member found, start']
    obtain ⟨inside, isEntry⟩ := List.getElem?_eq_some_iff.mp found
    obtain ⟨inside', isEntry'⟩ := List.getElem?_eq_some_iff.mp found'
    have apart := List.pairwise_iff_getElem.mp
      (recorded.chain.slotted _ member).packed.pairwise _ _ inside inside' before
    rwa [isEntry, isEntry'] at apart
  exact rid record bytes isRecord isBytes := by
    obtain ⟨member, entry, found, rfl⟩ := recorded.found isRecord
    have live : entry.bytes = some bytes := isBytes
    have holds := (recorded.chain.slotted _ member).slots _ _ found
    obtain ⟨length, read⟩ := holds.tuple bytes live
    have stored : entry.stored = entry.length := by simp [Entry.stored, live]
    rw [recorded.startOf member found]
    exact ⟨length, holds.stored.trans stored, read⟩
  iterated := recorded.iterated
  scanned := recorded.scanned

end Recorded

theorem others_kept (recorded : Recorded history ids entries) {action : Action} (room : Unwrapped history action)
    (stepped : HeapHistory.step history action = some next) (isRecord : history.records rid = some record)
    (notTarget : action.target ≠ some rid) : next.records rid = some record := by
  cases action with
  | insert bytes =>
    simp only [HeapHistory.step] at stepped
    split at stepped
    · cases stepped
    · rename_i allowed
      obtain ⟨nonempty, fits⟩ := not_or.mp allowed
      obtain ⟨store, new, isOk, isInserted⟩ := recorded.chain.insertTuple nonempty (not_lt.mp fits) room
      rw [isOk] at stepped
      cases stepped
      have different : rid ≠ new := by
        rintro rfl
        rw [(recorded.inserted isInserted).1] at isRecord
        cases isRecord
      exact (update_of_ne different _ _).trans isRecord
  | delete target | update target offset bytes =>
    have different : rid ≠ target := fun same => notTarget (congrArg some same.symm)
    simp only [HeapHistory.step] at stepped
    split at stepped
    · cases stepped
    · split at stepped
      all_goals cases stepped
      · exact (update_of_ne different _ _).trans isRecord
      · exact isRecord
  | newPage =>
    cases stepped
    exact isRecord

/-- While page ids last, the heap holds what the records say: insertions return new row ids, changes of live tuples
succeed, and other rows stay. -/
theorem heap_maps_row_ids (reachable : system.ReachableBy Unwrapped history) :
    (∃ ids, Faithful history ids) ∧
    (∀ bytes, bytes ≠ [] → bytes.length ≤ MAX_TUPLE_SIZE → Unwrapped history (.insert bytes) →
      ∃ store rid, history.heap.insertTuple history.store bytes = .ok (store, rid) ∧ history.records rid = none) ∧
    (∀ rid record, history.records rid = some record →
      (∃ store, TableHeap.deleteTuple history.store rid = .ok store) ∧
      ∀ offset bytes, record.bytes.isSome → offset + bytes.length ≤ record.length →
        ∃ store, TableHeap.updateTupleInPlace history.store rid offset bytes = .ok store) ∧
    ∀ action next rid, Unwrapped history action → step history action = some next → (history.records rid).isSome →
      action.target ≠ some rid → next.records rid = history.records rid ∧
        TableHeap.getTuple next.store rid = TableHeap.getTuple history.store rid := by
  obtain ⟨ids, entries, recorded⟩ := recorded_of_reachable reachable
  refine ⟨⟨ids, recorded.faithful⟩, fun bytes nonempty fits room => ?_, fun rid record isRecord => ?_,
    fun action next rid room stepped isSome notTarget => ?_⟩
  · obtain ⟨store, rid, isOk, isInserted⟩ := recorded.chain.insertTuple nonempty fits room
    exact ⟨store, rid, isOk, (recorded.inserted isInserted).1⟩
  · obtain ⟨member, entry, found, rfl⟩ := recorded.found isRecord
    have slotted := recorded.chain.slotted _ member
    constructor
    · obtain ⟨data, deleted, -, -⟩ := slotted.delete_ok rid.pageId found
      exact ⟨_, by rw [TableHeap.deleteTuple, deleted, ok_bind]; rfl⟩
    · intro offset bytes live inBounds
      obtain ⟨data, updated⟩ := slotted.updateInPlace_succeeds rid.pageId found live inBounds
      exact ⟨_, by rw [TableHeap.updateTupleInPlace, updated, ok_bind]; rfl⟩
  · obtain ⟨record, isRecord⟩ := Option.isSome_iff_exists.mp isSome
    have kept := others_kept recorded room stepped isRecord notTarget
    obtain ⟨ids', entries', recorded'⟩ := recorded.step room stepped
    rw [kept, isRecord, recorded.faithful.read rid record isRecord, recorded'.faithful.read rid record kept]
    exact ⟨rfl, rfl⟩

def newHeap : HeapHistory where
  heap := ⟨1⟩
  store := PageStore.write ⟨update (fun _ => zeroData) 1 zeroData, 2⟩ 1 (SlottedPage.init zeroData)
  records := fun _ => none

theorem newHeap_reachable : system.ReachableBy Unwrapped newHeap :=
  .start ⟨⟨fun _ => zeroData, 1⟩, by decide, by decide, rfl, rfl⟩

def twoRows : List Action := [.insert [7, 9], .insert [1, 2, 3], .delete ⟨1, 0⟩, .update ⟨1, 1⟩ 1 [5]]

theorem heap_maps_row_ids_two :
    ∃ history, system.ReachableBy Unwrapped history ∧ (∃ ids, Faithful history ids) ∧
      TableHeap.getTuple history.store ⟨1, 0⟩ = .ok none ∧
      TableHeap.getTuple history.store ⟨1, 1⟩ = .ok (some [1, 5, 3]) := by
  have found : (system.runBy Unwrapped newHeap twoRows).any
    (fun history => decide (history.records ⟨1, 0⟩ = some ⟨2, none⟩ ∧
      history.records ⟨1, 1⟩ = some ⟨3, some [1, 5, 3]⟩)) = true := by decide +kernel
  obtain ⟨history, executed, found⟩ := (Option.any_eq_true _ _).mp found
  obtain ⟨deleted, updated⟩ := of_decide_eq_true found
  have faithful := (heap_maps_row_ids (newHeap_reachable.runBy executed)).1
  exact ⟨history, newHeap_reachable.runBy executed, faithful, faithful.choose_spec.read ⟨1, 0⟩ _ deleted,
    faithful.choose_spec.read ⟨1, 1⟩ _ updated⟩

end HeapHistory

end SimpleRdbms.Storage
