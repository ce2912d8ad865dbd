import SimpleRdbms.Lib.Results
import SimpleRdbms.Storage.Heap

namespace SimpleRdbms.Storage
open Heap Lib

theorem readBytes_overwrite_outside {data : PageData} {offset start len : Nat} {bytes : List UInt8}
    (apart : start + len ≤ offset ∨ offset + bytes.length ≤ start) :
    readBytes (overwrite data offset bytes) start len = readBytes data start len :=
  readBytes_congr fun _ _ _ => overwrite_outside (by omega)

theorem readU16_overwrite_outside {data : PageData} {offset start : Nat} {bytes : List UInt8}
    (apart : start + 2 ≤ offset ∨ offset + bytes.length ≤ start) :
    readU16 (overwrite data offset bytes) start = readU16 data start := by
  rw [readU16, readU16, readBytes_overwrite_outside apart]

theorem overwrite_append (data : PageData) (offset : Nat) (first second : List UInt8) :
    overwrite data offset (first ++ second) =
      overwrite (overwrite data offset first) (offset + first.length) second := by
  funext i
  simp only [overwrite]
  by_cases below : offset ≤ i
  · by_cases inFirst : i - offset < first.length
    · rw [if_pos below, if_neg (by omega), if_pos below, List.getElem?_append_left inFirst]
    · rw [if_pos below, if_pos (by omega), if_pos below, List.getElem?_append_right (by omega),
        List.getElem?_eq_none (Nat.not_lt.mp inFirst), Nat.sub_sub]
      rfl
  · rw [if_neg below, if_neg (by omega), if_neg below]

theorem readU16_overwrite {data : PageData} {offset value : Nat} (small : value < 2 ^ 16) :
    readU16 (overwrite data offset (leBytes 2 value)) offset = value := by
  have read := readBytes_overwrite data offset (leBytes 2 value)
  rw [leBytes_length] at read
  rw [readU16, read, leValue_leBytes small]

theorem readU16_overwrite_pair (data : PageData) (offset : Nat) {first second : Nat} (smallFirst : first < 2 ^ 16)
    (smallSecond : second < 2 ^ 16) :
    readU16 (overwrite data offset (leBytes 2 first ++ leBytes 2 second)) offset = first ∧
      readU16 (overwrite data offset (leBytes 2 first ++ leBytes 2 second)) (offset + 2) = second := by
  rw [overwrite_append, leBytes_length]
  refine ⟨?_, readU16_overwrite smallSecond⟩
  rw [readU16_overwrite_outside (.inl le_rfl), readU16_overwrite smallFirst]

theorem readBytes_append (data : PageData) (start first second : Nat) :
    readBytes data start (first + second) = readBytes data start first ++ readBytes data (start + first) second := by
  simp only [readBytes, List.range_add, List.map_append, List.map_map, Function.comp_def, Nat.add_assoc]

theorem readBytes_patch {data : PageData} {start len offset : Nat} {bytes : Bytes}
    (inside : offset + bytes.length ≤ len) :
    readBytes (overwrite data (start + offset) bytes) start len =
      HeapHistory.patch (readBytes data start len) offset bytes := by
  obtain ⟨rest, rfl⟩ := Nat.exists_eq_add_of_le inside
  rw [readBytes_append, readBytes_append, readBytes_overwrite, readBytes_overwrite_outside (.inl le_rfl),
    readBytes_overwrite_outside (.inr (by omega)), HeapHistory.patch, readBytes_append data, readBytes_append data]
  rw [List.take_append_of_le_length (by simp), List.take_append_of_le_length (by simp),
    List.take_of_length_le (by simp), List.drop_append_of_le_length (by simp), List.drop_of_length_le (by simp),
    List.nil_append]

structure Entry where
  offset : Nat
  length : Nat
  bytes : Option Bytes

def Entry.stored (entry : Entry) : Nat := if entry.bytes.isSome then entry.length else 0

inductive Packed : Nat → List Entry → Nat → Prop where
  | nil (top : Nat) : Packed top [] top
  | cons {top bottom : Nat} {entry : Entry} {rest : List Entry} (adjacent : entry.offset + entry.length = top)
      (nonempty : 0 < entry.length) (below : Packed entry.offset rest bottom) : Packed top (entry :: rest) bottom

namespace Packed

variable {top bottom : Nat} {entries : List Entry}

section
variable (packed : Packed top entries bottom)
include packed

theorem bottom_le : bottom ≤ top := by
  induction packed with
  | nil => exact le_rfl
  | cons adjacent _ _ ih => omega

theorem within :
    ∀ entry ∈ entries, bottom ≤ entry.offset ∧ entry.offset + entry.length ≤ top ∧ 0 < entry.length := by
  induction packed with
  | nil => simp
  | cons adjacent nonempty below ih =>
    intro entry member
    rcases List.mem_cons.mp member with rfl | member
    · exact ⟨below.bottom_le, adjacent.le, nonempty⟩
    · have := ih entry member
      omega

theorem pairwise :
    entries.Pairwise fun earlier later => later.offset + later.length ≤ earlier.offset := by
  induction packed with
  | nil => exact .nil
  | cons adjacent _ below ih => exact .cons (fun later member => (below.within later member).2.1) ih

theorem append {entry : Entry} (adjacent : entry.offset + entry.length = bottom)
    (nonempty : 0 < entry.length) : Packed top (entries ++ [entry]) entry.offset := by
  induction packed with
  | nil => exact .cons adjacent nonempty (.nil _)
  | cons first isNonempty _ ih => exact .cons first isNonempty (ih adjacent)

theorem set {slot : Nat} {old entry : Entry} (found : entries[slot]? = some old)
    (sameOffset : entry.offset = old.offset) (sameLength : entry.length = old.length) :
    Packed top (entries.set slot entry) bottom := by
  induction packed generalizing slot with
  | nil => cases found
  | cons adjacent nonempty below ih =>
    cases slot with
    | zero =>
      cases found
      refine .cons (by omega) (by omega) ?_
      rwa [sameOffset]
    | succ slot => exact .cons adjacent nonempty (ih found)

end

end Packed

theorem slotOffset_eq (slot : Nat) : slotOffset slot = 20 + slot * 4 := rfl

structure Holds (data : PageData) (slot : Nat) (entry : Entry) : Prop where
  offset : readU16 data (slotOffset slot) = entry.offset
  stored : readU16 data (slotOffset slot + 2) = entry.stored
  tuple : ∀ bytes ∈ entry.bytes, bytes.length = entry.length ∧ readBytes data entry.offset entry.length = bytes

theorem Holds.congr {data data' : PageData} {slot : Nat} {entry : Entry} (holds : Holds data slot entry)
    (sameSlot : ∀ i, slotOffset slot ≤ i → i < slotOffset slot + 4 → data' i = data i)
    (sameTuple : ∀ i, entry.offset ≤ i → i < entry.offset + entry.length → data' i = data i) :
    Holds data' slot entry := by
  refine ⟨?_, ?_, fun bytes isBytes => ?_⟩
  · rw [← holds.offset, readU16, readU16]
    exact congrArg leValue (readBytes_congr fun i low high => sameSlot i low (by omega))
  · rw [← holds.stored, readU16, readU16]
    exact congrArg leValue (readBytes_congr fun i low high => sameSlot i (by omega) (by omega))
  · rw [readBytes_congr sameTuple]
    exact holds.tuple bytes isBytes

structure Slotted (data : PageData) (entries : List Entry) : Prop where
  count : slottedSlotCount data = entries.length
  packed : Packed PAGE_SIZE entries (slottedDataStart data)
  room : slotOffset entries.length ≤ slottedDataStart data
  slots : ∀ slot entry, entries[slot]? = some entry → Holds data slot entry

theorem header_congr {data data' : PageData} (same : ∀ i, 12 ≤ i → i < 16 → data' i = data i) :
    slottedSlotCount data' = slottedSlotCount data ∧ slottedDataStart data' = slottedDataStart data := by
  constructor
  · exact congrArg leValue (readBytes_congr fun i low high => same i low (by rw [SLOT_COUNT_START] at high; omega))
  · refine congrArg (PAGE_SIZE - leValue ·) (readBytes_congr fun i low high => same i ?_ ?_)
    · rw [DATA_USED_START] at low
      omega
    · rw [DATA_USED_START] at high
      omega

theorem nextPageId_congr {data data' : PageData} (same : ∀ i, 16 ≤ i → i < 20 → data' i = data i) :
    slottedNextPageId data' = slottedNextPageId data := by
  rw [slottedNextPageId, slottedNextPageId, readBytes_congr same]

theorem nextPageId_init (data : PageData) : slottedNextPageId (SlottedPage.init data) = none := by
  have zeros : List.replicate 8 0 = leBytes 4 0 ++ leBytes 4 0 := by decide
  have read := readBytes_overwrite (overwrite data SLOT_COUNT_START (leBytes 4 0)) NEXT_PAGE_ID_START (leBytes 4 0)
  have link : readBytes (SlottedPage.init data) NEXT_PAGE_ID_START 4 = leBytes 4 0 := by
    rw [SlottedPage.init, zeros, overwrite_append]
    exact read
  rw [slottedNextPageId, link]
  rfl

theorem nextPageId_set (data : PageData) {next : Nat} (positive : 0 < next) (small : next < 2 ^ 32) :
    slottedNextPageId (SlottedPage.setNextPageId data next) = some next := by
  have read := readBytes_overwrite data NEXT_PAGE_ID_START (leBytes 4 next)
  rw [leBytes_length] at read
  rw [slottedNextPageId, SlottedPage.setNextPageId, read, leValue_leBytes small, if_neg positive.ne']

namespace Slotted

variable {data : PageData} {entries : List Entry} {pageId : Nat}

theorem slots_fit (slotted : Slotted data entries) : 20 + entries.length * 4 ≤ 4096 :=
  slotted.room.trans slotted.packed.bottom_le

theorem checkedSlotCount (slotted : Slotted data entries) : checkedSlotCount data pageId = .ok entries.length := by
  have := slotted.slots_fit
  have few : ¬MAX_SLOTS < entries.length := by
    simp only [MAX_SLOTS, PAGE_SIZE, HEADER_SIZE, SLOT_SIZE]
    omega
  rw [Storage.checkedSlotCount, slotted.count, if_neg few]

variable {slot : Nat} {entry : Entry}

theorem slotEntry_some (slotted : Slotted data entries) (found : entries[slot]? = some entry) :
    slottedSlotEntry data slot pageId = .ok (some (entry.offset, entry.stored)) := by
  have inside := (List.getElem?_eq_some_iff.mp found).1
  have holds := slotted.slots slot entry found
  rw [slottedSlotEntry, slotted.checkedSlotCount, ok_bind, if_neg (by omega), holds.offset, holds.stored]
  rfl

theorem slotEntry_none (slotted : Slotted data entries) (absent : entries[slot]? = none) :
    slottedSlotEntry data slot pageId = .ok none := by
  have outside := List.getElem?_eq_none_iff.mp absent
  rw [slottedSlotEntry, slotted.checkedSlotCount, ok_bind, if_pos outside]
  rfl

theorem tuple_within (slotted : Slotted data entries) (found : entries[slot]? = some entry) :
    slotOffset entries.length ≤ entry.offset ∧ entry.offset + entry.length ≤ PAGE_SIZE ∧ 0 < entry.length := by
  obtain ⟨low, high, nonempty⟩ := slotted.packed.within entry (List.mem_of_getElem? found)
  exact ⟨slotted.room.trans low, high, nonempty⟩

theorem read (slotted : Slotted data entries) (slot : Nat) :
    slottedRead data slot pageId = .ok (entries[slot]?.bind Entry.bytes) := by
  cases found : entries[slot]? with
  | none =>
    rw [slottedRead, slotted.slotEntry_none found]
    rfl
  | some entry =>
    rw [slottedRead, slotted.slotEntry_some found, ok_bind]
    simp only [readEntry, Option.bind_some, slotted.count]
    cases isBytes : entry.bytes with
    | none => rw [if_pos (by simp [Entry.stored, isBytes])]
    | some bytes =>
      obtain ⟨low, high, nonempty⟩ := slotted.tuple_within found
      have stored : entry.stored = entry.length := by simp [Entry.stored, isBytes]
      rw [stored, if_neg (by omega), if_neg (by omega), if_neg (by omega),
        ((slotted.slots slot entry found).tuple bytes isBytes).2]

theorem init (data : PageData) : Slotted (SlottedPage.init data) [] := by
  have zeros : List.replicate 8 0 = leBytes 2 0 ++ leBytes 2 0 ++ leBytes 4 0 := by decide
  have fields := readU16_overwrite_pair data SLOT_COUNT_START (show 0 < 2 ^ 16 by decide) (show 0 < 2 ^ 16 by decide)
  have count : slottedSlotCount (SlottedPage.init data) = 0 := by
    rw [slottedSlotCount, SlottedPage.init, zeros, overwrite_append, readU16_overwrite_outside (.inl (by decide))]
    exact fields.1
  have used : slottedDataUsed (SlottedPage.init data) = 0 := by
    rw [slottedDataUsed, SlottedPage.init, zeros, overwrite_append, readU16_overwrite_outside (.inl (by decide))]
    exact fields.2
  have start : slottedDataStart (SlottedPage.init data) = PAGE_SIZE := by rw [slottedDataStart, used, Nat.sub_zero]
  refine ⟨count, ?_, ?_, fun slot entry found => ?_⟩
  · rw [start]
    exact .nil _
  · rw [start]
    decide
  · cases found

theorem set (slotted : Slotted data entries) {data' : PageData} {old : Entry}
    (found : entries[slot]? = some old) (sameOffset : entry.offset = old.offset)
    (sameLength : entry.length = old.length)
    (outside : ∀ i, i < 20 ∨ (∃ other, other ≠ slot ∧ other < entries.length ∧ slotOffset other ≤ i ∧
      i < slotOffset other + 4) ∨
      (slotOffset entries.length ≤ i ∧ ¬(old.offset ≤ i ∧ i < old.offset + old.length)) → data' i = data i)
    (holds : Holds data' slot entry) : Slotted data' (entries.set slot entry) := by
  have header := header_congr fun i _ high => outside i (.inl (by omega))
  refine ⟨?_, ?_, ?_, fun other this isThis => ?_⟩
  · rw [header.1, List.length_set, slotted.count]
  · rw [header.2]
    exact slotted.packed.set found sameOffset sameLength
  · rw [header.2, List.length_set]
    exact slotted.room
  · by_cases same : other = slot
    · subst same
      rw [List.getElem?_set_self (List.getElem?_eq_some_iff.mp found).1] at isThis
      cases isThis
      exact holds
    · rw [List.getElem?_set_ne (Ne.symm same)] at isThis
      obtain ⟨low, -, -⟩ := slotted.tuple_within isThis
      have few := (List.getElem?_eq_some_iff.mp isThis).1
      refine (slotted.slots other this isThis).congr
        (fun i start stop => outside i (.inr (.inl ⟨other, same, few, start, stop⟩))) ?_
      intro i start stop
      refine outside i (.inr (.inr ⟨low.trans start, fun inside => ?_⟩))
      -- Two tuples do not overlap: the later one lies below the other.
      have apart := List.pairwise_iff_getElem.mp slotted.packed.pairwise
      obtain ⟨insideThis, isThis⟩ := List.getElem?_eq_some_iff.mp isThis
      obtain ⟨insideOld, isOld⟩ := List.getElem?_eq_some_iff.mp found
      rcases Nat.lt_or_gt_of_ne same with before | before
      · have := apart other slot insideThis insideOld before
        rw [isThis, isOld] at this
        omega
      · have := apart slot other insideOld insideThis before
        rw [isThis, isOld] at this
        omega

theorem delete (slotted : Slotted data entries) (found : entries[slot]? = some entry) :
    Slotted (overwrite data (slotOffset slot + 2) (leBytes 2 0)) (entries.set slot { entry with bytes := none }) := by
  obtain ⟨low, -, -⟩ := slotted.tuple_within found
  have inside := (List.getElem?_eq_some_iff.mp found).1
  rw [slotOffset_eq] at low
  refine slotted.set found rfl rfl (fun i apart => ?_) ⟨?_, ?_, fun bytes isBytes => by cases isBytes⟩
  · apply overwrite_outside
    rw [leBytes_length, slotOffset_eq]
    simp only [slotOffset_eq] at apart
    omega
  · rw [readU16_overwrite_outside (.inl le_rfl)]
    exact (slotted.slots slot entry found).offset
  · exact readU16_overwrite (by decide)

theorem update (slotted : Slotted data entries) {offset : Nat} {tuple bytes : Bytes}
    (found : entries[slot]? = some entry) (live : entry.bytes = some tuple)
    (inBounds : offset + bytes.length ≤ entry.length) :
    Slotted (overwrite data (entry.offset + offset) bytes)
      (entries.set slot { entry with bytes := some (HeapHistory.patch tuple offset bytes) }) := by
  obtain ⟨low, -, -⟩ := slotted.tuple_within found
  have inside := (List.getElem?_eq_some_iff.mp found).1
  have holds := slotted.slots slot entry found
  rw [slotOffset_eq] at low
  have length := (holds.tuple tuple live).1
  refine slotted.set found rfl rfl (fun i apart => ?_) ⟨?_, ?_, fun patched isPatched => ?_⟩
  · apply overwrite_outside
    simp only [slotOffset_eq] at apart
    omega
  · rw [readU16_overwrite_outside (.inl (by rw [slotOffset_eq]; omega))]
    exact holds.offset
  · rw [readU16_overwrite_outside (.inl (by rw [slotOffset_eq]; omega)), holds.stored]
    simp [Entry.stored, live]
  · cases isPatched
    have patchLength : (HeapHistory.patch tuple offset bytes).length = entry.length := by
      simp only [HeapHistory.patch, List.length_append, List.length_take, List.length_drop]
      omega
    refine ⟨patchLength, ?_⟩
    rw [← (holds.tuple tuple live).2]
    exact readBytes_patch inBounds

theorem setNextPageId (slotted : Slotted data entries) (next : Nat) :
    Slotted (SlottedPage.setNextPageId data next) entries := by
  have same (i : Nat) (apart : i < 16 ∨ 20 ≤ i) : SlottedPage.setNextPageId data next i = data i := by
    apply overwrite_outside
    rw [leBytes_length, NEXT_PAGE_ID_START]
    omega
  have header := header_congr fun i _ high => same i (.inl high)
  refine ⟨header.1.trans slotted.count, header.2 ▸ slotted.packed, header.2 ▸ slotted.room, fun slot entry found => ?_⟩
  obtain ⟨low, -, -⟩ := slotted.tuple_within found
  rw [slotOffset_eq] at low
  refine (slotted.slots slot entry found).congr (fun i start _ => ?_) fun i start _ => same i (.inr (by omega))
  rw [slotOffset_eq] at start
  exact same i (.inr (by omega))

section Place

variable {bytes : Bytes}

theorem place_outside (slotted : Slotted data entries)
    (fits : slotOffset (entries.length + 1) + bytes.length ≤ slottedDataStart data) {i : Nat}
    (apart : 16 ≤ i ∧ i < slotOffset entries.length ∨ slottedDataStart data ≤ i) :
    SlottedPage.place data bytes i = data i := by
  have pair (m n : Nat) : (leBytes 2 m ++ leBytes 2 n).length = 4 := by simp
  rw [slotOffset_eq] at fits apart
  rw [SlottedPage.place, slotted.count]
  rw [overwrite_outside (by rw [pair, SLOT_COUNT_START]; omega)]
  rw [overwrite_outside (by rw [pair, slotOffset_eq]; omega)]
  exact overwrite_outside (by omega)

theorem place_fields (slotted : Slotted data entries)
    (fits : slotOffset (entries.length + 1) + bytes.length ≤ slottedDataStart data) :
    slottedSlotCount (SlottedPage.place data bytes) = entries.length + 1 ∧
      slottedDataStart (SlottedPage.place data bytes) = slottedDataStart data - bytes.length ∧
      Holds (SlottedPage.place data bytes) entries.length
        ⟨slottedDataStart data - bytes.length, bytes.length, some bytes⟩ := by
  have top : slottedDataStart data ≤ 4096 := slotted.packed.bottom_le
  rw [slotOffset_eq] at fits
  have pair (m n : Nat) : (leBytes 2 m ++ leBytes 2 n).length = 4 := by simp
  rw [SlottedPage.place, slotted.count]
  generalize isStart : slottedDataStart data - bytes.length = start
  have used : PAGE_SIZE - start < 2 ^ 16 := by simp only [PAGE_SIZE]; omega
  have header := readU16_overwrite_pair (overwrite (overwrite data start bytes) (slotOffset entries.length)
    (leBytes 2 start ++ leBytes 2 bytes.length)) SLOT_COUNT_START (show entries.length + 1 < 2 ^ 16 by omega) used
  have newSlot := readU16_overwrite_pair (overwrite data start bytes) (slotOffset entries.length)
    (show start < 2 ^ 16 by omega) (show bytes.length < 2 ^ 16 by omega)
  refine ⟨header.1, ?_, ?_, ?_, fun content isContent => ?_⟩
  · rw [slottedDataStart, slottedDataUsed, show DATA_USED_START = SLOT_COUNT_START + 2 from rfl, header.2, PAGE_SIZE]
    omega
  · rw [readU16_overwrite_outside (.inr (by rw [pair, slotOffset_eq, SLOT_COUNT_START]; omega))]
    exact newSlot.1
  · rw [readU16_overwrite_outside (.inr (by rw [pair, slotOffset_eq, SLOT_COUNT_START]; omega))]
    exact newSlot.2
  · cases isContent
    refine ⟨rfl, ?_⟩
    simp only
    rw [readBytes_overwrite_outside (.inr (by rw [pair, SLOT_COUNT_START]; omega)),
      readBytes_overwrite_outside (.inr (by rw [pair, slotOffset_eq]; omega)), readBytes_overwrite]

theorem place (slotted : Slotted data entries) (nonempty : bytes ≠ [])
    (fits : slotOffset (entries.length + 1) + bytes.length ≤ slottedDataStart data) :
    Slotted (SlottedPage.place data bytes)
      (entries ++ [⟨slottedDataStart data - bytes.length, bytes.length, some bytes⟩]) := by
  obtain ⟨count, start, holds⟩ := slotted.place_fields fits
  refine ⟨?_, ?_, ?_, fun slot entry found => ?_⟩
  · rw [count, List.length_append]
    rfl
  · rw [start]
    exact slotted.packed.append (by simp only; omega) (List.length_pos_iff.mpr nonempty)
  · rw [start, List.length_append, List.length_singleton]
    omega
  · rcases Nat.lt_or_ge slot entries.length with old | new
    · rw [List.getElem?_append_left old] at found
      have above := (slotted.packed.within entry (List.mem_of_getElem? found)).1
      refine (slotted.slots slot entry found).congr (fun i low high => ?_) fun i low _ =>
        slotted.place_outside fits (.inr (above.trans low))
      rw [slotOffset_eq] at low high
      exact slotted.place_outside fits (.inl ⟨by omega, by rw [slotOffset_eq]; omega⟩)
    · rw [List.getElem?_append_right new, List.getElem?_singleton] at found
      split at found
      · cases found
        rwa [show slot = entries.length by omega]
      · cases found

theorem insert_some (slotted : Slotted data entries) (nonempty : bytes ≠ []) {data' : PageData} {slot : Nat}
    (inserted : SlottedPage.insert data bytes = some (data', slot)) :
    slot = entries.length ∧ slottedNextPageId data' = slottedNextPageId data ∧
      ∃ offset, Slotted data' (entries ++ [⟨offset, bytes.length, some bytes⟩]) := by
  unfold SlottedPage.insert at inserted
  split at inserted
  · cases inserted
  · rename_i fits
    cases inserted
    rw [slotted.count] at fits ⊢
    refine ⟨rfl, nextPageId_congr fun i low high => ?_, _, slotted.place nonempty (Nat.not_lt.mp fits)⟩
    exact slotted.place_outside (Nat.not_lt.mp fits) (.inl ⟨low, by rw [slotOffset_eq]; omega⟩)

theorem insert_empty (slotted : Slotted data []) (fits : bytes.length ≤ MAX_TUPLE_SIZE) :
    ∃ result, SlottedPage.insert data bytes = some result := by
  have start : slottedDataStart data = PAGE_SIZE := by
    have packed := slotted.packed
    generalize slottedDataStart data = bottom at packed
    cases packed
    rfl
  unfold SlottedPage.insert
  rw [slotted.count, start, if_neg]
  · exact ⟨_, rfl⟩
  · simp only [MAX_TUPLE_SIZE, PAGE_SIZE, HEADER_SIZE, SLOT_SIZE, slotOffset_eq, List.length_nil] at fits ⊢
    omega

end Place

end Slotted

end SimpleRdbms.Storage
