import SimpleRdbms.Lib.Results
import SimpleRdbms.Storage.BTreePage

namespace SimpleRdbms.Storage.BTreePage
open BTree Lib

variable {α β : Type} {P : α → Prop} {Q : β → Prop} {m : Read α} {bytes payload key : Bytes}
    {pageId slot count trailer : Nat}

inductive Orderly (P : α → Prop) : Read α → Prop
  | ok {a : α} : P a → Orderly P (.ok a)
  | corruptPage {reason : CorruptPage} : Orderly P (.error (.corruptPage reason))

theorem Orderly.bind {f : α → Read β} (first : Orderly P m) (rest : ∀ a, m = .ok a → P a → Orderly Q (f a)) :
    Orderly Q (m >>= f) := by
  cases first with
  | ok holds => exact rest _ rfl holds
  | corruptPage => exact .corruptPage

theorem orderly_bind_iff {f : α → Read β} (orderly : Orderly P m) :
    Orderly Q (m >>= f) ↔ ∀ a, m = .ok a → Orderly Q (f a) := by
  cases orderly with
  | ok => exact ⟨fun all _ same => Except.ok.inj same ▸ all, fun all => all _ rfl⟩
  | corruptPage => exact ⟨fun _ => nofun, fun _ => .corruptPage⟩

theorem Orderly.of_bind {f : α → Read β} (orderly : Orderly Q (m >>= f)) : Orderly (fun _ => True) m := by
  cases m with
  | ok a => exact .ok trivial
  | error failure =>
    cases orderly
    exact .corruptPage

theorem not_orderly_panic : ¬ Orderly P (.error .panic) := by
  intro orderly
  cases orderly

theorem byteAt_of_lt {index : Nat} (inside : index < bytes.length) : byteAt bytes index = .ok (bytes[index]) := by
  rw [byteAt, List.getElem?_eq_getElem inside]
  rfl

theorem readU16_inside {start : Nat} (inside : start + 2 ≤ bytes.length) :
    readU16 bytes start = .ok (leValue ((bytes.drop start).take 2)) := by
  rw [readU16, byteAt_of_lt (by omega), ok_bind, byteAt_of_lt (by omega), ok_bind]
  refine congrArg (Except.ok ∘ leValue) ?_
  rw [List.drop_eq_getElem_cons (by omega), List.drop_eq_getElem_cons (by omega), List.take_succ_cons,
    List.take_succ_cons, List.take_zero]

theorem readU32_inside {start : Nat} (inside : start + 4 ≤ bytes.length) :
    ∃ value, readU32 bytes start = .ok value := by
  rw [readU32, byteAt_of_lt (by omega), ok_bind, byteAt_of_lt (by omega), ok_bind, byteAt_of_lt (by omega), ok_bind,
    byteAt_of_lt (by omega), ok_bind]
  exact ⟨_, rfl⟩

theorem readU16_orderly {start : Nat} (inside : start + 2 ≤ bytes.length) :
    Orderly (fun _ => True) (readU16 bytes start) := by
  rw [readU16_inside inside]
  exact .ok trivial

theorem byteAt_cases (bytes : Bytes) (index : Nat) :
    (∃ byte, byteAt bytes index = .ok byte) ∨ byteAt bytes index = .error .panic := by
  unfold byteAt
  cases bytes[index]? with
  | none => exact .inr rfl
  | some byte => exact .inl ⟨byte, rfl⟩

theorem byteAt_outside {index : Nat} (outside : bytes.length ≤ index) : byteAt bytes index = .error .panic := by
  rw [byteAt, List.getElem?_eq_none outside]
  rfl

theorem readU16_outside {start : Nat} (outside : bytes.length < start + 2) : readU16 bytes start = .error .panic := by
  have last : byteAt bytes (start + 1) = .error .panic := byteAt_outside (by omega)
  rcases byteAt_cases bytes start with ⟨byte, first⟩ | first <;> rw [readU16, first]
  · rw [ok_bind, last]
    rfl
  · rfl

theorem readU32_outside {start : Nat} (outside : bytes.length < start + 4) : readU32 bytes start = .error .panic := by
  have last : byteAt bytes (start + 3) = .error .panic := byteAt_outside (by omega)
  rcases byteAt_cases bytes start with ⟨_, first⟩ | first <;> rw [readU32, first]
  · rcases byteAt_cases bytes (start + 1) with ⟨_, second⟩ | second <;> rw [ok_bind, second]
    · rcases byteAt_cases bytes (start + 2) with ⟨_, third⟩ | third <;> rw [ok_bind, third]
      · rw [ok_bind, last]
        rfl
      · rfl
    · rfl
  · rfl

theorem bisect_orderly {goRight : Nat → Read Bool} (orderly : ∀ mid, Orderly (fun _ => True) (goRight mid))
    (low high : Nat) :
    Orderly (fun _ => True) (bisect goRight low high) := by
  fun_induction bisect goRight low high with
  | case1 low high _ mid right left =>
    refine (orderly mid).bind fun goes _ _ => ?_
    cases goes with
    | true => exact right
    | false => exact left
  | case2 => exact .ok trivial

section
variable (size : bytes.length = PAGE_SIZE)
include size

theorem tailRaw_orderly : Orderly (fun _ => True) (tailRaw bytes) := by
  obtain ⟨id, read⟩ := readU32_inside (show TAIL_START + 4 ≤ bytes.length by rw [size]; decide)
  rw [tailRaw, read]
  exact .ok trivial

theorem checkedSlotCount_orderly : Orderly (· ≤ MAX_SLOTS) (checkedSlotCount bytes pageId) := by
  refine (readU16_orderly (by rw [size]; decide)).bind fun count _ _ => ?_
  split
  · exact .corruptPage
  · exact .ok (Nat.le_of_not_lt ‹_›)

theorem slotEntry_orderly : Orderly (fun _ => True) (slotEntry bytes slot pageId) := by
  refine (checkedSlotCount_orderly size).bind fun count _ few => ?_
  split
  · exact .corruptPage
  · have inside : slotOffset slot + 4 ≤ bytes.length := by
      rw [size]
      simp only [MAX_SLOTS, slotOffset, PAGE_SIZE, HEADER_SIZE, SLOT_SIZE] at few ⊢
      omega
    exact (readU16_orderly (by omega)).bind fun _ _ _ => (readU16_orderly (by omega)).bind fun _ _ _ => .ok trivial

theorem entryPayload_orderly : Orderly (fun _ => True) (entryPayload bytes slot pageId) := by
  refine (slotEntry_orderly size).bind fun entry _ _ => (checkedSlotCount_orderly size).bind fun count _ _ => ?_
  dsimp only
  split
  · exact .corruptPage
  · cases slice bytes entry.1 (entry.1 + entry.2) with
    | none => exact .corruptPage
    | some payload => exact .ok trivial

theorem upperBound_orderly : Orderly (fun _ => True) (upperBound bytes key pageId) :=
  (checkedSlotCount_orderly size).bind fun _ _ _ =>
    bisect_orderly (fun _ => (entryPayload_orderly size).bind fun _ _ _ => .ok trivial) _ _

theorem lowerBoundLeaf_orderly : Orderly (fun _ => True) (lowerBoundLeaf bytes key pageId) :=
  (checkedSlotCount_orderly size).bind fun _ _ _ =>
    bisect_orderly (fun _ => (entryPayload_orderly size).bind fun _ _ _ => .ok trivial) _ _

theorem readEntries_orderly : Orderly (fun _ => True) (readEntries bytes pageId) := by
  have entries (slots : List Nat) :
    Orderly (fun _ => True) (slots.mapM fun slot => entryPayload bytes slot pageId) := by
    induction slots with
    | nil => exact .ok trivial
    | cons slot slots ih =>
      rw [List.mapM_cons]
      exact (entryPayload_orderly size).bind fun _ _ _ => ih.bind fun _ _ _ => .ok trivial
  exact (tailRaw_orderly size).bind fun _ _ _ => (checkedSlotCount_orderly size).bind fun _ _ _ =>
    (entries _).bind fun _ _ _ => .ok trivial

end

def HasTrailer (trailer : Nat) (payload : Bytes) : Prop :=
  KEY_LEN_PREFIX + leValue (payload.take KEY_LEN_PREFIX) + trailer ≤ payload.length

instance : Decidable (HasTrailer trailer payload) := Nat.decLe _ _

theorem leafRid_cases (payload : Bytes) :
    HasTrailer RID_TRAILER_SIZE payload ∧ (∃ rid, leafRid payload = .ok rid) ∨
      ¬ HasTrailer RID_TRAILER_SIZE payload ∧ leafRid payload = .error .panic := by
  unfold HasTrailer leafRid
  simp only [KEY_LEN_PREFIX, RID_TRAILER_SIZE]
  by_cases long : 0 + 2 ≤ payload.length
  · rw [readU16_inside long, ok_bind, List.drop_zero]
    generalize leValue (payload.take 2) = len
    by_cases child : 2 + len + 4 ≤ payload.length
    · obtain ⟨pageId, read⟩ := readU32_inside child
      rw [read, ok_bind]
      by_cases room : 2 + len + 6 ≤ payload.length
      · rw [readU16_inside (by omega)]
        exact .inl ⟨room, _, rfl⟩
      · rw [readU16_outside (by omega)]
        exact .inr ⟨room, rfl⟩
    · rw [readU32_outside (by omega)]
      exact .inr ⟨by omega, rfl⟩
  · rw [readU16_outside (by omega)]
    exact .inr ⟨by omega, rfl⟩

theorem leafRid_orderly_iff : Orderly (fun _ => True) (leafRid payload) ↔ HasTrailer RID_TRAILER_SIZE payload := by
  rcases leafRid_cases payload with ⟨room, rid, read⟩ | ⟨short, read⟩ <;> rw [read]
  · exact ⟨fun _ => room, fun _ => .ok trivial⟩
  · exact ⟨fun orderly => absurd orderly not_orderly_panic, fun room => absurd room short⟩

theorem internalChild_orderly_iff :
    Orderly (fun _ => True) (internalChild payload) ↔ HasTrailer CHILD_TRAILER_SIZE payload := by
  unfold HasTrailer internalChild
  simp only [KEY_LEN_PREFIX, CHILD_TRAILER_SIZE]
  by_cases long : 0 + 2 ≤ payload.length
  · rw [readU16_inside long, ok_bind, List.drop_zero]
    generalize leValue (payload.take 2) = len
    by_cases room : 2 + len + 4 ≤ payload.length
    · obtain ⟨pageId, read⟩ := readU32_inside room
      rw [read]
      exact ⟨fun _ => room, fun _ => .ok trivial⟩
    · rw [readU32_outside (by omega)]
      exact ⟨fun orderly => absurd orderly not_orderly_panic, fun inside => absurd inside room⟩
  · rw [readU16_outside (by omega)]
    exact ⟨fun orderly => absurd orderly not_orderly_panic, fun inside => by omega⟩

theorem slot_lt_count (counted : checkedSlotCount bytes pageId = .ok count)
    (stored : entryPayload bytes slot pageId = .ok payload) : slot < count := by
  by_contra beyond
  rw [entryPayload, slotEntry, counted, ok_bind, if_pos (not_lt.mp beyond)] at stored
  cases stored

/-! What each reader needs of the entries at which its search ends. -/

def ChildRoom (bytes key : Bytes) (pageId : Nat) : Prop :=
  ∀ slot payload, upperBound bytes key pageId = .ok (slot + 1) → entryPayload bytes slot pageId = .ok payload →
    HasTrailer CHILD_TRAILER_SIZE payload

def ScanRoom (bytes : Bytes) (pageId : Nat) (after : Option Bytes) : Prop :=
  ∀ count slot payload, checkedSlotCount bytes pageId = .ok count → scanSlot bytes pageId count after = .ok slot →
    entryPayload bytes slot pageId = .ok payload → HasTrailer RID_TRAILER_SIZE payload

def RunRoom (bytes key : Bytes) (pageId first : Nat) : Prop :=
  ∀ last payload, first ≤ last →
    (∀ slot, first ≤ slot → slot ≤ last → (entryPayload bytes slot pageId).map entryKey = .ok key) →
    entryPayload bytes last pageId = .ok payload → HasTrailer RID_TRAILER_SIZE payload

def GetRoom (bytes key : Bytes) (pageId : Nat) : Prop :=
  ∀ first, lowerBoundLeaf bytes key pageId = .ok first → RunRoom bytes key pageId first

theorem runRoom_succ (stored : entryPayload bytes slot pageId = .ok payload) (same : entryKey payload = key) :
    RunRoom bytes key pageId slot ↔ HasTrailer RID_TRAILER_SIZE payload ∧ RunRoom bytes key pageId (slot + 1) := by
  have first : (entryPayload bytes slot pageId).map entryKey = .ok key := by rw [stored, ← same]; rfl
  constructor
  · refine fun room => ⟨room slot payload le_rfl (fun other low high => ?_) stored, fun last other low run => ?_⟩
    · rwa [Nat.le_antisymm high low]
    · refine room last other (by omega) fun between low' high => ?_
      rcases Nat.eq_or_lt_of_le low' with rfl | more
      · exact first
      · exact run between more high
  · rintro ⟨here, later⟩ last other low run found
    rcases Nat.eq_or_lt_of_le low with rfl | more
    · exact Except.ok.inj (stored.symm.trans found) ▸ here
    · exact later last other more (fun between low' high => run between (by omega) high) found

section
variable (size : bytes.length = PAGE_SIZE)
include size

theorem childForKey_orderly_iff :
    Orderly (fun _ => True) (childForKey bytes key pageId) ↔ ChildRoom bytes key pageId := by
  rw [childForKey, orderly_bind_iff (upperBound_orderly size)]
  refine ⟨fun all slot payload ends stored => ?_, fun room idx ends => ?_⟩
  · have orderly := all _ ends
    rw [if_neg (Nat.succ_ne_zero slot), Nat.add_sub_cancel, stored] at orderly
    exact internalChild_orderly_iff.mp orderly
  · split
    · refine (tailRaw_orderly size).bind fun tail _ _ => ?_
      cases tail with
      | none => exact .corruptPage
      | some child => exact .ok trivial
    · refine (entryPayload_orderly size).bind fun payload stored _ => internalChild_orderly_iff.mpr ?_
      exact room (idx - 1) payload (by rw [ends, Nat.sub_add_cancel (by omega)]) stored

theorem equalRun_orderly_iff (counted : checkedSlotCount bytes pageId = .ok count) :
    Orderly (fun _ => True) (equalRun bytes key pageId count slot) ↔ RunRoom bytes key pageId slot := by
  fun_induction equalRun bytes key pageId count slot with
  | case1 slot _ ih =>
    rw [orderly_bind_iff (entryPayload_orderly size)]
    cases stored : entryPayload bytes slot pageId with
    | error failure =>
      refine ⟨fun _ last payload low run => ?_, fun _ => nofun⟩
      have first := run slot le_rfl low
      rw [stored] at first
      cases first
    | ok payload =>
      simp only [Except.ok.injEq, forall_eq']
      by_cases same : entryKey payload = key
      · rw [if_neg (not_not.mpr same), runRoom_succ stored same, ← ih]
        rcases leafRid_cases payload with ⟨room, rid, read⟩ | ⟨short, read⟩ <;> rw [read]
        · rw [ok_bind, and_iff_right room]
          exact ⟨.of_bind, fun orderly => orderly.bind fun _ _ _ => .ok trivial⟩
        · exact ⟨fun orderly => absurd orderly not_orderly_panic, fun room => absurd room.1 short⟩
      · rw [if_pos same]
        refine ⟨fun _ last other low run => ?_, fun _ => .ok trivial⟩
        have first := run slot le_rfl low
        rw [stored] at first
        exact absurd (Except.ok.inj first) same
  | case2 slot beyond =>
    refine ⟨fun _ last payload low _ stored => ?_, fun _ => .ok trivial⟩
    have := slot_lt_count counted stored
    omega

theorem getRound_orderly_iff : Orderly (fun _ => True) (getRound bytes key pageId) ↔ GetRoom bytes key pageId := by
  rw [getRound, orderly_bind_iff (checkedSlotCount_orderly size)]
  refine ⟨fun all first started => ?_, fun room count counted => ?_⟩
  · obtain ⟨count, counted, -⟩ := bind_eq_ok.mp started
    have orderly := (orderly_bind_iff (lowerBoundLeaf_orderly size)).mp (all count counted) first started
    exact (equalRun_orderly_iff size counted).mp orderly.of_bind
  · exact (lowerBoundLeaf_orderly size).bind fun first started _ =>
      ((equalRun_orderly_iff size counted).mpr (room first started)).bind fun _ _ _ =>
        (tailRaw_orderly size).bind fun _ _ _ => .ok trivial

theorem scanSlot_orderly (count : Nat) (after : Option Bytes) :
    Orderly (fun _ => True) (scanSlot bytes pageId count after) := by
  cases after with
  | none => exact .ok trivial
  | some sortKey =>
    refine (lowerBoundLeaf_orderly size).bind fun slot _ _ => ?_
    split
    · exact (entryPayload_orderly size).bind fun _ _ _ => .ok trivial
    · exact .ok trivial

theorem scanLeaf_orderly_iff (after : Option Bytes) :
    Orderly (fun _ => True) (scanLeaf bytes pageId after) ↔ ScanRoom bytes pageId after := by
  rw [scanLeaf, orderly_bind_iff (checkedSlotCount_orderly size)]
  refine ⟨fun all count slot payload counted started stored => ?_, fun room count counted => ?_⟩
  · have orderly := (orderly_bind_iff (scanSlot_orderly size count after)).mp (all count counted) slot started
    rw [if_neg (not_le.mpr (slot_lt_count counted stored)), stored, ok_bind] at orderly
    exact leafRid_orderly_iff.mp orderly.of_bind
  · refine (scanSlot_orderly size count after).bind fun slot started _ => ?_
    split
    · exact (tailRaw_orderly size).bind fun _ _ _ => .ok trivial
    · refine (entryPayload_orderly size).bind fun payload stored _ => ?_
      have rid := leafRid_orderly_iff.mpr (room count slot payload counted started stored)
      exact rid.bind fun _ _ _ => .ok trivial

end

def ChainRoom (pages : Nat → Image) (key : Bytes) : Nat → Nat → Prop
  | 0, _ => False
  | fuel + 1, leaf => GetRoom (pages leaf).bytes key leaf ∧
      ∀ rids next, getRound (pages leaf).bytes key leaf = .ok (rids, some next) → ChainRoom pages key fuel next

theorem getFrom_orderly_iff {pages : Nat → Image} {fuel leaf : Nat} :
    Orderly (fun _ => True) (getFrom pages key fuel leaf) ↔ ChainRoom pages key fuel leaf := by
  induction fuel generalizing leaf with
  | zero => exact ⟨fun orderly => (by cases orderly), False.elim⟩
  | succ fuel ih =>
    rw [ChainRoom, ← getRound_orderly_iff (pages leaf).size]
    refine ⟨fun orderly => ⟨orderly.of_bind, fun rids next round => ih.mp ?_⟩, fun room => room.1.bind ?_⟩
    · have rest := (orderly_bind_iff orderly.of_bind).mp orderly (rids, some next) round
      exact rest.of_bind
    · rintro ⟨rids, next⟩ round -
      cases next with
      | none => exact .ok trivial
      | some next => exact (ih.mpr (room.2 rids next round)).bind fun _ _ _ => .ok trivial

/-- A reader of a page returns or refuses it as corrupt exactly if the entries it takes a row id or a child from have
room for it. -/
theorem page_reads_orderly (image : Image) (pageId : Nat) :
    Orderly (fun _ => True) (readEntries image.bytes pageId) ∧
    (∀ key, Orderly (fun _ => True) (childForKey image.bytes key pageId) ↔ ChildRoom image.bytes key pageId) ∧
    (∀ after, Orderly (fun _ => True) (scanLeaf image.bytes pageId after) ↔ ScanRoom image.bytes pageId after) ∧
    (∀ key, Orderly (fun _ => True) (getRound image.bytes key pageId) ↔ GetRoom image.bytes key pageId) ∧
    ∀ pages fuel key, Orderly (fun _ => True) (getFrom pages key fuel pageId) ↔ ChainRoom pages key fuel pageId :=
  ⟨readEntries_orderly image.size, fun _ => childForKey_orderly_iff image.size,
    fun after => scanLeaf_orderly_iff image.size after, fun _ => getRound_orderly_iff image.size,
    fun _ _ _ => getFrom_orderly_iff⟩

def oneSlot (kind : UInt8) (start len : Nat) (entry : Bytes) (fits : entry.length ≤ 4071) : Image :=
  let body := List.replicate 8 0 ++ [kind, 1, 0] ++ leBytes 2 entry.length ++ [0, 0, 0, 0] ++ leBytes 2 start ++
    leBytes 2 len ++ List.replicate (4071 - entry.length) 0 ++ entry
  { bytes := leBytes 4 (crc32 body).toNat ++ body
    size := by
      simp only [body, List.length_append, List.length_replicate, leBytes_length, List.length_cons, List.length_nil]
      rw [Nat.add_assoc _ _ entry.length, Nat.sub_add_cancel fits]
      rfl }

theorem empty_entry_panics : ∃ leaf internal : Image,
    leaf.bytes.take 4 = leBytes 4 (crc32 (leaf.bytes.drop 4)).toNat ∧ scanLeaf leaf.bytes 7 none = .error .panic ∧
      internal.bytes.take 4 = leBytes 4 (crc32 (internal.bytes.drop 4)).toNat ∧
      childForKey internal.bytes [5] 7 = .error .panic := by
  have checksum (kind : UInt8) : (oneSlot kind 4096 0 [] (by decide)).bytes.take 4 =
      leBytes 4 (crc32 ((oneSlot kind 4096 0 [] (by decide)).bytes.drop 4)).toNat := by
    rw [oneSlot, List.take_left' (leBytes_length ..), List.drop_left' (leBytes_length ..)]
  refine ⟨oneSlot 0 4096 0 [] (by decide), oneSlot 1 4096 0 [] (by decide), checksum 0, by decide +kernel,
    checksum 1, ?_⟩
  have count : checkedSlotCount (oneSlot 1 4096 0 [] (by decide)).bytes 7 = .ok 1 := by decide +kernel
  have stored : entryPayload (oneSlot 1 4096 0 [] (by decide)).bytes 0 7 = .ok [] := by decide +kernel
  have last : upperBound (oneSlot 1 4096 0 [] (by decide)).bytes [5] 7 = .ok 1 := by
    rw [upperBound, count, ok_bind, bisect, if_pos (by decide)]
    simp only [Nat.sub_zero, Nat.reduceDiv, Nat.add_zero, stored, ok_bind]
    change bisect _ 1 1 = _
    rw [bisect, if_neg (by decide)]
    rfl
  rw [childForKey, last, ok_bind, if_neg (by decide), stored, ok_bind]
  rfl

end SimpleRdbms.Storage.BTreePage
