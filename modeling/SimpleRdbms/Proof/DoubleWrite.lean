import SimpleRdbms.Proof.Checksums

namespace SimpleRdbms.Storage
open Lib DoubleWrite

theorem readU32_append {front rest : List UInt8} {pos value : Nat} (here : front.length = pos)
    (fits : value < 2 ^ 32) : readU32 (front ++ (leBytes 4 value ++ rest)) pos = value := by
  subst here
  rw [readU32, List.drop_left, List.take_left' (leBytes_length 4 value)]
  exact leValue_leBytes (Nat.lt_of_lt_of_eq fits (by decide))

def encodeEntry (entry : Entry) : List UInt8 := leBytes 4 entry.1 ++ leBytes 4 entry.2.toNat

theorem encodeEntries_length (entries : List Entry) :
    (entries.flatMap encodeEntry).length = entries.length * ENTRY_SIZE := by
  induction entries with
  | nil => rfl
  | cons entry entries ih =>
    rw [List.flatMap_cons, List.length_append, ih]
    simp [encodeEntry, ENTRY_SIZE]
    omega

theorem headerContent_eq (entries : List Entry) :
    headerContent entries = MAGIC ++ (leBytes 4 entries.length ++ entries.flatMap encodeEntry) := by
  rw [headerContent, List.append_assoc]
  rfl

theorem headerContent_length (entries : List Entry) :
    (headerContent entries).length = ENTRIES_OFFSET + entries.length * ENTRY_SIZE := by
  rw [headerContent_eq, List.length_append, List.length_append, encodeEntries_length, leBytes_length, ENTRIES_OFFSET,
    ENTRY_COUNT_OFFSET, Nat.add_assoc]

theorem readU32_entry {front rest : List UInt8} {entries : List Entry} {i : Nat} (inside : i < entries.length)
    (fits : ∀ entry ∈ entries, entry.1 < 2 ^ 32) :
    (readU32 (front ++ (entries.flatMap encodeEntry ++ rest)) (front.length + i * ENTRY_SIZE),
      UInt32.ofNat (readU32 (front ++ (entries.flatMap encodeEntry ++ rest)) (front.length + i * ENTRY_SIZE + 4))) =
      entries[i] := by
  have split : entries = entries.take i ++ entries[i] :: entries.drop (i + 1) := by
    rw [List.getElem_cons_drop, List.take_append_drop]
  have before : (front ++ (entries.take i).flatMap encodeEntry).length = front.length + i * ENTRY_SIZE := by
    rw [List.length_append, encodeEntries_length, List.length_take, Nat.min_eq_left (Nat.le_of_lt inside)]
  have bytes : front ++ (entries.flatMap encodeEntry ++ rest) = (front ++ (entries.take i).flatMap encodeEntry) ++
      (leBytes 4 entries[i].1 ++ (leBytes 4 entries[i].2.toNat ++
        ((entries.drop (i + 1)).flatMap encodeEntry ++ rest))) := by
    conv_lhs => rw [split]
    rw [List.flatMap_append, List.flatMap_cons, encodeEntry]
    simp only [List.append_assoc]
  have id : readU32 (front ++ (entries.flatMap encodeEntry ++ rest)) (front.length + i * ENTRY_SIZE) =
    entries[i].1 := by
    rw [bytes]
    exact readU32_append before (fits _ (List.getElem_mem inside))
  have crc : readU32 (front ++ (entries.flatMap encodeEntry ++ rest)) (front.length + i * ENTRY_SIZE + 4) =
      entries[i].2.toNat := by
    rw [bytes, ← List.append_assoc]
    exact readU32_append (by rw [List.length_append, before, leBytes_length]) entries[i].2.toNat_lt
  rw [id, crc, UInt32.ofNat_toNat]

theorem encodeHeader_bytes {entries : List Entry}
    (ends : ENTRIES_OFFSET + entries.length * ENTRY_SIZE + 4 ≤ PAGE_SIZE) :
    ∃ rest, (encodeHeader entries).bytes =
      headerContent entries ++ (leBytes 4 (crc32 (headerContent entries)).toNat ++ rest) := by
  have length := headerContent_length entries
  rw [encodeHeader, Block.bytes_ofBytes (by simp [length]; omega), List.append_assoc]
  exact ⟨_, rfl⟩

theorem encodeHeader_count {entries : List Entry}
    (ends : ENTRIES_OFFSET + entries.length * ENTRY_SIZE + 4 ≤ PAGE_SIZE) :
    readU32 (encodeHeader entries).bytes ENTRY_COUNT_OFFSET = entries.length := by
  obtain ⟨rest, bytes⟩ := encodeHeader_bytes ends
  rw [bytes, headerContent_eq, List.append_assoc, List.append_assoc]
  refine readU32_append rfl ?_
  simp only [ENTRY_SIZE, PAGE_SIZE] at ends
  omega

theorem decodeHeader_encodeHeader {entries : List Entry} {capacity : Nat} (some_ : entries ≠ [])
    (few : entries.length ≤ capacity) (room : ENTRIES_OFFSET + capacity * ENTRY_SIZE + 4 ≤ PAGE_SIZE)
    (fits : ∀ entry ∈ entries, entry.1 < 2 ^ 32) : decodeHeader (encodeHeader entries) capacity = some entries := by
  have positive : 0 < entries.length := List.length_pos_iff.mpr some_
  have ends : ENTRIES_OFFSET + entries.length * ENTRY_SIZE + 4 ≤ PAGE_SIZE := by
    simp only [ENTRY_SIZE] at room ⊢
    omega
  have length := headerContent_length entries
  obtain ⟨rest, bytes⟩ := encodeHeader_bytes ends
  have whole : (encodeHeader entries).bytes = (MAGIC ++ leBytes 4 entries.length) ++ (entries.flatMap encodeEntry ++
      (leBytes 4 (crc32 (headerContent entries)).toNat ++ rest)) := by
    rw [bytes, headerContent_eq]
    simp only [List.append_assoc]
  have magic : (encodeHeader entries).bytes.take MAGIC.length = MAGIC := by
    rw [whole, List.append_assoc, List.take_left]
  have content : (encodeHeader entries).bytes.take (ENTRIES_OFFSET + entries.length * ENTRY_SIZE) =
      headerContent entries := by rw [bytes, ← length, List.take_left]
  have crc : readU32 (encodeHeader entries).bytes (ENTRIES_OFFSET + entries.length * ENTRY_SIZE) =
      (crc32 (headerContent entries)).toNat := by
    rw [bytes]
    exact readU32_append length (crc32 (headerContent entries)).toNat_lt
  have read : (List.range entries.length).map (fun i =>
      (readU32 (encodeHeader entries).bytes (ENTRIES_OFFSET + i * ENTRY_SIZE),
        UInt32.ofNat (readU32 (encodeHeader entries).bytes (ENTRIES_OFFSET + i * ENTRY_SIZE + 4)))) = entries := by
    refine List.ext_getElem (by simp) fun i _ inside => ?_
    rw [List.getElem_map, List.getElem_range, whole]
    exact readU32_entry inside fits
  simp only [decodeHeader, encodeHeader_count ends, magic, content, crc, read]
  rw [if_neg (by simp), if_neg (by omega), if_neg (by omega), if_neg (by simp)]

namespace DeviceCall

def OnDwb : DeviceCall → Prop
  | .writeDwb _ _ | .syncDwb => True
  | .writeData _ _ | .syncData => False

def OnData (source : Nat → Set Block) : DeviceCall → Prop
  | .writeData page block => block ∈ source page
  | .syncData => True
  | .writeDwb _ _ | .syncDwb => False

end DeviceCall

namespace Store
variable {s : Store} {calls : List DeviceCall} {fault : Option Fault} {source : Nat → Set Block}

theorem runCalls_ok (completed : (s.runCalls calls fault).2 = true) :
    (s.runCalls calls fault).1 = calls.foldl call s := by
  revert completed
  unfold runCalls
  cases fault with
  | none => intro _; rfl
  | some fault =>
    dsimp only
    split
    · intro _; rfl
    · intro completed; cases completed

theorem runCalls_induction {P : Store → Prop} (start : P s)
    (steps : ∀ t, ∀ c ∈ calls, P t → P (t.call c) ∧ ∀ reached, P (t.failingCall reached c)) (fault : Option Fault) :
    P (s.runCalls calls fault).1 := by
  have runs : ∀ part : List DeviceCall, (∀ c ∈ part, c ∈ calls) → ∀ t, P t → P (part.foldl call t) := by
    intro part
    induction part with
    | nil => exact fun _ t holds => holds
    | cons c part ih =>
      intro known t holds
      obtain ⟨here, later⟩ := List.forall_mem_cons.mp known
      exact ih later _ (steps t c here holds).1
  unfold runCalls
  cases fault with
  | none => exact runs calls (fun _ member => member) s start
  | some fault =>
    dsimp only
    split
    · exact runs calls (fun _ member => member) s start
    · rename_i failing found
      refine (steps _ failing (List.mem_of_getElem? found) ?_).2 _
      exact runs _ (fun _ member => List.mem_of_mem_take member) s start

theorem runCalls_append_failed {first second : List DeviceCall}
    (failed : ¬(s.runCalls (first ++ second) fault).2 = true) :
    (s.runCalls (first ++ second) fault).1 = (s.runCalls first fault).1 ∨
      ∃ fault', (s.runCalls (first ++ second) fault).1 = ((first.foldl call s).runCalls second fault').1 := by
  cases fault with
  | none => exact absurd rfl failed
  | some fault =>
    by_cases inFirst : fault.call < first.length
    · left
      simp only [runCalls, List.getElem?_append_left inFirst, List.take_append_of_le_length (Nat.le_of_lt inFirst),
        List.getElem?_eq_getElem inFirst]
    · right
      refine ⟨some { fault with call := fault.call - first.length }, ?_⟩
      have behind : first.length ≤ fault.call := Nat.not_lt.mp inFirst
      simp only [runCalls, List.getElem?_append_right behind]
      cases second[fault.call - first.length]? with
      | none => exact List.foldl_append
      | some failing =>
        dsimp only
        rw [List.take_append, List.take_of_length_le behind, List.foldl_append]

theorem runCalls_dwb (onDwb : ∀ c ∈ calls, c.OnDwb) (fault : Option Fault) :
    ∃ dwb, (s.runCalls calls fault).1 = { s with dwb } := by
  refine runCalls_induction (P := fun t => ∃ dwb, t = { s with dwb }) ⟨s.dwb, rfl⟩ ?_ fault
  rintro _ c member ⟨dwb, rfl⟩
  cases c with
  | writeDwb | syncDwb => exact ⟨⟨_, rfl⟩, fun _ => ⟨_, rfl⟩⟩
  | writeData | syncData => exact (onDwb _ member).elim

structure Rewritten (source : Nat → Set Block) (old new : DataFile) : Prop where
  made : new.pages.MadeOf sectorOf source
  durableLen : old.durableLen ≤ new.durableLen
  len : new.durableLen ≤ new.len

theorem runCalls_data (onData : ∀ c ∈ calls, c.OnData source) (made : s.data.pages.MadeOf sectorOf source)
    (len : s.data.durableLen ≤ s.data.len) (fault : Option Fault) :
    ∃ data, (s.runCalls calls fault).1 = { s with data } ∧ Rewritten source s.data data := by
  refine runCalls_induction (P := fun t => ∃ data, t = { s with data } ∧ Rewritten source s.data data)
    ⟨s.data, rfl, made, Nat.le_refl _, len⟩ ?_ fault
  rintro _ c member ⟨data, rfl, made, grown, len⟩
  cases c with
  | writeDwb | syncDwb => exact (onData _ member).elim
  | writeData page block =>
    have wrote (reached : Nat → Bool) : Rewritten source s.data (data.write page block reached) :=
      ⟨made.write (onData _ member) _, grown, Nat.le_trans len (Nat.le_max_left _ _)⟩
    exact ⟨⟨_, rfl, wrote _⟩, fun _ => ⟨_, rfl, wrote _⟩⟩
  | syncData =>
    exact ⟨⟨_, rfl, made.sync, Nat.le_trans grown len, Nat.le_refl _⟩, fun _ => ⟨_, rfl, made, grown, len⟩⟩

def completeWrite (write : Nat × Block) : BlockWrite (Fin PAGE_SIZE) Nat UInt8 :=
  { page := write.1, block := write.2, reached := fun _ => true }

theorem foldl_writeDwb (s : Store) (writes : List (Nat × Block)) :
    (writes.map fun write => DeviceCall.writeDwb write.1 write.2).foldl call s =
      { s with dwb := { s.dwb with pending := s.dwb.pending ++ writes.map completeWrite } } := by
  induction writes generalizing s with
  | nil => simp
  | cons write writes ih =>
    rw [List.map_cons, List.foldl_cons, ih]
    simp [call, BlockFile.write, completeWrite]

theorem foldl_writeData (s : Store) (writes : List (Nat × Block)) :
    ∃ len, s.data.len ≤ len ∧ (∀ write ∈ writes, write.1 < len) ∧
      (writes.map fun write => DeviceCall.writeData write.1 write.2).foldl call s =
        { s with data := {
          s.data with
          pages := { s.data.pages with pending := s.data.pages.pending ++ writes.map completeWrite }, len } } := by
  induction writes generalizing s with
  | nil => exact ⟨s.data.len, Nat.le_refl _, by simp, by simp⟩
  | cons write writes ih =>
    obtain ⟨len, grown, covered, result⟩ := ih (s.call (.writeData write.1 write.2))
    simp only [call, DataFile.write] at grown
    refine ⟨len, by omega, ?_, ?_⟩
    · intro other member
      rcases List.mem_cons.mp member with rfl | later
      · omega
      · exact covered other later
    · rw [List.map_cons, List.foldl_cons, result]
      simp [call, DataFile.write, BlockFile.write, completeWrite]

theorem synced_of_mem {file : BlockFile (Fin PAGE_SIZE) Nat UInt8} {writes : List (Nat × Block)}
    (distinct : (writes.map Prod.fst).Nodup) {write : Nat × Block} (member : write ∈ writes) :
    ({ file with pending := file.pending ++ writes.map completeWrite } : BlockFile _ _ _).contents sectorOf write.1 =
      write.2 := by
  rw [BlockFile.contents, List.foldl_append]
  have complete : ∀ w ∈ writes.map completeWrite, ∀ k, w.reached k = true := by
    intro w isWrite k
    obtain ⟨_, -, rfl⟩ := List.mem_map.mp isWrite
    rfl
  have pages : ((writes.map completeWrite).map BlockWrite.page).Nodup := by
    rw [List.map_map]
    exact distinct
  exact applyAll_of_mem complete pages (List.mem_map.mpr ⟨write, member, rfl⟩)

theorem synced_of_not_mem {file : BlockFile (Fin PAGE_SIZE) Nat UInt8} {writes : List (Nat × Block)} {page : Nat}
    (settled : file.pending = []) (untouched : page ∉ writes.map Prod.fst) :
    ({ file with pending := file.pending ++ writes.map completeWrite } : BlockFile _ _ _).contents sectorOf page =
      file.durable page := by
  rw [BlockFile.contents, settled, List.nil_append]
  refine applyAll_of_not_mem fun w isWrite same => untouched ?_
  obtain ⟨write, member, rfl⟩ := List.mem_map.mp isWrite
  exact List.mem_map.mpr ⟨write, member, same⟩

def batchWrites (images : List (Nat × Block)) : List (Nat × Block) :=
  (images.zipIdx.map fun (image, index) => (1 + index, image.2)) ++
    [(0, encodeHeader (images.map fun image => (image.1, crc32 image.2.bytes)))]

theorem writeBatch_eq (images : List (Nat × Block)) :
    writeBatch images = ((batchWrites images).map fun write => DeviceCall.writeDwb write.1 write.2) ++ [.syncDwb] := by
  simp [writeBatch, batchWrites, Function.comp_def]

theorem batchWrites_distinct (images : List (Nat × Block)) : ((batchWrites images).map Prod.fst).Nodup := by
  have slots : (images.zipIdx.map fun x => 1 + x.2) = List.range' 1 images.length :=
    List.ext_getElem (by simp) fun i _ _ => by simp
  simp only [batchWrites, List.map_append, List.map_map, Function.comp_def, List.map_singleton, slots]
  rw [List.nodup_append]
  refine ⟨List.nodup_range' .., by simp, ?_⟩
  intro page isSlot other isHeader
  have := (List.mem_range'_1.mp isSlot).1
  have := List.mem_singleton.mp isHeader
  omega

theorem writeBatch_complete (s : Store) (images : List (Nat × Block)) :
    ∃ dwb, (writeBatch images).foldl call s = { s with dwb } ∧ dwb.pending = [] ∧
      dwb.durable 0 = encodeHeader (images.map fun image => (image.1, crc32 image.2.bytes)) ∧
      ∀ i (inside : i < images.length), dwb.durable (1 + i) = images[i].2 := by
  rw [writeBatch_eq, List.foldl_append, foldl_writeDwb]
  refine ⟨_, rfl, rfl, ?_, fun i inside => ?_⟩
  · exact synced_of_mem (batchWrites_distinct images) (List.mem_append_right _ (List.mem_singleton_self _))
  · have member : (1 + i, images[i].2) ∈ batchWrites images := by
      refine List.mem_append_left _ (List.mem_map.mpr ⟨(images[i], i), ?_, rfl⟩)
      exact List.mk_mem_zipIdx_iff_getElem?.mpr (List.getElem?_eq_getElem inside)
    exact synced_of_mem (batchWrites_distinct images) member

variable {images : List (Nat × Block)} {entries : List Entry} {id : Nat}

theorem mem_of_lookup {block : Block} (found : images.lookup id = some block) : (id, block) ∈ images := by
  obtain ⟨before, after, rfl, -⟩ := List.lookup_eq_some_iff.mp found
  exact List.mem_append_right _ List.mem_cons_self

theorem not_mem_of_lookup (absent : images.lookup id = none) : id ∉ images.map Prod.fst := by
  intro member
  obtain ⟨image, isImage, rfl⟩ := List.mem_map.mp member
  exact absurd rfl (bne_iff_ne.mp (List.lookup_eq_none_iff.mp absent image isImage))

theorem writePages_complete (s : Store) (settled : s.data.pages.pending = [])
    (distinct : (images.map Prod.fst).Nodup) :
    ∃ data, (writePages images).foldl call s = { s with data } ∧ data.pages.pending = [] ∧
      data.durableLen = data.len ∧ s.data.len ≤ data.len ∧ (∀ image ∈ images, image.1 < data.len) ∧
      ∀ page, data.pages.durable page = (images.lookup page).getD (s.data.pages.durable page) := by
  obtain ⟨len, grown, covered, result⟩ := foldl_writeData s images
  rw [writePages, List.foldl_append, result]
  refine ⟨_, rfl, rfl, rfl, grown, covered, fun page => ?_⟩
  cases found : images.lookup page with
  | some block => exact synced_of_mem distinct (mem_of_lookup found)
  | none => exact synced_of_not_mem settled (not_mem_of_lookup found)

theorem writePages_onData (known : ∀ image ∈ images, image.2 ∈ source image.1) :
    ∀ c ∈ writePages images, c.OnData source := by
  rw [writePages, List.forall_mem_append, List.forall_mem_map, List.forall_mem_singleton]
  exact ⟨known, trivial⟩

theorem restorePlan_valid {dwb pages : Nat → Block} {len : Nat}
    (valid : ∀ page, page < len → (pages page).checksumOk = true) (todo : List (Entry × Nat)) :
    (restorePlan dwb len entries pages todo).1 = [] := by
  induction todo with
  | nil => rfl
  | cons item rest ih =>
    obtain ⟨⟨pageId, slotCrc⟩, index⟩ := item
    rw [restorePlan]
    split
    · split
      · rfl
      · exact ih
    · split
      · exact ih
      · rw [if_neg]
        · exact ih
        · rintro ⟨inside, torn⟩
          rw [valid pageId inside] at torn
          cases torn

theorem restorePlan_restores {dwb : Nat → Block} {len : Nat} {pages : Nat → Block} {todo : List (Entry × Nat)}
    (slots : ∀ item ∈ todo, item.1.2 = crc32 (dwb (1 + item.2)).bytes ∧ ∃ block : Block,
      dwb (1 + item.2) = block.stampChecksum)
    (distinct : (todo.map (·.1.1)).Nodup) :
    restorePlan dwb len entries pages todo =
      ((todo.filter fun item => decide (item.1.1 < len ∧ (pages item.1.1).checksumOk = false)).map
        fun item => (item.1.1, dwb (1 + item.2)), none) := by
  induction todo generalizing pages with
  | nil => rfl
  | cons item rest ih =>
    have others := fun pages => @ih pages (fun other member => slots other (List.mem_cons_of_mem _ member))
      (List.nodup_cons.mp distinct).2
    obtain ⟨crc, block, stamped⟩ := slots item List.mem_cons_self
    have absent := (List.nodup_cons.mp distinct).1
    obtain ⟨⟨pageId, slotCrc⟩, index⟩ := item
    dsimp only at crc stamped absent
    have notZero : ¬(dwb (1 + index)).isZero = true := by
      rw [stamped, Block.isZero_iff]
      exact block.stampChecksum_ne_zero
    rw [restorePlan, if_neg (not_not_intro crc.symm), if_neg notZero]
    by_cases torn : pageId < len ∧ (pages pageId).checksumOk = false
    · have unchanged : rest.filter (fun item => decide (item.1.1 < len ∧
          (Function.update pages pageId (dwb (1 + index)).stampChecksum item.1.1).checksumOk = false)) =
          rest.filter fun item => decide (item.1.1 < len ∧ (pages item.1.1).checksumOk = false) := by
        refine List.filter_congr fun other member => ?_
        have different : other.1.1 ≠ pageId := by
          intro same
          exact absent (List.mem_map.mpr ⟨other, member, same⟩)
        rw [Function.update_of_ne different]
      have again : (dwb (1 + index)).stampChecksum = dwb (1 + index) := by
        rw [stamped, Block.stampChecksum_stampChecksum]
      rw [if_pos torn]
      dsimp only
      rw [others, unchanged, again, List.filter_cons_of_pos (by simpa using torn)]
      rfl
    · rw [if_neg torn, others, List.filter_cons_of_neg (by simpa using torn)]

def candidates (s : Store) (id : Nat) : Set Block := { block | block = s.base id ∨ (id, block) ∈ s.inFlight }

structure Valid (s : Store) : Prop where
  room : ENTRIES_OFFSET + s.capacity * ENTRY_SIZE + 4 ≤ PAGE_SIZE
  base : ∀ id, (s.base id).checksumOk = true
  fresh : ∀ id, s.data.durableLen ≤ id → s.base id = Block.zero
  len : s.data.durableLen ≤ s.data.len
  stamped : ∀ image ∈ s.inFlight, ∃ block : Block, image.2 = block.stampChecksum
  few : s.inFlight.length ≤ s.capacity
  distinct : (s.inFlight.map Prod.fst).Nodup
  ids : ∀ image ∈ s.inFlight, image.1 < 2 ^ 32

structure Whole (s : Store) : Prop where
  settled : s.data.pages.pending = []
  pages : ∀ id, s.data.pages.durable id ∈ s.candidates id

structure Exposed (s : Store) : Prop where
  settled : s.dwb.pending = []
  inFlight : s.inFlight ≠ []
  header : s.dwb.durable 0 = encodeHeader (s.inFlight.map fun image => (image.1, crc32 image.2.bytes))
  slots : ∀ i (inside : i < s.inFlight.length), s.dwb.durable (1 + i) = s.inFlight[i].2
  data : s.data.pages.MadeOf sectorOf s.candidates

structure Invariant (s : Store) : Prop where
  valid : Valid s
  pages : Whole s ∨ Exposed s
  accepting : s.poisoned = false → s.data.pages.pending = [] ∧ ∀ id, s.data.pages.durable id = s.base id

theorem candidates_ok (valid : Valid s) {block : Block} (member : block ∈ s.candidates id) :
    block.checksumOk = true := by
  rcases member with rfl | inFlight
  · exact valid.base id
  · obtain ⟨original, stamped⟩ := valid.stamped _ inFlight
    rw [show block = original.stampChecksum from stamped]
    exact original.checksumOk_stampChecksum

theorem Whole.made (whole : Whole s) : s.data.pages.MadeOf sectorOf s.candidates :=
  ⟨fun id => .of_mem (whole.pages id), by simp [whole.settled]⟩

theorem Whole.contents (whole : Whole s) : s.data.contents = s.data.pages.durable :=
  BlockFile.contents_settled whole.settled

theorem crash_made (valid : Valid s) (made : s.data.pages.MadeOf sectorOf s.candidates) (survivors : Survivors) :
    (s.crash survivors).data.pages.MadeOf sectorOf s.candidates := by
  refine ⟨fun id => ?_, by simp [crash, DataFile.crash]⟩
  simp only [crash, DataFile.crash]
  split
  · exact (made.crash survivors.data).durable id
  · refine .of_mem (.inl (valid.fresh id ?_).symm)
    omega

theorem Valid.crash (valid : Valid s) (survivors : Survivors) : Valid (s.crash survivors) :=
  { valid with
    fresh := fun id beyond => valid.fresh id (Nat.le_trans (Nat.le_max_left _ _) beyond)
    len := Nat.le_refl _ }

theorem Whole.crash (whole : Whole s) (valid : Valid s) (survivors : Survivors) : Whole (s.crash survivors) := by
  refine ⟨rfl, fun id => ?_⟩
  simp only [Store.crash, DataFile.crash, BlockFile.crash_settled whole.settled]
  split
  · exact whole.pages id
  · refine .inl (valid.fresh id ?_).symm
    omega

theorem Exposed.crash (exposed : Exposed s) (valid : Valid s) (survivors : Survivors) :
    Exposed (s.crash survivors) := by
  have dwb : (s.crash survivors).dwb = s.dwb := BlockFile.crash_settled exposed.settled _
  exact {
    settled := dwb ▸ exposed.settled
    inFlight := exposed.inFlight
    header := dwb ▸ exposed.header
    slots := dwb ▸ exposed.slots
    data := crash_made valid exposed.data survivors }

theorem sync_settled {file : DataFile} (settled : file.pages.pending = []) (len : file.durableLen = file.len) :
    file.sync = file := by
  obtain ⟨⟨durable, pending⟩, durableLen, _⟩ := file
  dsimp only at settled len
  subst settled len
  rfl

theorem clearBatch_onDwb : ∀ c ∈ clearBatch, c.OnDwb := by
  simp [clearBatch, DeviceCall.OnDwb]

theorem recover_whole (valid : Valid s) (whole : Whole s) (len : s.data.durableLen = s.data.len)
    (fault : Option Fault) : ∃ dwb, (s.recoverDoubleWrite fault).1 = { s with dwb } := by
  unfold recoverDoubleWrite
  split
  · exact ⟨s.dwb, rfl⟩
  · rename_i entries decoded
    have nothing : (restorePlan (s.dwb.contents sectorOf) s.data.len entries s.data.contents entries.zipIdx).1 =
      [] := by
      refine restorePlan_valid (fun page _ => ?_) _
      rw [whole.contents]
      exact candidates_ok valid (whole.pages page)
    have synced : (s.runCalls [.syncData] (early fault)).1 = s := by
      refine runCalls_induction (P := fun t => t = s) rfl ?_ _
      rintro _ c member rfl
      obtain rfl := List.mem_singleton.mp member
      exact ⟨by rw [call, sync_settled whole.settled len], fun _ => rfl⟩
    have idle : (s.runCalls [] (early fault)).1 = s :=
      runCalls_induction (P := fun t => t = s) rfl (by simp) _
    simp only [nothing, List.map_nil, List.nil_append, List.find?_nil]
    split
    · exact ⟨s.dwb, idle⟩
    · split
      · exact ⟨s.dwb, synced⟩
      · rw [synced]
        exact runCalls_dwb clearBatch_onDwb _

theorem recover_eq {pages : List (Nat × Block)}
    (decoded : decodeHeader (s.dwb.contents sectorOf 0) s.capacity = some entries)
    (planned : restorePlan (s.dwb.contents sectorOf) s.data.len entries s.data.contents entries.zipIdx =
      (pages, none)) :
    s.recoverDoubleWrite fault =
      if !(s.runCalls (writePages pages) (early fault)).2 then
        ((s.runCalls (writePages pages) (early fault)).1, .error .io)
      else
        match pages.find? fun page => !((s.runCalls (writePages pages) (early fault)).1.data.contents
          page.1).checksumOk with
        | some page => ((s.runCalls (writePages pages) (early fault)).1, .error (.doubleWriteRestoreFailed page.1))
        | none =>
          (((s.runCalls (writePages pages) (early fault)).1.runCalls clearBatch (late fault)).1,
            if ((s.runCalls (writePages pages) (early fault)).1.runCalls clearBatch (late fault)).2 then .ok ()
            else .error .io) := by
  unfold recoverDoubleWrite
  simp only [decoded, planned]
  rfl

def tornPages (s : Store) : List (Nat × Block) :=
  s.inFlight.filter fun image => decide (image.1 < s.data.len ∧ (s.data.contents image.1).checksumOk = false)

theorem Exposed.decoded (exposed : Exposed s) (valid : Valid s) :
    decodeHeader (s.dwb.contents sectorOf 0) s.capacity =
      some (s.inFlight.map fun image => (image.1, crc32 image.2.bytes)) := by
  rw [BlockFile.contents_settled exposed.settled, exposed.header]
  refine decodeHeader_encodeHeader (by simpa using exposed.inFlight) (by simpa using valid.few) valid.room ?_
  intro entry member
  obtain ⟨image, isImage, rfl⟩ := List.mem_map.mp member
  exact valid.ids image isImage

theorem Exposed.planned (exposed : Exposed s) (valid : Valid s) :
    restorePlan (s.dwb.contents sectorOf) s.data.len (s.inFlight.map fun image => (image.1, crc32 image.2.bytes))
      s.data.contents (s.inFlight.map fun image => (image.1, crc32 image.2.bytes)).zipIdx = (s.tornPages, none) := by
  have slot : ∀ item ∈ s.inFlight.zipIdx, s.dwb.contents sectorOf (1 + item.2) = item.1.2 := by
    intro item member
    have found := List.mk_mem_zipIdx_iff_getElem?.mp member
    obtain ⟨inside, same⟩ := List.getElem?_eq_some_iff.mp found
    rw [BlockFile.contents_settled exposed.settled, exposed.slots item.2 inside, same]
  rw [List.zipIdx_map, restorePlan_restores]
  · rw [Prod.mk.injEq, List.filter_map, List.map_map]
    refine ⟨?_, rfl⟩
    have restored : (s.inFlight.zipIdx.filter fun item => decide (item.1.1 < s.data.len ∧
        (s.data.contents item.1.1).checksumOk = false)).map
          (fun item => (item.1.1, s.dwb.contents sectorOf (1 + item.2))) =
        (s.inFlight.zipIdx.filter fun item => decide (item.1.1 < s.data.len ∧
          (s.data.contents item.1.1).checksumOk = false)).map Prod.fst := by
      refine List.map_congr_left fun item member => ?_
      rw [slot item (List.mem_of_mem_filter member)]
    have numbered : s.tornPages = (s.inFlight.zipIdx.map Prod.fst).filter fun image =>
        decide (image.1 < s.data.len ∧ (s.data.contents image.1).checksumOk = false) := by
      rw [List.zipIdx_map_fst, tornPages]
    rw [numbered, List.filter_map]
    exact restored
  · intro item member
    obtain ⟨original, isOriginal, rfl⟩ := List.mem_map.mp member
    have same := slot original isOriginal
    obtain ⟨block, stamped⟩ := valid.stamped original.1 (List.fst_mem_of_mem_zipIdx isOriginal)
    exact ⟨by simp [same], block, by simp [same, stamped]⟩
  · rw [List.map_map]
    have ids : s.inFlight.zipIdx.map (fun item => item.1.1) = s.inFlight.map Prod.fst := by
      conv_rhs => rw [← List.zipIdx_map_fst 0 s.inFlight, List.map_map]
      rfl
    exact ids ▸ valid.distinct

theorem tornPages_distinct (valid : Valid s) : (s.tornPages.map Prod.fst).Nodup :=
  (List.filter_sublist.map Prod.fst).nodup valid.distinct

theorem mem_tornPages {image : Block} (inFlight : (id, image) ∈ s.inFlight) (inside : id < s.data.len)
    (torn : (s.data.contents id).checksumOk = false) : (id, image) ∈ s.tornPages :=
  List.mem_filter.mpr ⟨inFlight, decide_eq_true ⟨inside, torn⟩⟩

theorem Exposed.inFlight_of_torn (exposed : Exposed s) (valid : Valid s)
    (torn : (s.data.contents id).checksumOk = false) : ∃ image, (id, image) ∈ s.inFlight := by
  by_contra none
  have single : s.candidates id ⊆ {s.base id} := by
    rintro block (base | inFlight)
    · exact base
    · exact absurd ⟨block, inFlight⟩ none
  have same : s.data.contents id = s.base id := ((exposed.data.contents id).mono single).eq
  rw [same, valid.base id] at torn
  cases torn

theorem Exposed.restored (exposed : Exposed s) (valid : Valid s) (settled : s.data.pages.pending = [])
    (beyond : ∀ id, s.data.len ≤ id → s.data.pages.durable id = Block.zero)
    (told : ∀ id, Block.checksumOk (s.data.pages.durable id) = true → s.data.pages.durable id ∈ s.candidates id) :
    ∃ data, (writePages s.tornPages).foldl call s = { s with data } ∧ data.pages.pending = [] ∧
      data.durableLen = data.len ∧ s.data.len ≤ data.len ∧ (∀ id, data.pages.durable id ∈ s.candidates id) ∧
      ∀ id, s.data.len ≤ id → data.pages.durable id = Block.zero := by
  obtain ⟨data, result, done, len, grown, -, written⟩ := writePages_complete s settled (tornPages_distinct valid)
  have contents : s.data.contents = s.data.pages.durable := BlockFile.contents_settled settled
  refine ⟨data, result, done, len, grown, fun id => ?_, fun id outside => ?_⟩
  · rw [written]
    cases found : s.tornPages.lookup id with
    | some block => exact .inr (List.mem_of_mem_filter (mem_of_lookup found))
    | none =>
      refine told id ?_
      by_contra torn
      rw [Bool.not_eq_true, ← contents] at torn
      obtain ⟨image, inFlight⟩ := exposed.inFlight_of_torn valid torn
      by_cases inside : id < s.data.len
      · exact not_mem_of_lookup found (List.mem_map_of_mem (mem_tornPages inFlight inside torn))
      · rw [contents, beyond id (Nat.not_lt.mp inside), Block.checksumOk_zero] at torn
        cases torn
  · rw [written, beyond id outside]
    cases found : s.tornPages.lookup id with
    | some block =>
      have := (of_decide_eq_true (List.mem_filter.mp (mem_of_lookup found)).2).1
      omega
    | none => rfl

theorem Exposed.recover (exposed : Exposed s) (valid : Valid s) (settled : s.data.pages.pending = [])
    (beyond : ∀ id, s.data.len ≤ id → s.data.pages.durable id = Block.zero)
    (told : ∀ id, Block.checksumOk (s.data.pages.durable id) = true → s.data.pages.durable id ∈ s.candidates id)
    (fault : Option Fault) :
    ∃ dwb data, (s.recoverDoubleWrite fault).1 = { s with dwb, data } ∧ s.data.durableLen ≤ data.durableLen ∧
      data.durableLen ≤ data.len ∧
      (Whole { s with dwb, data } ∧ (∀ id, data.durableLen ≤ id → data.pages.durable id = Block.zero) ∨
        Exposed { s with dwb, data } ∧ (s.recoverDoubleWrite fault).2 ≠ .ok ()) := by
  have onData : ∀ c ∈ writePages s.tornPages, c.OnData s.candidates :=
    writePages_onData fun _ isTorn => .inr (List.mem_of_mem_filter isTorn)
  rw [recover_eq (exposed.decoded valid) (exposed.planned valid)]
  by_cases completed : (s.runCalls (writePages s.tornPages) (early fault)).2 = true
  · rw [if_neg (by simp [completed]), runCalls_ok completed]
    obtain ⟨data, result, done, len, grown, pages, zeros⟩ := exposed.restored valid settled beyond told
    rw [result]
    have passes : s.tornPages.find? (fun page => !(({ s with data } : Store).data.contents page.1).checksumOk) =
      none := by
      refine List.find?_eq_none.mpr fun page _ => ?_
      have ok := candidates_ok valid (pages page.1)
      rw [← BlockFile.contents_settled done] at ok
      simpa [DataFile.contents] using ok
    rw [passes]
    obtain ⟨dwb, cleared⟩ := runCalls_dwb (s := { s with data }) clearBatch_onDwb (late fault)
    have durableLen := valid.len
    refine ⟨dwb, data, cleared, by omega, len.le, .inl ⟨⟨done, pages⟩, fun id outside => zeros id ?_⟩⟩
    omega
  · rw [if_pos (by simpa using completed)]
    obtain ⟨data, result, rewritten⟩ := runCalls_data onData exposed.data valid.len (early fault)
    refine ⟨s.dwb, data, result, rewritten.durableLen, rewritten.len, .inr ⟨?_, by simp⟩⟩
    exact { exposed with data := rewritten.made }

def Occurs (s : Store) (id : Nat) (block : Block) : Prop :=
  block ∈ s.candidates id ∨ ∃ survivors, block = (s.crash survivors).data.contents id

/-- No two valid images of a page share a checksum; a page of zeros has the checksum zero. -/
def CollisionFree (s : Store) : Prop :=
  ∀ id a b, s.Occurs id a → s.Occurs id b → a.checksumOk = true → b.checksumOk = true → a.checksum = b.checksum → a = b

theorem CollisionFree.told (free : CollisionFree s) (valid : Valid s) (made : s.data.pages.MadeOf sectorOf s.candidates)
    (survivors : Survivors) (passes : Block.checksumOk ((s.crash survivors).data.pages.durable id) = true) :
    (s.crash survivors).data.pages.durable id ∈ s.candidates id := by
  obtain ⟨block, member, same⟩ := (crash_made valid made survivors).durable id 0
  have checksum : Block.checksum ((s.crash survivors).data.pages.durable id) = Block.checksum block :=
    Block.checksum_congr same
  have equal := free id _ block (.inr ⟨survivors, rfl⟩) (.inl member) passes (candidates_ok valid member) checksum
  exact (show (s.crash survivors).data.pages.durable id = block from equal) ▸ member

theorem recover_crashed (valid : Valid s) (pages : Whole s ∨ Exposed s) (free : CollisionFree s) (survivors : Survivors)
    (fault : Option Fault) :
    ∃ dwb data, ((s.crash survivors).recoverDoubleWrite fault).1 = { s.crash survivors with dwb, data } ∧
      s.data.durableLen ≤ data.durableLen ∧ data.durableLen ≤ data.len ∧
      (Whole { s.crash survivors with dwb, data } ∧ (∀ id, data.durableLen ≤ id → data.pages.durable id = Block.zero) ∨
        Exposed { s.crash survivors with dwb, data } ∧
          ((s.crash survivors).recoverDoubleWrite fault).2 ≠ .ok ()) := by
  have kept : s.data.durableLen ≤ (s.crash survivors).data.durableLen := Nat.le_max_left _ _
  have beyond : ∀ id, (s.crash survivors).data.len ≤ id → (s.crash survivors).data.pages.durable id = Block.zero :=
    fun id outside => if_neg (Nat.not_lt.mpr outside)
  rcases pages with whole | exposed
  · obtain ⟨dwb, result⟩ := recover_whole (valid.crash survivors) (whole.crash valid survivors) rfl fault
    have after := whole.crash valid survivors
    exact ⟨dwb, (s.crash survivors).data, result, kept, Nat.le_refl _, .inl ⟨⟨after.settled, after.pages⟩, beyond⟩⟩
  · obtain ⟨dwb, data, result, grown, len, after⟩ := (exposed.crash valid survivors).recover (valid.crash survivors) rfl
      beyond (fun id passes => free.told valid exposed.data survivors passes) fault
    exact ⟨dwb, data, result, Nat.le_trans kept grown, len, after⟩

theorem Invariant.start (invariant : Invariant s) (accepting : s.poisoned = false) {batch : List (Nat × Block)}
    (isBatch : s.Batch batch) :
    Valid { s with inFlight := stampedImages batch } ∧ Whole { s with inFlight := stampedImages batch } := by
  obtain ⟨-, few, distinct, ids⟩ := isBatch
  obtain ⟨settled, pages⟩ := invariant.accepting accepting
  have images : ∀ image ∈ stampedImages batch, (∃ block : Block, image.2 = block.stampChecksum) ∧ image.1 < 2 ^ 32 := by
    intro image member
    obtain ⟨page, isPage, rfl⟩ := List.mem_map.mp member
    exact ⟨⟨page.2, rfl⟩, ids page isPage⟩
  have length : (stampedImages batch).length = batch.length := List.length_map _
  have named : (stampedImages batch).map Prod.fst = batch.map Prod.fst := by
    rw [stampedImages, List.map_map]
    rfl
  refine ⟨?_, settled, fun id => .inl (pages id)⟩
  exact { invariant.valid with
    stamped := fun image member => (images image member).1
    few := length.trans_le few
    distinct := named ▸ distinct
    ids := fun image member => (images image member).2 }

theorem lookup_candidate (s : Store) (id : Nat) : (s.inFlight.lookup id).getD (s.base id) ∈ s.candidates id := by
  cases found : s.inFlight.lookup id with
  | some block => exact .inr (mem_of_lookup found)
  | none => exact .inl rfl

theorem Valid.finish (valid : Valid s) {dwb : BlockFile (Fin PAGE_SIZE) Nat UInt8} {data : DataFile}
    (settled : data.pages.pending = []) (len : data.durableLen = data.len) (grown : s.data.len ≤ data.len)
    (covered : ∀ image ∈ s.inFlight, image.1 < data.len)
    (written : ∀ id, data.pages.durable id = (s.inFlight.lookup id).getD (s.base id)) :
    Invariant { s with dwb, data, base := fun id => (s.inFlight.lookup id).getD (s.base id), inFlight := [] } := by
  have fresh : ∀ id, data.durableLen ≤ id → (s.inFlight.lookup id).getD (s.base id) = Block.zero := by
    intro id beyond
    have := valid.len
    cases found : s.inFlight.lookup id with
    | some block =>
      have := covered _ (mem_of_lookup found)
      omega
    | none => exact valid.fresh id (by omega)
  refine ⟨?_, .inl ⟨settled, fun id => .inl (written id)⟩, fun _ => ⟨settled, written⟩⟩
  exact {
    room := valid.room
    base := fun id => candidates_ok valid (lookup_candidate s id)
    fresh := fresh
    len := len.le
    stamped := by simp
    few := Nat.zero_le _
    distinct := List.nodup_nil
    ids := by simp }

theorem writeBatch_onDwb (images : List (Nat × Block)) : ∀ c ∈ writeBatch images, c.OnDwb := by
  intro c member
  rw [writeBatch_eq] at member
  rcases List.mem_append.mp member with isWrite | isSync
  · obtain ⟨_, -, rfl⟩ := List.mem_map.mp isWrite
    trivial
  · obtain rfl := List.mem_singleton.mp isSync
    trivial

theorem Exposed.flush (exposed : Exposed s) (valid : Valid s) (settled : s.data.pages.pending = [])
    (base : ∀ id, s.data.pages.durable id = s.base id) (fault : Option Fault) :
    ∃ dwb data, (s.runCalls (writePages s.inFlight ++ clearBatch) fault).1 = { s with dwb, data } ∧
      (¬(s.runCalls (writePages s.inFlight ++ clearBatch) fault).2 = true →
        Invariant { s with dwb, data, poisoned := true }) ∧
      ((s.runCalls (writePages s.inFlight ++ clearBatch) fault).2 = true →
        Invariant { s with dwb, data, base := fun id => (s.inFlight.lookup id).getD (s.base id), inFlight := [] }) := by
  obtain ⟨data, result, done, len, grown, covered, written⟩ := writePages_complete s settled valid.distinct
  simp only [base] at written
  by_cases completed : (s.runCalls (writePages s.inFlight ++ clearBatch) fault).2 = true
  · obtain ⟨dwb, cleared⟩ := runCalls_dwb (s := { s with data }) clearBatch_onDwb none
    refine ⟨dwb, data, ?_, fun failed => absurd completed failed,
      fun _ => valid.finish done len grown covered written⟩
    rw [runCalls_ok completed, List.foldl_append, result]
    exact cleared
  · rcases runCalls_append_failed completed with early | ⟨fault', late⟩
    · have onData : ∀ c ∈ writePages s.inFlight, c.OnData s.candidates := writePages_onData fun _ => Or.inr
      obtain ⟨data, stopped, rewritten⟩ := runCalls_data onData exposed.data valid.len fault
      refine ⟨s.dwb, data, early.trans stopped, fun _ => ?_, fun success => absurd success completed⟩
      refine ⟨?_, .inr { exposed with data := rewritten.made }, by simp⟩
      exact { valid with
        fresh := fun id beyond => valid.fresh id (Nat.le_trans rewritten.durableLen beyond)
        len := rewritten.len }
    · obtain ⟨dwb, stopped⟩ := runCalls_dwb (s := { s with data }) clearBatch_onDwb fault'
      refine ⟨dwb, data, ?_, fun _ => ?_, fun success => absurd success completed⟩
      · rw [late, result]
        exact stopped
      · have pages : ∀ id, data.pages.durable id ∈ s.candidates id := fun id => written id ▸ lookup_candidate s id
        refine ⟨?_, .inl ⟨done, pages⟩, by simp⟩
        have durableLen := valid.len
        exact { valid with
          fresh := fun id beyond => valid.fresh id (by dsimp only at beyond; omega)
          len := len.le }

theorem Invariant.flush (invariant : Invariant s) {batch : List (Nat × Block)} {fault : Option Fault} {s' : Store}
    (flushed : s.flushPages batch fault = some s') : Invariant s' := by
  unfold flushPages at flushed
  split at flushed
  · cases flushed
  · rename_i refused
    rw [not_or, not_not, Bool.not_eq_true] at refused
    obtain ⟨accepting, isBatch⟩ := refused
    obtain ⟨valid, whole⟩ := invariant.start accepting isBatch
    obtain ⟨settled, base⟩ := invariant.accepting accepting
    have some_ : stampedImages batch ≠ [] := by simpa [stampedImages] using isBatch.1
    dsimp only at flushed
    split at flushed
    · obtain rfl := Option.some.inj flushed
      obtain ⟨dwb, stopped⟩ :=
        runCalls_dwb (s := { s with inFlight := stampedImages batch }) (writeBatch_onDwb (stampedImages batch))
          (early fault)
      rw [stopped]
      exact ⟨{ valid with }, .inl ⟨whole.settled, whole.pages⟩, fun _ => ⟨settled, base⟩⟩
    · rename_i completed
      rw [Bool.not_eq_true', Bool.not_eq_false] at completed
      obtain ⟨dwb, result, synced, header, slots⟩ :=
        writeBatch_complete { s with inFlight := stampedImages batch } (stampedImages batch)
      rw [runCalls_ok completed, result] at flushed
      have exposed : Exposed { s with inFlight := stampedImages batch, dwb } :=
        ⟨synced, some_, header, slots, whole.made⟩
      obtain ⟨dwb', data, ended, failure, success⟩ := exposed.flush { valid with } settled base (late fault)
      split at flushed
      · rename_i failed
        obtain rfl := Option.some.inj flushed
        rw [show (Store.runCalls _ _ (late fault)).1 = _ from ended]
        exact failure (by simpa using failed)
      · rename_i succeeded
        obtain rfl := Option.some.inj flushed
        rw [show (Store.runCalls _ _ (late fault)).1 = _ from ended]
        exact success (by simpa using succeeded)

theorem Invariant.restart (invariant : Invariant s) (free : CollisionFree s) (survivors : Survivors)
    (fault : Option Fault) : Invariant (s.restart survivors fault) := by
  have valid := invariant.valid
  obtain ⟨dwb, data, result, durableLen, len, after⟩ :=
    recover_crashed valid invariant.pages free survivors fault
  have opened : Valid { s.crash survivors with dwb, data } :=
    { valid.crash survivors with
      fresh := fun id beyond => valid.fresh id (Nat.le_trans durableLen beyond)
      len := len }
  unfold Store.restart
  dsimp only
  split
  · rename_i succeeded
    rcases after with ⟨whole, zeros⟩ | ⟨-, failed⟩
    · rw [result]
      have contents : data.contents = data.pages.durable := BlockFile.contents_settled whole.settled
      refine ⟨?_, .inl ⟨whole.settled, fun id => .inl ?_⟩, fun _ => ⟨whole.settled, fun id => ?_⟩⟩
      · exact {
          room := opened.room
          base := fun id => by
            dsimp only
            rw [contents]
            exact candidates_ok opened (whole.pages id)
          fresh := fun id beyond => by
            dsimp only
            rw [contents]
            exact zeros id beyond
          len := len
          stamped := by simp
          few := Nat.zero_le _
          distinct := List.nodup_nil
          ids := by simp }
      · dsimp only
        rw [contents]
      · dsimp only
        rw [contents]
    · exact absurd succeeded failed
  · rw [result]
    refine ⟨{ opened with }, ?_, by simp⟩
    rcases after with ⟨whole, -⟩ | ⟨exposed, -⟩
    · exact .inl ⟨whole.settled, whole.pages⟩
    · exact .inr { exposed with }

theorem Invariant.initial (initial : system.init s) : Invariant s := by
  obtain ⟨-, room, -, -, settled, len, pages, fresh, -, none_⟩ := initial
  have same := fun id => (pages id).1
  refine ⟨?_, .inl ⟨settled, fun id => .inl (same id)⟩, fun _ => ⟨settled, same⟩⟩
  exact {
    room := room
    base := fun id => (pages id).2
    fresh := fun id beyond => fresh id (len ▸ beyond)
    len := len.le
    stamped := by simp [none_]
    few := by simp [none_]
    distinct := by simp [none_]
    ids := by simp [none_] }

def ChecksumsTell (s : Store) : Action → Prop
  | .restart _ _ => CollisionFree s
  | .extend _ | .flush _ _ => True

theorem Invariant.reached (reached : system.ReachableBy ChecksumsTell s) : Invariant s := by
  refine reached.invariant (P := Invariant)
    (fun s initial => .initial initial) fun s action s' invariant tell stepped => ?_
  cases action with
  | extend len =>
    obtain rfl := Option.some.inj stepped
    refine ⟨{ invariant.valid with len := Nat.le_trans invariant.valid.len (Nat.le_max_left _ _) }, ?_,
      invariant.accepting⟩
    rcases invariant.pages with whole | exposed
    · exact .inl ⟨whole.settled, whole.pages⟩
    · exact .inr { exposed with }
  | flush batch fault => exact invariant.flush stepped
  | restart survivors fault =>
    obtain rfl := Option.some.inj stepped
    exact invariant.restart tell survivors fault

/-- The first page of a new database file, as `write_header` fills it. -/
def databaseHeader : Block :=
  (Block.ofBytes (List.replicate 12 0 ++
    [70, 69, 82, 82, 79, 68, 66, 0, 11, 0, 0, 0, 255, 255, 255, 255, 0, 16, 0, 0] ++
    List.replicate 8 0 ++ [255, 255, 255, 255])).stampChecksum

/-- A database file with one allocated page that no flush has written. -/
def allocated : Store where
  capacity := 1
  dwb := { durable := fun _ => Block.zero, pending := [] }
  data :=
    { pages := { durable := Function.update (fun _ => Block.zero) 0 databaseHeader, pending := [] }
      durableLen := 2
      len := 2 }
  poisoned := false
  base := Function.update (fun _ => Block.zero) 0 databaseHeader
  inFlight := []

theorem allocated_base {page : Nat} (other : page ≠ 0) : allocated.base page = Block.zero := by
  simp only [allocated, Function.update_of_ne other]

theorem allocated_init : system.init allocated := by
  refine ⟨by decide, by decide, rfl, fun _ => rfl, rfl, rfl, fun page => ⟨rfl, ?_⟩, fun page outside => ?_, rfl, rfl⟩
  · by_cases first : page = 0
    · rw [first]
      exact Block.checksumOk_stampChecksum _
    · rw [allocated_base first]
      exact Block.checksumOk_zero
  · exact allocated_base (Nat.ne_of_gt (Nat.lt_of_lt_of_le Nat.zero_lt_two outside))

/-- The header of a heap page with one row of five bytes; the page LSN is 300. -/
def rowHeader : List UInt8 := [0, 0, 0, 0, 44, 1, 0, 0, 0, 0, 0, 0, 1, 0, 5, 0, 0, 0, 0, 0, 251, 15, 5, 0]

def blankHeader : List UInt8 := List.replicate 24 0

def pageOf (front last : List UInt8) : Block := .ofBytes (front ++ List.replicate 4068 0 ++ last)

section PageOf
variable {front last : List UInt8} (header : front.length = 24) (four : last.length = 4)
include header four

theorem bytes_pageOf : (pageOf front last).bytes = front ++ List.replicate 4068 0 ++ last := by
  have length : (front ++ List.replicate 4068 (0 : UInt8) ++ last).length = PAGE_SIZE := by
    rw [List.length_append, List.length_append, List.length_replicate, header, four]
    rfl
  rw [pageOf, Block.bytes_ofBytes (Nat.le_of_eq length), length, Nat.sub_self, List.replicate_zero, List.append_nil]

theorem checksumOf_pageOf : (pageOf front last).checksumOf.toNat =
    last.foldl (fun crc byte => natCrcStep crc byte.toNat)
      (natCrcZeros 4068 ((front.drop 4).foldl (fun crc byte => natCrcStep crc byte.toNat) 0xFFFFFFFF)) ^^^
        0xFFFFFFFF := by
  have inside : CHECKSUM_END ≤ front.length := header ▸ by decide
  rw [Block.checksumOf, bytes_pageOf header four, List.append_assoc, List.drop_append_of_le_length inside,
    ← List.append_assoc]
  exact toNat_crc32_zeros _ _ _

theorem checksum_pageOf : (pageOf front last).checksum = leValue (front.take 4) := by
  have inside : CHECKSUM_END ≤ front.length := header ▸ by decide
  rw [Block.checksum, bytes_pageOf header four, List.append_assoc, List.take_append_of_le_length inside]
  rfl

end PageOf

theorem pageOf_late {front last : List UInt8} {i : Fin PAGE_SIZE} (header : front.length = 24) (late : 24 ≤ i.val) :
    pageOf front last i = ((List.replicate 4068 0 ++ last)[i.val - 24]?).getD 0 := by
  rw [pageOf, Block.ofBytes, List.append_assoc, List.getElem?_append_right (header ▸ late), header]

theorem pageOf_blank {last : List UInt8} {i : Fin PAGE_SIZE} (early : i.val < 4092) :
    pageOf blankHeader last i = 0 := by
  rw [pageOf, blankHeader, List.replicate_append_replicate, Block.ofBytes,
    List.getElem?_append_left (early.trans_eq List.length_replicate.symm), List.getElem?_replicate, if_pos early,
    Option.getD_some]

/-! The first write of the new page, with a row that ends in the bytes `last`, is torn: only its last sector arrives. -/

def lastSector : Fault := { late := true, call := 0, reached := fun sector => sector == 7 }

def allKept : Survivors := { dwb := fun _ _ => true, data := fun _ _ => true, len := 2 }

def rowImage (last : List UInt8) : Block := (pageOf rowHeader last).stampChecksum

def tornStore (last : List UInt8) : Store :=
  { allocated with
    dwb := (writeBatch [(1, rowImage last)]).foldl (fun s c => s.call c) allocated |>.dwb
    data := allocated.data.write 1 (rowImage last) lastSector.reached
    poisoned := true
    inFlight := [(1, rowImage last)] }

section TornStore
variable {last : List UInt8}

theorem tornStore_run (last : List UInt8) :
    system.run allocated [.flush [(1, pageOf rowHeader last)] (some lastSector)] = some (tornStore last) := rfl

theorem tornStore_reached (last : List UInt8) : system.ReachableBy ChecksumsTell (tornStore last) :=
  .next (a := .flush [(1, pageOf rowHeader last)] (some lastSector)) (.start allocated_init) trivial rfl

theorem mix_rowImage (chosen : Nat → Bool) :
    mix sectorOf (fun k => lastSector.reached k && chosen k) (rowImage last) Block.zero =
      if chosen 7 then pageOf blankHeader last else Block.zero := by
  funext i
  have inside := i.isLt
  rw [mix]
  by_cases here : sectorOf i = 7
  · have late : 24 ≤ i.val := by
      simp only [sectorOf, SECTOR_SIZE] at here
      omega
    have same : rowImage last i = pageOf blankHeader last i := by
      rw [rowImage, Block.stampChecksum, List.getElem?_eq_none (by rw [leBytes_length]; omega), Option.getD_none,
        pageOf_late rfl late, pageOf_late rfl late]
    rw [here, same]
    cases chosen 7 <;> rfl
  · have early : i.val < 4092 := by
      simp only [sectorOf, SECTOR_SIZE, PAGE_SIZE] at here inside
      omega
    have skipped : (lastSector.reached (sectorOf i) && chosen (sectorOf i)) = false := by simp [lastSector, here]
    rw [skipped, if_neg Bool.false_ne_true]
    split
    · exact (pageOf_blank early).symm
    · rfl

theorem tornStore_contents (survivors : Survivors) (id : Nat) : ((tornStore last).crash survivors).data.contents id =
    if id = 1 ∧ survivors.data 0 7 = true then pageOf blankHeader last else allocated.base id := by
  have kept : max (tornStore last).data.durableLen (min survivors.len (tornStore last).data.len) = 2 := by
    simp only [tornStore, allocated, DataFile.write]
    omega
  simp only [crash, DataFile.crash, DataFile.contents, BlockFile.contents, kept, List.foldl_nil]
  by_cases second : id = 1
  · subst second
    simp only [true_and]
    exact mix_rowImage (survivors.data 0)
  · rw [if_neg (show ¬(id = 1 ∧ survivors.data 0 7 = true) from fun both => second both.1)]
    split
    · exact Function.update_of_ne second _ _
    · rename_i outside
      exact (allocated_base (by omega)).symm

theorem tornStore_page : ((tornStore last).crash allKept).data.contents 1 = pageOf blankHeader last :=
  (tornStore_contents allKept 1).trans (if_pos ⟨rfl, rfl⟩)

theorem tornStore_tornPages : ((tornStore last).crash allKept).tornPages =
    if (pageOf blankHeader last).checksumOk then [] else [(1, rowImage last)] := by
  have inFlight : ((tornStore last).crash allKept).inFlight = [(1, rowImage last)] := rfl
  have len : ((tornStore last).crash allKept).data.len = 2 := rfl
  rw [tornPages, inFlight, List.filter_cons, List.filter_nil, tornStore_page, len]
  cases (pageOf blankHeader last).checksumOk <;> rfl

theorem tornStore_occurs {block : Block} {id : Nat} (occurs : (tornStore last).Occurs id block) :
    block = allocated.base id ∨ id = 1 ∧ (block = rowImage last ∨ block = pageOf blankHeader last) := by
  rcases occurs with (isBase | isFlushed) | ⟨survivors, rfl⟩
  · exact .inl isBase
  · obtain ⟨rfl, rfl⟩ := Prod.mk.inj (List.mem_singleton.mp isFlushed)
    exact .inr ⟨rfl, .inl rfl⟩
  · rw [tornStore_contents]
    split
    · rename_i torn
      exact .inr ⟨torn.1, .inr rfl⟩
    · exact .inl rfl

theorem tornStore_exposed : Exposed ((tornStore last).crash allKept) ∧ Valid ((tornStore last).crash allKept) := by
  have invariant := Invariant.reached (tornStore_reached last)
  rcases invariant.pages with whole | exposed
  · exact absurd whole.settled (List.cons_ne_nil _ _)
  · exact ⟨exposed.crash invariant.valid _, invariant.valid.crash _⟩

theorem tornStore_recovers {pages : List (Nat × Block)} (torn : ((tornStore last).crash allKept).tornPages = pages)
    (passes : ∀ page ∈ pages, (((writePages pages).foldl call ((tornStore last).crash allKept)).data.contents
      page.1).checksumOk) :
    ((tornStore last).crash allKept).recoverDoubleWrite none =
      (clearBatch.foldl call ((writePages pages).foldl call ((tornStore last).crash allKept)), .ok ()) := by
  obtain ⟨exposed, valid⟩ := tornStore_exposed
  have planned := exposed.planned valid
  rw [torn] at planned
  have none_ : pages.find? (fun page => !(((writePages pages).foldl call
      ((tornStore last).crash allKept)).data.contents page.1).checksumOk) = none :=
    List.find?_eq_none.mpr fun page member => by simp [passes page member]
  rw [recover_eq (exposed.decoded valid) planned]
  simp only [early, late, Option.filter_none, runCalls, Bool.not_true, Bool.false_eq_true, if_false, none_, if_true]

end TornStore

/-- After a crash at any point recovery leaves every page valid, as before the batch in flight or as in it. -/
theorem recovered_pages_whole (reached : system.ReachableBy ChecksumsTell s) (free : CollisionFree s)
    {survivors : Survivors} {fault : Option Fault} {recovered : Store}
    (ok : (s.crash survivors).recoverDoubleWrite fault = (recovered, .ok ())) :
    s.data.durableLen ≤ recovered.data.len ∧ ∀ id, id < recovered.data.len →
      (recovered.data.contents id).checksumOk = true ∧
      (recovered.data.contents id = s.base id ∨ (id, recovered.data.contents id) ∈ s.inFlight) := by
  have invariant := Invariant.reached reached
  obtain ⟨dwb, data, result, durableLen, len, after⟩ :=
    recover_crashed invariant.valid invariant.pages free survivors fault
  rw [ok] at result after
  obtain rfl : recovered = { s.crash survivors with dwb, data } := result
  rcases after with ⟨whole, -⟩ | ⟨-, failed⟩
  · refine ⟨Nat.le_trans durableLen len, fun id _ => ?_⟩
    rw [whole.contents]
    exact ⟨candidates_ok invariant.valid (whole.pages id), whole.pages id⟩
  · exact absurd rfl failed

/-- A row that ends in 1: the torn page fails its checksum and is restored. -/
theorem recovered_pages_whole_torn :
    ∃ s recovered, system.run allocated [.flush [(1, pageOf rowHeader [1, 0, 0, 0])] (some lastSector)] = some s ∧
      ((s.crash allKept).data.contents 1).checksumOk = false ∧
      (s.crash allKept).recoverDoubleWrite none = (recovered, .ok ()) ∧
      (recovered.data.contents 1).checksumOk = true ∧
      (recovered.data.contents 1 = s.base 1 ∨ (1, recovered.data.contents 1) ∈ s.inFlight) := by
  let torn := pageOf blankHeader [1, 0, 0, 0]
  have fails : torn.checksumOk = false := by
    have filled : torn.isZero = false := by
      rw [Bool.eq_false_iff]
      intro isZero
      have byte := congrFun (Block.isZero_iff.mp isZero) ⟨4092, by decide⟩
      revert byte
      decide +kernel
    have computed : torn.checksumOf.toNat ≠ 0 := by
      rw [checksumOf_pageOf rfl rfl]
      decide +kernel
    rw [Block.checksumOk, filled, checksum_pageOf rfl rfl, Bool.false_or]
    exact beq_eq_false_iff_ne.mpr computed.symm
  have free : CollisionFree (tornStore [1, 0, 0, 0]) := by
    have stored : (rowImage [1, 0, 0, 0]).checksum ≠ (allocated.base 1).checksum := by
      have zero : (allocated.base 1).checksum = 0 := by
        rw [show allocated.base 1 = Block.zero from rfl, Block.checksum, Block.bytes_zero, List.take_replicate]
        decide
      rw [zero, rowImage, Block.checksum_stampChecksum, checksumOf_pageOf rfl rfl]
      decide +kernel
    have valid : ∀ id block, (tornStore [1, 0, 0, 0]).Occurs id block → block.checksumOk = true →
        block = allocated.base id ∨ id = 1 ∧ block = rowImage [1, 0, 0, 0] := by
      intro id block occurs passes
      rcases tornStore_occurs occurs with same | ⟨second, same | rfl⟩
      · exact .inl same
      · exact .inr ⟨second, same⟩
      · exact absurd passes (Bool.eq_false_iff.mp fails)
    intro id a b isA isB passesA passesB same
    rcases valid id a isA passesA with rfl | ⟨isSecond, rfl⟩ <;> rcases valid id b isB passesB with rfl |
      ⟨isSecond, rfl⟩
    · rfl
    · exact absurd (isSecond ▸ same.symm) stored
    · exact absurd (isSecond ▸ same) stored
    · rfl
  have pages := (@tornStore_tornPages [1, 0, 0, 0]).trans (if_neg (Bool.eq_false_iff.mp fails))
  have recovers := tornStore_recovers pages fun image member => by
    obtain rfl := List.mem_singleton.mp member
    exact Block.checksumOk_stampChecksum _
  obtain ⟨_, whole⟩ := recovered_pages_whole (tornStore_reached _) free recovers
  exact ⟨_, _, tornStore_run _, tornStore_page ▸ fails, recovers, whole 1 (by decide)⟩

/-- The images that occur have distinct checksums computed; the stored one is not considered. -/
def CrcTells (s : Store) : Prop :=
  ∀ id a b, s.Occurs id a → s.Occurs id b → a.checksumOf = b.checksumOf →
    a.bytes.drop CHECKSUM_END = b.bytes.drop CHECKSUM_END

def lastBytes : List UInt8 := [27, 133, 111, 201]

theorem checksumOf_torn : (pageOf blankHeader lastBytes).checksumOf.toNat = 0 := by
  rw [checksumOf_pageOf rfl rfl]
  decide +kernel

theorem tornStore_crcTells : (tornStore lastBytes).CrcTells := by
  have zero : (allocated.base 1).checksumOf.toNat = 1614480521 := by
    rw [show allocated.base 1 = Block.zero from rfl, Block.checksumOf, Block.bytes_zero, List.drop_replicate]
    exact toNat_crc32_page
  have row : (rowImage lastBytes).checksumOf.toNat ≠ 0 ∧ (rowImage lastBytes).checksumOf.toNat ≠ 1614480521 := by
    rw [rowImage, Block.checksumOf_stampChecksum, checksumOf_pageOf rfl rfl]
    decide +kernel
  have torn := checksumOf_torn
  intro id a b isA isB same
  have values := congrArg UInt32.toNat same
  suffices a = b by rw [this]
  rcases tornStore_occurs isA with sameA | ⟨second, sameA | sameA⟩ <;>
    rcases tornStore_occurs isB with sameB | ⟨second, sameB | sameB⟩
  all_goals first | (subst second sameA sameB; omega) | exact sameA.trans sameB.symm

theorem zero_page_hides_torn_write :
    ∃ s recovered, system.init allocated ∧
      system.run allocated [.flush [(1, pageOf rowHeader lastBytes)] (some lastSector)] = some s ∧ s.CrcTells ∧
      (s.crash allKept).recoverDoubleWrite none = (recovered, .ok ()) ∧
      recovered.data.contents 1 ≠ s.base 1 ∧ (1, recovered.data.contents 1) ∉ s.inFlight := by
  let torn := pageOf blankHeader lastBytes
  have passes : torn.checksumOk = true := by
    rw [Block.checksumOk, checksumOf_torn, checksum_pageOf rfl rfl, Bool.or_eq_true]
    exact .inr rfl
  have page : ((tornStore lastBytes).crash allKept).data.contents 1 = torn := tornStore_page
  have recovers := tornStore_recovers (tornStore_tornPages.trans (if_pos passes)) (by simp)
  have byte : torn ⟨4092, by decide⟩ = 27 := by decide +kernel
  refine ⟨_, _, allocated_init, tornStore_run _, tornStore_crcTells, recovers, ?_, ?_⟩
  · intro same
    have zero := congrFun (page.symm.trans same) ⟨4092, by decide⟩
    exact absurd (byte.symm.trans zero) (by decide)
  · intro member
    have same := page.symm.trans (Prod.mk.inj (List.mem_singleton.mp member)).2
    have value := congrArg (fun block : Block => block ⟨4, by decide⟩) same
    revert value
    decide +kernel

end Store

end SimpleRdbms.Storage
