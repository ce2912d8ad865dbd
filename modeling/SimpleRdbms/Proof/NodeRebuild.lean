import SimpleRdbms.Lib.Results
import SimpleRdbms.Proof.BTreeFailures
import SimpleRdbms.Storage.BTreeRebuild

namespace SimpleRdbms.Storage.BTreePage
open BTree Lib

variable {old new : Bytes}

structure Runs (old new : Bytes) (i : Nat) (runs : List (Nat × Nat)) : Prop where
  bounds : ∀ run ∈ runs, run.1 < run.2 ∧ run.2 ≤ i
  apart : runs.Pairwise fun first second => first.2 + REBUILD_MERGE_GAP ≤ second.1
  covers : ∀ j < i, old[j]? ≠ new[j]? → ∃ run ∈ runs, run.1 ≤ j ∧ j < run.2

theorem Runs.skip {i : Nat} {runs : List (Nat × Nat)} (state : Runs old new i runs) (same : old[i]? = new[i]?) :
    Runs old new (i + 1) runs := by
  refine ⟨fun run member => ?_, state.apart, fun j before differ => ?_⟩
  · exact ⟨(state.bounds run member).1, Nat.le_succ_of_le (state.bounds run member).2⟩
  · have notHere : j ≠ i := by
      rintro rfl
      exact differ same
    exact state.covers j (by omega) differ

theorem Runs.append {i stop : Nat} {runs : List (Nat × Nat)} (state : Runs old new i runs) (later : i < stop)
    (gap : ∀ run ∈ runs, run.2 + REBUILD_MERGE_GAP ≤ i) : Runs old new stop (runs ++ [(i, stop)]) := by
  refine ⟨?_, ?_, fun j before differ => ?_⟩
  · rw [List.forall_mem_append, List.forall_mem_singleton]
    exact ⟨fun run member => ⟨(state.bounds run member).1, (state.bounds run member).2.trans later.le⟩, later,
      Nat.le_refl _⟩
  · rw [List.pairwise_append]
    exact ⟨state.apart, List.pairwise_singleton _ _, by simpa using gap⟩
  · by_cases early : j < i
    · obtain ⟨run, member, inside⟩ := state.covers j early differ
      exact ⟨run, List.mem_append_left _ member, inside⟩
    · exact ⟨(i, stop), by simp, Nat.not_lt.mp early, before⟩

theorem Runs.extend {i stop : Nat} {front : List (Nat × Nat)} {last : Nat × Nat}
    (state : Runs old new i (front ++ [last])) (later : i < stop) : Runs old new stop (front ++ [(last.1, stop)]) := by
  obtain ⟨within, atLast⟩ := List.forall_mem_append.mp state.bounds
  have nonempty := List.forall_mem_singleton.mp atLast
  obtain ⟨frontApart, -, lastApart⟩ := List.pairwise_append.mp state.apart
  refine ⟨?_, ?_, fun j before differ => ?_⟩
  · rw [List.forall_mem_append, List.forall_mem_singleton]
    exact ⟨fun run member => ⟨(within run member).1, (within run member).2.trans later.le⟩, by omega, Nat.le_refl _⟩
  · rw [List.pairwise_append]
    exact ⟨frontApart, List.pairwise_singleton _ _, by simpa using lastApart⟩
  · by_cases early : j < i
    · obtain ⟨run, member, inside⟩ := state.covers j early differ
      rcases List.mem_append.mp member with inFront | isLast
      · exact ⟨run, List.mem_append_left _ inFront, inside⟩
      · obtain rfl := List.mem_singleton.mp isLast
        exact ⟨(run.1, stop), by simp, inside.1, before⟩
    · exact ⟨(last.1, stop), by simp, by omega, before⟩

theorem Runs.push {i stop : Nat} {runs : List (Nat × Nat)} (state : Runs old new i runs) (later : i < stop) :
    Runs old new stop (pushRun runs i stop) := by
  unfold pushRun
  split
  · rename_i last isLast
    obtain ⟨front, rfl⟩ := List.getLast?_eq_some_iff.mp isLast
    split
    · rw [List.dropLast_concat]
      exact state.extend later
    · rename_i far
      have ends := (state.bounds last (by simp)).2
      have lastGap : last.2 + REBUILD_MERGE_GAP ≤ i := by omega
      refine state.append later (List.forall_mem_append.mpr ⟨fun run member => ?_, by simpa using lastGap⟩)
      have before := (List.pairwise_append.mp state.apart).2.2 run member last (by simp)
      have nonempty := (state.bounds last (by simp)).1
      omega
  · rename_i isEmpty
    rw [List.getLast?_eq_none_iff] at isEmpty
    subst isEmpty
    exact state.append later (by simp)

theorem runEnd_le {i : Nat} (inside : i ≤ old.length) : runEnd old new i ≤ old.length := by
  fun_induction runEnd with
  | case1 i differ ih => exact ih differ.1
  | case2 => exact inside

theorem Runs.finish {i : Nat} {runs : List (Nat × Nat)} (state : Runs old new i runs) (inside : i ≤ old.length) :
    Runs old new old.length (changedByteRunsFrom old new i runs) := by
  fun_induction changedByteRunsFrom with
  | case1 i runs more same ih => exact ih (state.skip same) more
  | case2 i runs more differ ih => exact ih (state.push (lt_runEnd ⟨more, differ⟩)) (runEnd_le inside)
  | case3 i runs done => exact Nat.le_antisymm inside (Nat.not_lt.mp done) ▸ state

theorem changedByteRuns_runs (old new : Bytes) : Runs old new old.length (changedByteRuns old new) := by
  have start : Runs old new 0 [] := ⟨by simp, .nil, by simp⟩
  exact start.finish (Nat.zero_le _)

/-! The runs of a byte string put over another one, and the bytes they hid put back. -/

def overwriteRuns (new : Bytes) : List (Nat × Nat) → Bytes → Bytes × List (Nat × Bytes)
  | [], bytes => (bytes, [])
  | (start, stop) :: runs, bytes =>
    let patch := (new.drop start).take (stop - start)
    let rest := overwriteRuns new runs (splice bytes start patch)
    (rest.1, (start, (bytes.drop start).take patch.length) :: rest.2)

def restoreRuns (saved : List (Nat × Bytes)) (bytes : Bytes) : Bytes :=
  saved.foldr (fun run bytes => splice bytes run.1 run.2) bytes

section
variable {body : Bytes} {runs : List (Nat × Nat)}

theorem length_run {run : Nat × Nat} (inside : run.2 ≤ body.length) :
    ((body.drop run.1).take (run.2 - run.1)).length = run.2 - run.1 := by
  rw [List.length_take, List.length_drop]
  omega

theorem run_inside {bytes : Bytes} {run : Nat × Nat} (size : bytes.length = body.length)
    (bounds : run.1 < run.2 ∧ run.2 ≤ body.length) :
    run.1 + ((body.drop run.1).take (run.2 - run.1)).length ≤ bytes.length := by
  rw [length_run bounds.2]
  omega

theorem restore_overwriteRuns {bytes : Bytes} (size : bytes.length = body.length)
    (bounds : ∀ run ∈ runs, run.1 < run.2 ∧ run.2 ≤ body.length) :
    restoreRuns (overwriteRuns body runs bytes).2 (overwriteRuns body runs bytes).1 = bytes := by
  induction runs generalizing bytes with
  | nil => rfl
  | cons run runs ih =>
    obtain ⟨here, later⟩ := List.forall_mem_cons.mp bounds
    have inside := run_inside size here
    have rest := @ih (splice bytes _ _) (by rw [length_splice inside, size]) later
    exact (congrArg (splice · _ _) rest).trans (splice_splice inside)

theorem getElem?_overwriteRuns {bytes : Bytes} (size : bytes.length = body.length)
    (bounds : ∀ run ∈ runs, run.1 < run.2 ∧ run.2 ≤ body.length) (i : Nat) :
    (overwriteRuns body runs bytes).1[i]? =
      if ∃ run ∈ runs, run.1 ≤ i ∧ i < run.2 then body[i]? else bytes[i]? := by
  induction runs generalizing bytes with
  | nil => simp [overwriteRuns]
  | cons run runs ih =>
    obtain ⟨here, later⟩ := List.forall_mem_cons.mp bounds
    have inside := run_inside size here
    have width : ((body.drop run.1).take (run.2 - run.1)).length = run.2 - run.1 := length_run here.2
    refine (@ih (splice bytes _ _) (by rw [length_splice inside, size]) later).trans ?_
    by_cases covered : ∃ run ∈ runs, run.1 ≤ i ∧ i < run.2
    · obtain ⟨other, member, within⟩ := covered
      rw [if_pos ⟨other, member, within⟩, if_pos ⟨other, List.mem_cons_of_mem _ member, within⟩]
    · rw [if_neg covered]
      by_cases within : run.1 ≤ i ∧ i < run.2
      · rw [if_pos ⟨run, List.mem_cons_self, within⟩, getElem?_splice_inside inside within.1 (by omega),
          List.getElem?_take_of_lt (by omega), List.getElem?_drop, Nat.add_sub_cancel' within.1]
      · rw [if_neg, getElem?_splice_outside inside (by omega)]
        rintro ⟨other, member, there⟩
        rcases List.mem_cons.mp member with rfl | member
        · exact within there
        · exact covered ⟨other, member, there⟩

theorem overwriteRuns_changed {bytes : Bytes} (size : bytes.length = body.length) :
    (overwriteRuns body (changedByteRuns bytes body) bytes).1 = body := by
  have runs := changedByteRuns_runs bytes body
  apply List.ext_getElem?
  intro i
  rw [getElem?_overwriteRuns size (size ▸ runs.bounds)]
  split
  · rfl
  · rename_i uncovered
    by_contra differ
    refine uncovered (runs.covers i ?_ differ)
    by_contra outside
    rw [List.getElem?_eq_none (by omega), List.getElem?_eq_none (by omega)] at differ
    exact differ rfl

/-! On a page the same happens behind the stamped header. -/

theorem stampWrite_body {bytes patch : Bytes} {start : Nat}
    (inside : NODE_TYPE_START + start + patch.length ≤ bytes.length)
    (lsn : Nat) : (stampWrite bytes (NODE_TYPE_START + start) patch lsn).length = bytes.length ∧
      (stampWrite bytes (NODE_TYPE_START + start) patch lsn).drop NODE_TYPE_START =
        splice (bytes.drop NODE_TYPE_START) start patch := by
  have spliced := length_splice inside
  have eight : PAGE_LSN_START + (leBytes 8 lsn).length = NODE_TYPE_START := by rw [leBytes_length]; rfl
  have room : NODE_TYPE_START ≤ bytes.length := by omega
  rw [stampWrite, setPageLsn]
  refine ⟨(length_splice (by omega)).trans spliced, ?_⟩
  rw [drop_splice_before eight.le (by omega), drop_splice room]

theorem writeRuns_body {bytes : Bytes} (lsns : Nat → Nat) (pageId : Nat)
    (size : bytes.length = NODE_TYPE_START + body.length)
    (bounds : ∀ run ∈ runs, run.1 < run.2 ∧ run.2 ≤ body.length) :
    let written := writeRuns lsns pageId NODE_TYPE_START body runs bytes
    let overwritten := overwriteRuns body runs (bytes.drop NODE_TYPE_START)
    written.1.length = bytes.length ∧ written.1.drop NODE_TYPE_START = overwritten.1 ∧
      ∀ (clrs : Nat → Nat) (page : Bytes), page.length = bytes.length →
        (undoRecords clrs written.2 page).length = bytes.length ∧
        (undoRecords clrs written.2 page).drop NODE_TYPE_START =
          restoreRuns overwritten.2 (page.drop NODE_TYPE_START) := by
  induction runs generalizing bytes lsns with
  | nil => exact ⟨rfl, rfl, fun _ _ same => ⟨same, rfl⟩⟩
  | cons run runs ih =>
    obtain ⟨here, later⟩ := List.forall_mem_cons.mp bounds
    have width : ((body.drop run.1).take (run.2 - run.1)).length = run.2 - run.1 := length_run here.2
    have inside : NODE_TYPE_START + run.1 + ((body.drop run.1).take (run.2 - run.1)).length ≤ bytes.length := by omega
    obtain ⟨kept, stamped⟩ := stampWrite_body inside (lsns 0)
    obtain ⟨length, written, undone⟩ := @ih (stampWrite bytes (NODE_TYPE_START + run.1)
      ((body.drop run.1).take (run.2 - run.1)) (lsns 0)) (lsns ∘ (· + 1)) (kept.trans size) later
    rw [stamped] at written undone
    refine ⟨length.trans kept, written, fun clrs page same => ?_⟩
    obtain ⟨long, restored⟩ := undone (clrs ∘ (· + 1)) page (same.trans kept.symm)
    have room : NODE_TYPE_START + run.1 + ((bytes.drop (NODE_TYPE_START + run.1)).take
        ((body.drop run.1).take (run.2 - run.1)).length).length ≤ bytes.length := by
      rw [List.length_take, List.length_drop, width]
      omega
    obtain ⟨kept', stamped'⟩ := stampWrite_body (room.trans_eq (long.trans kept).symm) (clrs 0)
    refine ⟨(kept'.trans long).trans kept, stamped'.trans ?_⟩
    rw [restored, ← List.drop_drop]
    rfl

end

structure Placed (body : Bytes) (slotsEnd dataEnd k : Nat) (entry : Bytes) (start : Nat) : Prop where
  offset : Stands body (9 + k * 4) (leBytes 2 (start + 12))
  length : Stands body (9 + k * 4 + 2) (leBytes 2 entry.length)
  payload : Stands body start entry
  above : slotsEnd ≤ start
  below : start + entry.length ≤ dataEnd

theorem placeEntries_cons (body entry : Bytes) (dataEnd i : Nat) (entries : List Bytes) :
    placeEntries body dataEnd i (entry :: entries) =
      placeEntries (splice (splice (splice body (dataEnd - entry.length) entry) (9 + i * 4)
        (leBytes 2 (dataEnd - entry.length + 12))) (9 + i * 4 + 2) (leBytes 2 entry.length)) (dataEnd - entry.length)
        (i + 1) entries := rfl

theorem totalLen_cons (entry : Bytes) (entries : List Bytes) :
    totalLen (entry :: entries) = entry.length + totalLen entries := rfl

theorem placeEntries_placed {entries : List Bytes} {body : Bytes} {dataEnd i : Nat}
    (room : 9 + (i + entries.length) * 4 + totalLen entries ≤ dataEnd) (fits : dataEnd ≤ body.length) :
    (placeEntries body dataEnd i entries).length = body.length ∧
      (∀ place patch, Stands body place patch → place + patch.length ≤ 9 + i * 4 ∨ dataEnd ≤ place →
        Stands (placeEntries body dataEnd i entries) place patch) ∧
      ∀ k entry, entries[k]? = some entry →
        ∃ start, Placed (placeEntries body dataEnd i entries) (9 + (i + entries.length) * 4) dataEnd
          (i + k) entry start := by
  induction entries generalizing body dataEnd i with
  | nil => exact ⟨rfl, fun _ _ holds _ => holds, by simp⟩
  | cons entry entries ih =>
    rw [totalLen_cons, List.length_cons] at room
    have two (value : Nat) : (leBytes 2 value).length = 2 := leBytes_length 2 value
    have payload : dataEnd - entry.length + entry.length ≤ body.length := by omega
    have first : 9 + i * 4 + (leBytes 2 (dataEnd - entry.length + 12)).length ≤
        (splice body (dataEnd - entry.length) entry).length := by
      rw [length_splice payload, two]
      omega
    have second : 9 + i * 4 + 2 + (leBytes 2 entry.length).length ≤
        (splice (splice body (dataEnd - entry.length) entry) (9 + i * 4)
          (leBytes 2 (dataEnd - entry.length + 12))).length := by
      rw [length_splice first, length_splice payload, two]
      omega
    rw [placeEntries_cons]
    obtain ⟨size, kept, placed⟩ := @ih _ (dataEnd - entry.length) (i + 1) (by omega)
      (Nat.le_trans (by omega) (Nat.le_of_eq
        (((length_splice second).trans (length_splice first)).trans (length_splice payload)).symm))
    refine ⟨?_, fun place patch holds apart => ?_, fun k found isEntry => ?_⟩
    · rw [size, length_splice second, length_splice first, length_splice payload]
    · have := two (dataEnd - entry.length + 12)
      have := two entry.length
      exact kept place patch (((holds.splice payload (by omega)).splice first (by omega)).splice second (by omega))
        (by omega)
    · cases k with
      | zero =>
        obtain rfl := Option.some.inj isEntry
        have := two (dataEnd - entry.length + 12)
        have := two entry.length
        refine ⟨dataEnd - entry.length, kept _ _ ((holds_splice first).splice second (by omega)) (by omega),
          kept _ _ (holds_splice second) (by omega),
          kept _ _ (((holds_splice payload).splice first (by omega)).splice second (by omega)) (by omega), ?_, ?_⟩
        · rw [List.length_cons]
          omega
        · omega
      | succ k =>
        obtain ⟨start, at_⟩ := placed k found isEntry
        have slots : i + (entries.length + 1) = i + 1 + entries.length := by omega
        have slot : i + (k + 1) = i + 1 + k := by omega
        refine ⟨start, ?_⟩
        rw [List.length_cons, slots, slot]
        exact { at_ with below := by have := at_.below; omega }

theorem rebuildHeader_holds {body : Bytes} (kind : NodeType) (tail : Option Nat) (entries : List Bytes)
    (room : 9 ≤ body.length) :
    (rebuildHeader body kind tail entries).length = body.length ∧
      Stands (rebuildHeader body kind tail entries) 0 [kind.tag] ∧
      Stands (rebuildHeader body kind tail entries) 1 (leBytes 2 entries.length) ∧
      Stands (rebuildHeader body kind tail entries) 5 (leBytes 4 (tail.getD 0)) := by
  have two (value : Nat) : (leBytes 2 value).length = 2 := leBytes_length 2 value
  have four := leBytes_length 4 (tail.getD 0)
  have count := two entries.length
  have total := two (totalLen entries)
  have one : [kind.tag].length = 1 := rfl
  have tag : 0 + [kind.tag].length ≤ body.length := by omega
  have second : 1 + (leBytes 2 entries.length).length ≤ (splice body 0 [kind.tag]).length := by
    rw [length_splice tag]
    omega
  have third : 3 + (leBytes 2 (totalLen entries)).length ≤
      (splice (splice body 0 [kind.tag]) 1 (leBytes 2 entries.length)).length := by
    rw [length_splice second, length_splice tag]
    omega
  have last : 5 + (leBytes 4 (tail.getD 0)).length ≤
      (splice (splice (splice body 0 [kind.tag]) 1 (leBytes 2 entries.length)) 3
        (leBytes 2 (totalLen entries))).length := by
    rw [length_splice third, length_splice second, length_splice tag]
    omega
  refine ⟨?_, ?_, ?_, holds_splice last⟩
  · rw [rebuildHeader, length_splice last, length_splice third, length_splice second, length_splice tag]
  · exact (((holds_splice tag).splice second (by omega)).splice third (by omega)).splice last (by omega)
  · exact ((holds_splice second).splice third (by omega)).splice last (by omega)

theorem byteAt_of_holds {bytes patch : Bytes} {start j : Nat} {byte : UInt8} (holds : Stands bytes start patch)
    (here : patch[j]? = some byte) : byteAt bytes (start + j) = .ok byte := by
  rw [byteAt, holds j (List.getElem?_eq_some_iff.mp here).1, here]
  rfl

theorem readU16_of_holds {bytes : Bytes} {start value : Nat} (holds : Stands bytes start (leBytes 2 value))
    (small : value < 65536) : readU16 bytes start = .ok value := by
  have low := byteAt_of_holds (j := 0) holds rfl
  have high := byteAt_of_holds (j := 1) holds rfl
  have read : leValue (leBytes 2 value) = value := leValue_leBytes small
  rw [readU16, show byteAt bytes start = _ from low, high]
  exact congrArg Except.ok read

theorem readU32_of_holds {bytes : Bytes} {start value : Nat} (holds : Stands bytes start (leBytes 4 value))
    (small : value < 4294967296) : readU32 bytes start = .ok value := by
  have first := byteAt_of_holds (j := 0) holds rfl
  have read : leValue (leBytes 4 value) = value := leValue_leBytes small
  rw [readU32, show byteAt bytes start = _ from first, byteAt_of_holds (j := 1) holds rfl,
    byteAt_of_holds (j := 2) holds rfl, byteAt_of_holds (j := 3) holds rfl]
  exact congrArg Except.ok read

section
variable {front body : Bytes} {pageId count : Nat} (size : front.length = 12)
  (counted : Stands body 1 (leBytes 2 count)) (few : count ≤ MAX_SLOTS)
include size

theorem holds_page {start : Nat} {patch : Bytes} (holds : Stands body start patch) :
    Stands (front ++ body) (12 + start) patch := by
  rw [← size]
  exact holds_append_right holds

include counted few

theorem checkedSlotCount_holds : checkedSlotCount (front ++ body) pageId = .ok count := by
  have small : count < 65536 := Nat.lt_of_le_of_lt few (by decide)
  have read : slotCount (front ++ body) = .ok count := readU16_of_holds (holds_page size counted) small
  rw [checkedSlotCount, read, ok_bind, if_neg (Nat.not_lt.mpr few)]
  rfl

theorem entryPayload_placed {k start : Nat} {entry : Bytes} (inside : k < count) (whole : body.length = 4084)
    (placed : Placed body (9 + count * 4) 4084 k entry start) : entryPayload (front ++ body) k pageId = .ok entry := by
  have below := placed.below
  have offset : readU16 (front ++ body) (slotOffset k) = .ok (start + 12) := by
    have at_ : slotOffset k = 12 + (9 + k * 4) := by
      simp only [slotOffset, HEADER_SIZE, SLOT_SIZE]
      omega
    rw [at_]
    exact readU16_of_holds (holds_page size placed.offset) (by omega)
  have length : readU16 (front ++ body) (slotOffset k + 2) = .ok entry.length := by
    have at_ : slotOffset k + 2 = 12 + (9 + k * 4 + 2) := by
      simp only [slotOffset, HEADER_SIZE, SLOT_SIZE]
      omega
    rw [at_]
    exact readU16_of_holds (holds_page size placed.length) (by omega)
  have behind : ¬ start + 12 < slotOffset count := by
    have := placed.above
    simp only [slotOffset, HEADER_SIZE, SLOT_SIZE]
    omega
  have read : slice (front ++ body) (start + 12) (start + 12 + entry.length) = some entry := by
    rw [slice, if_pos ⟨Nat.le_add_right _ _, by rw [List.length_append]; omega⟩, Nat.add_sub_cancel_left,
      Nat.add_comm start, (holds_page size placed.payload).take_drop]
  rw [entryPayload, slotEntry, checkedSlotCount_holds size counted few, ok_bind, if_neg (Nat.not_le.mpr inside), offset,
    length]
  simp only [ok_bind, pure_bind]
  rw [if_neg behind, read]
  rfl

end

structure Laid (kind : NodeType) (tail : Option Nat) (entries : List Bytes) (body : Bytes) : Prop where
  size : body.length = 4084
  tag : Stands body 0 [kind.tag]
  count : Stands body 1 (leBytes 2 entries.length)
  tail : Stands body 5 (leBytes 4 (tail.getD 0))
  placed : ∀ k entry, entries[k]? = some entry → ∃ start, Placed body (9 + entries.length * 4) 4084 k entry start

theorem laid_placeEntries {current : Bytes} (kind : NodeType) (tail : Option Nat) {entries : List Bytes}
    (size : current.length = 4084) (room : 9 + entries.length * 4 + totalLen entries ≤ 4084) :
    Laid kind tail entries (placeEntries (rebuildHeader current kind tail entries) 4084 0 entries) := by
  obtain ⟨headed, tag, count, last⟩ := rebuildHeader_holds kind tail entries (Nat.le_trans (by decide) size.ge)
  obtain ⟨kept, frame, placed⟩ := @placeEntries_placed entries (rebuildHeader current kind tail entries) 4084 0
    (by omega) (by omega)
  simp only [Nat.zero_add] at placed
  exact ⟨by omega, frame 0 _ tag (by simp), frame 1 _ count (by simp), frame 5 _ last (by simp), placed⟩

theorem Laid.decodes {kind : NodeType} {tail : Option Nat} {entries : List Bytes} {front body : Bytes}
    (laid : Laid kind tail entries body) (size : front.length = 12) (few : entries.length ≤ MAX_SLOTS)
    (small : tail.getD 0 < 4294967296) (pageId : Nat) :
    nodeType (front ++ body) = .ok kind ∧
      readEntries (front ++ body) pageId = .ok (tail.filter (· ≠ 0), entries) := by
  have tag : byteAt (front ++ body) NODE_TYPE_START = .ok kind.tag :=
    byteAt_of_holds (j := 0) (holds_page size laid.tag) rfl
  have last : readU32 (front ++ body) TAIL_START = .ok (tail.getD 0) :=
    readU32_of_holds (holds_page size laid.tail) small
  have payloads : (List.range entries.length).mapM (fun slot => entryPayload (front ++ body) slot pageId) =
      .ok entries := by
    rw [mapM_eq_ok, List.forall₂_iff_get]
    refine ⟨List.length_range, fun k _ inside => ?_⟩
    obtain ⟨start, placed⟩ := laid.placed k _ (List.getElem?_eq_getElem inside)
    simpa using entryPayload_placed size laid.count few inside laid.size placed
  constructor
  · rw [nodeType, tag]
    cases kind <;> rfl
  · rw [readEntries, tailRaw, last, checkedSlotCount_holds size laid.count few]
    simp only [ok_bind, pure_bind, payloads]
    cases tail with
    | none => rfl
    | some id => by_cases zero : id = 0 <;> simp [zero, pure, Except.pure, Option.filter]

theorem rebuild_decodes {image : Image} {lsns : Nat → Nat} {pageId : Nat} {kind : NodeType} {tail : Option Nat}
    {entries : List Bytes} {bytes : Bytes} {records : List LogRecordKind} (small : tail.getD 0 < 4294967296)
    (rebuilt : rebuild lsns image.bytes pageId kind tail entries = .ok (bytes, records)) :
    nodeType bytes = .ok kind ∧ readEntries bytes pageId = .ok (tail.filter (· ≠ 0), entries) ∧
      ∀ clrs, (undoRecords clrs records bytes).drop NODE_TYPE_START = image.bytes.drop NODE_TYPE_START := by
  have page : image.bytes.length = 4096 := image.size
  have current : (image.bytes.drop NODE_TYPE_START).length = 4084 := by
    rw [List.length_drop, page]
    rfl
  unfold rebuild at rebuilt
  dsimp only at rebuilt
  split at rebuilt
  · cases rebuilt
  · rename_i enough
    have room : 9 + entries.length * 4 + totalLen entries ≤ 4084 := current ▸ Nat.not_lt.mp enough
    have few : entries.length ≤ MAX_SLOTS := by
      simp only [MAX_SLOTS, PAGE_SIZE, HEADER_SIZE, SLOT_SIZE]
      omega
    rw [current] at rebuilt
    have laid := laid_placeEntries kind tail current room
    generalize placeEntries (rebuildHeader _ kind tail entries) 4084 0 entries = body at rebuilt laid
    have size : (image.bytes.drop NODE_TYPE_START).length = body.length := current.trans laid.size.symm
    have bounds := (changedByteRuns_runs (image.bytes.drop NODE_TYPE_START) body).bounds
    rw [size] at bounds
    obtain ⟨length, written, undone⟩ := writeRuns_body lsns pageId
      (page.trans (congrArg (NODE_TYPE_START + ·) laid.size.symm)) bounds
    have restored := restore_overwriteRuns size bounds
    rw [overwriteRuns_changed size] at written restored
    rw [Except.ok.inj rebuilt] at length written undone
    have front : (bytes.take NODE_TYPE_START).length = 12 := by
      rw [List.length_take, length, page]
      rfl
    have decoded := laid.decodes front few small pageId
    rw [← written, List.take_append_drop] at decoded
    refine ⟨decoded.1, decoded.2, fun clrs => ?_⟩
    rw [(undone clrs bytes length).2, written, restored]

theorem rebuild_succeeds (lsns : Nat → Nat) (image : Image) (pageId : Nat) (kind : NodeType) (tail : Option Nat)
    (entries : List Bytes) (room : 9 + entries.length * 4 + totalLen entries ≤ 4084) :
    ∃ bytes records, rebuild lsns image.bytes pageId kind tail entries = .ok (bytes, records) := by
  have current : (image.bytes.drop NODE_TYPE_START).length = 4084 := by
    rw [List.length_drop, image.size]
    rfl
  unfold rebuild
  exact ⟨_, _, if_neg (Nat.not_lt.mpr (current ▸ room))⟩

/-- The difference of two byte strings is exact and can be taken back, and so is a node written by it. The tail that a
node is written with is never page 0, which stands for none. -/
theorem rebuild_exact_reversible :
    (∀ old new : Bytes, old.length = new.length →
      (∀ run ∈ changedByteRuns old new, run.1 < run.2 ∧ run.2 ≤ old.length) ∧
      (changedByteRuns old new).Pairwise (fun first second => first.2 + REBUILD_MERGE_GAP ≤ second.1) ∧
      (∀ i, old[i]? ≠ new[i]? → ∃ run ∈ changedByteRuns old new, run.1 ≤ i ∧ i < run.2) ∧
      (overwriteRuns new (changedByteRuns old new) old).1 = new ∧
      restoreRuns (overwriteRuns new (changedByteRuns old new) old).2 new = old) ∧
    (∀ (lsns : Nat → Nat) (image : Image) (pageId : Nat) (kind : NodeType) (tail : Option Nat) (entries : List Bytes)
      (bytes : Bytes) (records : List LogRecordKind), (∀ id ∈ tail, id ≠ 0 ∧ id < 2 ^ 32) →
      rebuild lsns image.bytes pageId kind tail entries = .ok (bytes, records) →
      nodeType bytes = .ok kind ∧ readEntries bytes pageId = .ok (tail, entries) ∧
        ∀ clrs, (undoRecords clrs records bytes).drop NODE_TYPE_START = image.bytes.drop NODE_TYPE_START) ∧
    ∀ (history : IndexHistory) (pageId : Nat), IndexHistory.system.Reachable history →
      history.index.store.Under history.index.rootPageId pageId →
      ∀ id ∈ (history.index.store.nodes pageId).tail, id ≠ 0 := by
  refine ⟨?_, ?_, fun history pageId reached under => IndexHistory.tail_ne_zero reached under⟩
  · intro old new length
    have runs := changedByteRuns_runs old new
    have restored := restore_overwriteRuns length (length ▸ runs.bounds)
    rw [overwriteRuns_changed length] at restored
    refine ⟨runs.bounds, runs.apart, fun i differ => runs.covers i ?_ differ, overwriteRuns_changed length, restored⟩
    by_contra outside
    rw [List.getElem?_eq_none (by omega), List.getElem?_eq_none (by omega)] at differ
    exact differ rfl
  · intro lsns image pageId kind tail entries bytes records nonzero rebuilt
    cases tail with
    | none => exact rebuild_decodes (by decide) rebuilt
    | some id =>
      have small : (some id).getD 0 < 4294967296 := (nonzero id rfl).2
      have decoded := rebuild_decodes small rebuilt
      rwa [Option.filter_some, if_pos (by simpa using (nonzero id rfl).1)] at decoded

def blankImage : Image := ⟨List.replicate 4096 0, List.length_replicate⟩

theorem rebuild_exact_reversible_blank :
    (overwriteRuns [1, 2, 4] (changedByteRuns [1, 2, 3] [1, 2, 4]) [1, 2, 3]).1 = [1, 2, 4] ∧
      ∃ bytes records, rebuild id blankImage.bytes 7 .internal (some 3) [[1, 0, 5, 9, 0, 0, 0]] = .ok (bytes, records) ∧
        nodeType bytes = .ok .internal ∧ readEntries bytes 7 = .ok (some 3, [[1, 0, 5, 9, 0, 0, 0]]) ∧
        (undoRecords id records bytes).drop NODE_TYPE_START = blankImage.bytes.drop NODE_TYPE_START := by
  obtain ⟨exact_, decodes, -⟩ := rebuild_exact_reversible
  obtain ⟨bytes, records, rebuilt⟩ :=
    rebuild_succeeds id blankImage 7 .internal (some 3) [[1, 0, 5, 9, 0, 0, 0]] (by decide)
  obtain ⟨kind, entries, undone⟩ := decodes id blankImage 7 .internal (some 3) _ bytes records (by simp) rebuilt
  exact ⟨(exact_ [1, 2, 3] [1, 2, 4] rfl).2.2.2.1, bytes, records, rebuilt, kind, entries, undone id⟩

end SimpleRdbms.Storage.BTreePage
