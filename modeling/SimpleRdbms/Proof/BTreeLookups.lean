import SimpleRdbms.Lib.Results
import SimpleRdbms.Proof.BTreeHistory

namespace SimpleRdbms.Storage
open Lib BTree

namespace BTreeIndex

def insertAll (index : BTreeIndex) (entries : List LeafEntry) : Except NodeStore.Failure BTreeIndex :=
  entries.foldlM (fun index entry => index.insert entry.key entry.row) index

def PrefixFree (entries : List LeafEntry) : Prop :=
  ∀ entry ∈ entries, ∀ other ∈ entries, entry.key <+: other.key → entry.key = other.key

variable {key key' : Bytes} {entry other : LeafEntry} {entries inserted : List LeafEntry}

theorem append_lt_append (less : key < key') (apart : ¬ key <+: key') (x y : Bytes) : key ++ x < key' ++ y := by
  induction key generalizing key' with
  | nil => exact absurd List.nil_prefix apart
  | cons byte key ih =>
    cases key' with
    | nil => cases less
    | cons byte' key' =>
      rw [List.cons_append, List.cons_append, List.cons_lt_cons_iff]
      rcases List.cons_lt_cons_iff.mp less with first | ⟨rfl, rest⟩
      · exact .inl first
      · exact .inr ⟨rfl, ih rest fun isPrefix => apart (List.cons_prefix_cons.mpr ⟨rfl, isPrefix⟩)⟩

theorem append_lt_append_left_iff (key x y : Bytes) : key ++ x < key ++ y ↔ x < y := by
  induction key with
  | nil => rfl
  | cons byte key ih => simp [ih]

theorem key_lt_sortKey (entry : LeafEntry) : entry.key < entry.sortKey := by
  have longer := (append_lt_append_left_iff entry.key [] entry.row.bytes).mpr (List.nil_lt_cons _ _)
  rwa [List.append_nil] at longer

theorem sortKey_lt_of_lt (less : entry.key < key) (apart : entry.key <+: key → entry.key = key) :
    entry.sortKey < key := by
  have := append_lt_append less (fun isPrefix => less.ne (apart isPrefix)) entry.row.bytes []
  rwa [List.append_nil] at this

theorem le_of_sortKey_lt (less : entry.sortKey < other.sortKey)
    (apart : other.key <+: entry.key → other.key = entry.key) :
    entry.key ≤ other.key := by
  by_contra above
  have above := not_le.mp above
  exact lt_asymm less (append_lt_append above (fun isPrefix => above.ne (apart isPrefix)) _ _)

theorem mem_lookup (ordered : Increasing entries) (free : PrefixFree entries) {row : RowId} :
    row ∈ lookup key entries ↔ ⟨key, row⟩ ∈ entries := by
  rw [lookup, dropWhile_eq_filter (ordered.imp fun {a b} less => by simpa using fun below => less.trans below),
    takeWhile_eq_filter]
  · simp only [List.mem_map, List.mem_filter]
    constructor
    · rintro ⟨entry, ⟨⟨member, -⟩, isKey⟩, rfl⟩
      rw [← eq_of_beq isKey]
      exact member
    · intro member
      refine ⟨_, ⟨⟨member, ?_⟩, by simp⟩, rfl⟩
      simpa using (key_lt_sortKey ⟨key, row⟩).le
  · refine List.Pairwise.imp_of_mem (fun {a b} inFirst inSecond less isKey => ?_) (ordered.filter _)
    obtain rfl := eq_of_beq isKey
    obtain ⟨inFirst, notBefore⟩ := List.mem_filter.mp inFirst
    obtain ⟨inSecond, -⟩ := List.mem_filter.mp inSecond
    refine beq_of_eq (le_antisymm (le_of_sortKey_lt less (free b inSecond a inFirst)) ?_)
    by_contra below
    simp [sortKey_lt_of_lt (not_le.mp below) (free a inFirst b inSecond)] at notBefore

theorem lookup_ordered (ordered : Increasing entries) : (lookup key entries).Pairwise (·.bytes < ·.bytes) := by
  have sublist := (List.takeWhile_sublist (·.key == key)).trans
    (List.dropWhile_sublist (·.sortKey < key) (l := entries))
  refine List.pairwise_map.mpr (List.Pairwise.imp_of_mem (fun {a b} inFirst inSecond less => ?_)
    (ordered.sublist sublist))
  have first := List.mem_takeWhile_imp inFirst
  have second := List.mem_takeWhile_imp inSecond
  rw [LeafEntry.sortKey, LeafEntry.sortKey, eq_of_beq first, eq_of_beq second] at less
  exact (append_lt_append_left_iff key _ _).mp less

theorem mem_range {start stop : Option Bytes} (ordered : Increasing entries) (free : PrefixFree entries)
    (apart : ∀ key ∈ start, ∀ entry ∈ entries, entry.key <+: key → entry.key = key) :
    entry ∈ range start stop entries ↔
      entry ∈ entries ∧ (∀ key ∈ start, key ≤ entry.key) ∧ ∀ key ∈ stop, entry.key < key := by
  rw [range, dropWhile_eq_filter (behind_mono ordered), takeWhile_eq_filter]
  · simp only [List.mem_filter, and_assoc]
    refine and_congr_right fun member => and_congr ?_ ?_
    · cases start with
      | none => simp [behind]
      | some key =>
        simp only [behind, Option.any_some, Option.mem_some_iff, forall_eq', Bool.not_eq_true', decide_eq_false_iff_not,
          not_le]
        refine ⟨fun after => ?_, fun low => low.trans_lt (key_lt_sortKey entry)⟩
        by_contra below
        exact lt_asymm after (sortKey_lt_of_lt (not_le.mp below) (apart key rfl entry member))
    · cases stop <;> simp
  · refine List.Pairwise.imp_of_mem (fun {a b} inFirst inSecond less inside => ?_) (ordered.filter _)
    have low := le_of_sortKey_lt less (free b (List.mem_filter.mp inSecond).1 a (List.mem_filter.mp inFirst).1)
    cases stop with
    | none => rfl
    | some key => simpa using low.trans_lt (by simpa using inside)

theorem Shape.insertAll {index index' : BTreeIndex} {leaves : Level Bytes Nat} {uppers : List (Level Bytes Nat)}
    (shape : index.Shape leaves uppers) (distinct : (index.entries ++ inserted).Nodup)
    (result : index.insertAll inserted = .ok index') :
    ∃ leaves' uppers', index'.Shape leaves' uppers' ∧ index'.entries.Perm (index.entries ++ inserted) := by
  induction inserted generalizing index leaves uppers with
  | nil =>
    cases result
    exact ⟨leaves, uppers, shape, by simp⟩
  | cons entry rest ih =>
    obtain ⟨middle, first, others⟩ := bind_eq_ok.mp result
    have moved : (index.entries ++ entry :: rest).Perm (entry :: (index.entries ++ rest)) := List.perm_middle
    have fresh : entry ∉ index.store.contents leaves := by
      rw [← shape.entries_eq]
      exact fun member => (List.nodup_cons.mp (moved.nodup_iff.mp distinct)).1 (List.mem_append_left _ member)
    obtain ⟨leaves', uppers', shape', -, perm⟩ := shape.inserted fresh first
    rw [← shape.entries_eq, ← shape'.entries_eq] at perm
    have grown := (perm.append_right rest).trans moved.symm
    obtain ⟨leaves'', uppers'', shape'', all⟩ := ih shape' (grown.nodup_iff.mpr distinct) others
    exact ⟨leaves'', uppers'', shape'', all.trans grown⟩

/-- With keys of which none begins another, lookups return exactly what was inserted. -/
theorem lookups_exact {store : NodeStore} {index : BTreeIndex} (distinct : inserted.Nodup) (free : PrefixFree inserted)
    (built : (create store).insertAll inserted = .ok index) :
    (∀ key, ∃ rows, index.get key = .ok rows ∧ rows.Pairwise (·.bytes < ·.bytes) ∧
      ∀ row, row ∈ rows ↔ ⟨key, row⟩ ∈ inserted) ∧
    ∀ start stop : Option Bytes, (∀ key ∈ start, ∀ entry ∈ inserted, entry.key <+: key → entry.key = key) →
      ∃ entries : List LeafEntry, index.rangeScan start stop = entries.map .ok ∧ Increasing entries ∧
        ∀ entry, entry ∈ entries ↔
          entry ∈ inserted ∧ (∀ key ∈ start, key ≤ entry.key) ∧ ∀ key ∈ stop, entry.key < key := by
  have created := create_shape store
  have none_ : (create store).entries = [] := by
    have node : (create store).store.nodes store.pages = .leaf none [] := NodeStore.nodes_write_self ..
    rw [created.entries_eq, NodeStore.contents_cons, NodeStore.leafEntries_leaf node]
    rfl
  obtain ⟨leaves, uppers, shape, perm⟩ := created.insertAll (by rwa [none_]) built
  rw [none_, List.nil_append] at perm
  have ordered : Increasing index.entries := by
    rw [shape.entries_eq]
    exact (increasing_contents shape.chain shape.sorted).1
  have free' : PrefixFree index.entries := fun entry member other member' =>
    free entry (perm.mem_iff.mp member) other (perm.mem_iff.mp member')
  refine ⟨fun key => ⟨_, shape.get_eq shape.entrance_root key, lookup_ordered ordered, fun row => ?_⟩,
    fun start stop apart => ⟨_, shape.rangeScan_eq shape.entrance_root start stop, ?_, fun entry => ?_⟩⟩
  · rw [mem_lookup ordered free', perm.mem_iff]
  · exact ordered.sublist ((List.takeWhile_sublist _).trans (List.dropWhile_sublist _))
  · rw [mem_range ordered free' fun key isStart entry member => apart key isStart entry (perm.mem_iff.mp member),
      perm.mem_iff]

open IndexHistory (empty firstRow)

theorem lookups_exact_two : ∃ index, empty.index.insertAll [⟨[9], firstRow⟩, ⟨[7], firstRow⟩] = .ok index ∧
    ∃ rows, index.get [7] = .ok rows ∧ ∀ row, row ∈ rows ↔
      ⟨[7], row⟩ ∈ [LeafEntry.mk [9] firstRow, ⟨[7], firstRow⟩] := by
  have built : empty.index.insertAll [⟨[9], firstRow⟩, ⟨[7], firstRow⟩] = .ok _ := rfl
  obtain ⟨rows, found, -, exactly⟩ := (lookups_exact (by decide) (by unfold PrefixFree; decide) built).1 [7]
  exact ⟨_, built, rows, found, exactly⟩

end BTreeIndex

end SimpleRdbms.Storage
