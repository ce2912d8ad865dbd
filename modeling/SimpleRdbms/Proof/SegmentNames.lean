import Mathlib.Data.Finset.Sort
import SimpleRdbms.Proof.LogLifetime
import SimpleRdbms.Proof.Utf8
import SimpleRdbms.Storage.SegmentNames

namespace SimpleRdbms.Storage
open Text Lib

def padded (width value : Nat) : Text := (Nat.toDigits 10 value).leftpad width '0'

theorem padded_succ {width digit : Nat} (value : Nat) (some_ : 1 ≤ width) (small : digit < 10) :
    padded (width + 1) (10 * value + digit) = padded width value ++ [digit.digitChar] := by
  rcases Nat.eq_zero_or_pos value with rfl | positive
  · rw [padded, padded, Nat.mul_zero, Nat.zero_add, Nat.toDigits_of_lt_base small, Nat.toDigits_of_lt_base (by decide)]
    obtain ⟨width, rfl⟩ := Nat.exists_eq_add_of_le' some_
    exact congrArg (· ++ _) List.replicate_succ'
  · rw [padded, padded, ← Nat.toDigits_append_toDigits (by decide) positive small, Nat.toDigits_of_lt_base small,
      List.leftpad, List.leftpad, List.length_append, List.length_singleton, Nat.add_sub_add_right, List.append_assoc]

theorem asBytes_digitChar {digit : Nat} (small : digit < 10) :
    asBytes [digit.digitChar] = [UInt8.ofNat (48 + digit)] := by
  have all : ∀ digit : Fin 10, asBytes [digit.val.digitChar] = [UInt8.ofNat (48 + digit.val)] := by decide +kernel
  exact all ⟨digit, small⟩

theorem toNat_digit {digit : Nat} (small : digit < 10) : (UInt8.ofNat (48 + digit)).toNat = 48 + digit := by
  rw [UInt8.toNat_ofNat']
  omega

theorem decimal_append (digits : Bytes) (last : UInt8) :
    decimal (digits ++ [last]) = 10 * decimal digits + (last.toNat - 48) := by
  rw [decimal, List.foldl_append]
  rfl

theorem padded_one {value : Nat} (small : value < 10) : (padded 1 value).asBytes = [UInt8.ofNat (48 + value)] := by
  rw [padded, Nat.toDigits_of_lt_base small]
  exact asBytes_digitChar small

theorem padded_digits {width value : Nat} (some_ : 1 ≤ width) (fits : value < 10 ^ width) :
    (padded width value).asBytes.length = width ∧ (padded width value).asBytes.all isAsciiDigit ∧
      decimal (padded width value).asBytes = value := by
  induction width, some_ using Nat.le_induction generalizing value with
  | base =>
    rw [padded_one (by simpa using fits)]
    refine ⟨rfl, ?_, ?_⟩ <;> simp [decimal, isAsciiDigit] <;> omega
  | succ width some_ ih =>
    have small := Nat.mod_lt value (by decide : 0 < 10)
    obtain ⟨length, digits, read⟩ := @ih (value / 10) (by omega)
    rw [← Nat.div_add_mod value 10, padded_succ _ some_ small, asBytes_append, asBytes_digitChar small]
    refine ⟨by rw [List.length_append, length, List.length_singleton], ?_, ?_⟩
    · rw [List.all_append, digits]
      simp [isAsciiDigit]
      omega
    · rw [decimal_append, read, toNat_digit small]
      omega

theorem padded_decimal {digits : Bytes} (some_ : digits ≠ []) (all : digits.all isAsciiDigit) :
    (padded digits.length (decimal digits)).asBytes = digits ∧ decimal digits < 10 ^ digits.length := by
  induction digits using List.reverseRecOn with
  | nil => exact absurd rfl some_
  | append_singleton digits last ih =>
    rw [List.all_append, Bool.and_eq_true] at all
    have isDigit : 48 ≤ last.toNat ∧ last.toNat ≤ 57 := by simpa [isAsciiDigit] using all.2
    have small : last.toNat - 48 < 10 := by omega
    have same : UInt8.ofNat (48 + (last.toNat - 48)) = last := by
      rw [Nat.add_sub_cancel' isDigit.1, UInt8.ofNat_toNat]
    rw [decimal_append, List.length_append, List.length_singleton]
    by_cases first : digits = []
    · subst first
      rw [show decimal [] = 0 from rfl]
      refine ⟨?_, by simpa using small⟩
      rw [Nat.mul_zero, Nat.zero_add]
      exact (padded_one small).trans (congrArg (fun byte => [byte]) same)
    · obtain ⟨read, bound⟩ := ih first all.1
      rw [padded_succ _ (List.length_pos_iff.mpr first) small, asBytes_append, read, asBytes_digitChar small, same]
      exact ⟨rfl, by omega⟩

theorem segmentPath_eq (base : Bytes) (id : Nat) :
    segmentPath base id = base ++ asBytes ['.'] ++ (padded 6 id).asBytes := by
  rw [segmentPath, ← List.singleton_append, asBytes_append, List.append_assoc]
  rfl

theorem listedId_segmentPath (text : Text) {id : Nat} (named : id < SEGMENT_NAMES) :
    listedId (text.asBytes ++ asBytes ['.']) (segmentPath text.asBytes id) = some id := by
  obtain ⟨length, digits, read⟩ := padded_digits (by decide : 1 ≤ 6) (Nat.lt_of_lt_of_eq named (by decide))
  have isStr : toStr (segmentPath text.asBytes id) = some (segmentPath text.asBytes id) := by
    rw [segmentPath, ← asBytes_append, toStr, fromUtf8_asBytes]
    rfl
  have behind : (segmentPath text.asBytes id).dropPrefix? (text.asBytes ++ asBytes ['.']) =
      some (padded 6 id).asBytes := List.dropPrefix?_eq_some_iff.mpr ⟨_, segmentPath_eq _ id, by simp⟩
  have some_ : (padded 6 id).asBytes ≠ [] := by
    rw [← List.length_pos_iff, length]
    decide
  have small : id < 2 ^ 64 := named.trans (by decide)
  simp only [listedId, isStr, behind, Option.bind_eq_bind, Option.bind_some]
  rw [if_pos ⟨length, some_, digits⟩, parseU64, read, if_pos ⟨some_, digits, small⟩]

theorem of_listedId {base name : Bytes} {id : Nat} (listed : listedId (base ++ asBytes ['.']) name = some id) :
    name = segmentPath base id ∧ id < SEGMENT_NAMES := by
  obtain ⟨str, isStr, listed⟩ := Option.bind_eq_some_iff.mp listed
  obtain ⟨digits, behind, parsed⟩ := Option.bind_eq_some_iff.mp listed
  obtain ⟨_, _, rfl⟩ := Option.map_eq_some_iff.mp isStr
  obtain ⟨leading, split, same⟩ := List.dropPrefix?_eq_some_iff.mp behind
  obtain rfl := eq_of_beq same
  split at parsed
  · rename_i six
    unfold parseU64 at parsed
    split at parsed
    · obtain rfl := Option.some.inj parsed
      obtain ⟨read, bound⟩ := padded_decimal six.2.1 six.2.2
      rw [six.1] at read bound
      exact ⟨by rw [split, segmentPath_eq, read], bound⟩
    · exact absurd parsed (by simp)
  · exact absurd parsed (by simp)

structure Directory (base : Bytes) (ids : Finset Nat) (entries : List Bytes) : Prop where
  distinct : entries.Nodup
  present : ∀ id ∈ ids, segmentPath base id ∈ entries
  others : ∀ entry ∈ entries, (∃ id ∈ ids, entry = segmentPath base id) ∨ ∀ id < 2 ^ 64, entry ≠ segmentPath base id

def Utf8Name (base : Bytes) : Prop := fileName base = some base ∧ ∃ text : Text, base = text.asBytes

section
variable {base : Bytes}

theorem Utf8Name.of_toStr {name : Bytes} (isStr : (fileName base).bind toStr = some name) : Utf8Name base := by
  obtain ⟨file, isFile, isStr⟩ := Option.bind_eq_some_iff.mp isStr
  obtain ⟨text, decoded, -⟩ := Option.map_eq_some_iff.mp isStr
  have same : file = base := by
    unfold fileName at isFile
    split at isFile
    · cases isFile
    · exact (Option.some.inj isFile).symm
  subst same
  exact ⟨isFile, text, eq_asBytes_of_fromUtf8 decoded⟩

theorem existingSegments_eq (isName : Utf8Name base) (entries : List Bytes) :
    existingSegments base (.ok (entries.map .ok)) =
      .ok (entries.filterMap (listedId (base ++ asBytes ['.']))).mergeSort := by
  obtain ⟨isFile, text, utf8⟩ := isName
  have isStr : (fileName base).bind toStr = some base := by
    rw [isFile, Option.bind_some, toStr, utf8, fromUtf8_asBytes]
    rfl
  have names : (entries.map Except.ok : List (Except ErrorKind Bytes)).mapM id = .ok entries := by
    induction entries with
    | nil => rfl
    | cons entry entries ih => rw [List.map_cons, List.mapM_cons, ih]; rfl
  simp only [existingSegments, isStr, names]
  rfl

theorem existingSegments_sorted (isName : Utf8Name base) {ids : Finset Nat} {entries : List Bytes} {sorted : List Nat}
    (directory : Directory base ids entries) (named : ∀ id ∈ ids, id < SEGMENT_NAMES)
    (increasing : sorted.Pairwise (· < ·)) (same : ∀ id, id ∈ sorted ↔ id ∈ ids) :
    existingSegments base (.ok (entries.map .ok)) = .ok sorted := by
  rw [existingSegments_eq isName]
  obtain ⟨-, text, utf8⟩ := isName
  congr 1
  have listed : ∀ id, id ∈ entries.filterMap (listedId (base ++ asBytes ['.'])) ↔ id ∈ sorted := by
    intro id
    rw [List.mem_filterMap, same]
    constructor
    · rintro ⟨entry, member, found⟩
      obtain ⟨rfl, small⟩ := of_listedId found
      rcases directory.others _ member with ⟨other, isId, path⟩ | foreign
      · have again := listedId_segmentPath text (named other isId)
        rw [← utf8, ← path, found] at again
        exact Option.some.inj again ▸ isId
      · exact absurd rfl (foreign id (small.trans (by decide)))
    · intro isId
      exact ⟨_, directory.present id isId, utf8 ▸ listedId_segmentPath text (named id isId)⟩
  have distinct : (entries.filterMap (listedId (base ++ asBytes ['.']))).Nodup := by
    refine directory.distinct.filterMap fun one other id first second => ?_
    rw [(of_listedId first).1, (of_listedId second).1]
  have perm : (entries.filterMap (listedId (base ++ asBytes ['.']))).mergeSort.Perm sorted :=
    (List.mergeSort_perm _ _).trans
      ((List.perm_ext_iff_of_nodup distinct (increasing.imp Nat.ne_of_lt)).mpr listed)
  have ordered : (entries.filterMap (listedId (base ++ asBytes ['.']))).mergeSort.Pairwise fun a b => decide (a ≤ b) :=
    List.pairwise_mergeSort (by simpa using fun a b c => Nat.le_trans) (by simpa using Nat.le_total) _
  exact perm.eq_of_pairwise (fun a b _ _ => Nat.le_antisymm) (ordered.imp of_decide_eq_true)
    (increasing.imp Nat.le_of_lt)

end

theorem activeAndSealed_append (sealed : List Nat) (activeId : Nat) :
    activeAndSealed (sealed ++ [activeId]) = (activeId, sealed) := by
  simp [activeAndSealed]

theorem LogLifetime.segmentIds {w : LogLifetime} (reached : LogLifetime.system.ReachableBy LogLifetime.Named w) :
    ∃ sealed : List Nat, (sealed ++ [w.log.activeId]).Pairwise (· < ·) ∧ w.log.activeId < SEGMENT_NAMES ∧
      (∀ id, id ∈ sealed ++ [w.log.activeId] ↔ id ∈ (w.log.files.map Prod.fst).toFinset) ∧
      ∀ segment ∈ w.log.sealed, segment.id ∈ sealed := by
  obtain ⟨⟨_, _, leaving, parts, active, alive⟩, named⟩ := sound_of_reachable (fun _ _ ok => ok) reached
  have represents := alive.resting.keeping.represents
  have below : ∀ id ∈ ((leaving ++ parts).map Part.id).toFinset.sort, id < w.log.activeId := by
    intro id member
    rw [Finset.mem_sort, List.mem_toFinset] at member
    obtain ⟨part, isPart, rfl⟩ := List.mem_map.mp member
    exact represents.ids part isPart
  refine ⟨((leaving ++ parts).map Part.id).toFinset.sort, ?_, named, fun id => ?_, fun segment member => ?_⟩
  · rw [List.pairwise_append]
    exact ⟨(Finset.sortedLT_sort _).pairwise, List.pairwise_singleton _ _, by simpa using below⟩
  · rw [List.mem_append, Finset.mem_sort, List.mem_toFinset, List.mem_toFinset, represents.files]
    simp [Part.file, or_assoc]
  · rw [represents.sealed] at member
    obtain ⟨part, isPart, rfl⟩ := List.mem_map.mp member
    rw [Finset.mem_sort, List.mem_toFinset]
    exact List.mem_map_of_mem (List.mem_append_right _ isPart)

theorem existingSegments_iff {base : Bytes} {ids : Finset Nat} {entries : List Bytes}
    (directory : Directory base ids entries) :
    existingSegments base (.ok (entries.map .ok)) = .ok ids.sort ↔
      ids = ∅ ∨ Utf8Name base ∧ ∀ id ∈ ids, id < SEGMENT_NAMES := by
  have sorted (isName : Utf8Name base) (named : ∀ id ∈ ids, id < SEGMENT_NAMES) :=
    existingSegments_sorted isName directory named (Finset.sortedLT_sort ids).pairwise fun id => Finset.mem_sort _
  cases isStr : (fileName base).bind toStr with
  | none =>
    have unnamed : ¬ Utf8Name base := by
      rintro ⟨isFile, text, utf8⟩
      rw [isFile, Option.bind_some, toStr, utf8, fromUtf8_asBytes] at isStr
      cases isStr
    have listed : existingSegments base (.ok (entries.map .ok)) = .ok [] := by simp only [existingSegments, isStr]
    rw [listed]
    simp only [unnamed, false_and, or_false, Except.ok.injEq]
    refine ⟨fun empty => ?_, fun empty => by rw [empty, Finset.sort_empty]⟩
    rw [← Finset.sort_toFinset ids (· ≤ ·), ← empty, List.toFinset_nil]
  | some name =>
    have isName := Utf8Name.of_toStr isStr
    refine ⟨fun listed => .inr ⟨isName, fun id member => ?_⟩, ?_⟩
    · rw [existingSegments_eq isName] at listed
      have found : id ∈ (entries.filterMap (listedId (base ++ asBytes ['.']))).mergeSort := by
        rw [Except.ok.inj listed]
        exact (Finset.mem_sort _).mpr member
      obtain ⟨entry, -, found⟩ := List.mem_filterMap.mp (List.mem_mergeSort.mp found)
      exact (of_listedId found).2
    · rintro (rfl | ⟨-, named⟩)
      · exact sorted isName (by simp)
      · exact sorted isName named

theorem listing_finds_segments (base : Bytes) :
    (∀ (ids : Finset Nat) (entries : List Bytes), Directory base ids entries →
      (existingSegments base (.ok (entries.map .ok)) = .ok ids.sort ↔
        ids = ∅ ∨ Utf8Name base ∧ ∀ id ∈ ids, id < SEGMENT_NAMES)) ∧
    ∀ (w : LogLifetime) (entries : List Bytes), Utf8Name base → LogLifetime.system.ReachableBy LogLifetime.Named w →
      Directory base (w.log.files.map Prod.fst).toFinset entries →
      ∃ ids, existingSegments base (.ok (entries.map .ok)) = .ok ids ∧
        (∀ id, id ∈ ids ↔ id ∈ w.log.files.map Prod.fst) ∧ (activeAndSealed ids).1 = w.log.activeId ∧
        ∀ segment ∈ w.log.sealed, segment.id ∈ (activeAndSealed ids).2 := by
  refine ⟨fun ids entries directory => existingSegments_iff directory, fun w entries isName reached directory => ?_⟩
  obtain ⟨sealed, increasing, named, same, retained⟩ := LogLifetime.segmentIds reached
  have below : ∀ id ∈ (w.log.files.map Prod.fst).toFinset, id < SEGMENT_NAMES := by
    intro id member
    rcases List.mem_append.mp ((same id).mpr member) with before | last
    · have less := (List.pairwise_append.mp increasing).2.2 id before _ (List.mem_singleton_self _)
      exact less.trans named
    · exact List.mem_singleton.mp last ▸ named
  refine ⟨_, existingSegments_sorted isName directory below increasing same, fun id => ?_, ?_, ?_⟩
  · rw [same, List.mem_toFinset]
  · rw [activeAndSealed_append]
  · rwa [activeAndSealed_append]

def walBase : Bytes := asBytes ['w', 'a', 'l']

theorem listing_finds_segments_among_others :
    existingSegments walBase (.ok [.ok (segmentPath walBase 7), .ok [0xFF], .ok (segmentPath walBase 3)]) =
        .ok (Finset.sort {3, 7}) ∧
      ∃ ids, existingSegments walBase (.ok [.ok (segmentPath walBase 0)]) = .ok ids ∧ (activeAndSealed ids).1 = 0 := by
  have isName : Utf8Name walBase := ⟨by decide +kernel, _, rfl⟩
  have foreign : ∀ id, [0xFF] ≠ segmentPath walBase id := by
    intro id same
    have first : (segmentPath walBase id).head? = some 119 := rfl
    rw [← same] at first
    exact absurd first (by decide)
  constructor
  · refine ((listing_finds_segments walBase).1 {3, 7} [segmentPath walBase 7, [0xFF], segmentPath walBase 3]
      ⟨by decide +kernel, by simp, ?_⟩).mpr (.inr ⟨isName, by decide⟩)
    simp [foreign]
  · obtain ⟨ids, listed, -, active, -⟩ := (listing_finds_segments walBase).2 (LogLifetime.create 4096)
      [segmentPath walBase 0] isName (.start (LogLifetime.create_init 4096))
        ⟨by simp, by decide +kernel, by decide +kernel⟩
    exact ⟨ids, listed, active⟩

theorem listing_misses_long_names :
    Directory walBase {999999, 1000000} [segmentPath walBase 999999, segmentPath walBase 1000000] ∧
      existingSegments walBase (.ok [.ok (segmentPath walBase 999999), .ok (segmentPath walBase 1000000)]) =
        .ok [999999] ∧ activeAndSealed [999999] = (999999, []) := by
  have missed : listedId (walBase ++ asBytes ['.']) (segmentPath walBase 1000000) = none := by
    rw [Option.eq_none_iff_forall_ne_some]
    intro id found
    obtain ⟨path, named⟩ := of_listedId found
    obtain ⟨length, -⟩ := padded_digits (by decide : 1 ≤ 6) (Nat.lt_of_lt_of_eq named (by decide))
    rw [segmentPath_eq, segmentPath_eq, List.append_cancel_left_eq] at path
    rw [← path] at length
    exact absurd length (by decide +kernel)
  have found : listedId (walBase ++ asBytes ['.']) (segmentPath walBase 999999) = some 999999 :=
    listedId_segmentPath ['w', 'a', 'l'] (by decide)
  refine ⟨⟨by decide +kernel, by simp, by simp⟩, ?_, rfl⟩
  refine (existingSegments_eq (⟨by decide +kernel, _, rfl⟩ : Utf8Name walBase)
    [segmentPath walBase 999999, segmentPath walBase 1000000]).trans ?_
  rw [List.filterMap_cons_some found, List.filterMap_cons_none missed, List.filterMap_nil, List.mergeSort_singleton]

end SimpleRdbms.Storage
