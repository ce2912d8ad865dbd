import SimpleRdbms.Lib.UndoLog
import SimpleRdbms.Proof.LogLayout
import SimpleRdbms.Storage.SerialPool

/-!
# Histories of log records

The bytes of pages after some of the changes of a history. The checksum, the page LSN and the checkpoint LSN in the
header are no data.
-/

namespace SimpleRdbms.Storage
open SimpleRdbms.Lib

def Body (pageId i : Nat) : Prop :=
  PAGE_LSN_END ≤ i ∧ (pageId = 0 → i < SerialPool.LAST_CHECKPOINT_LSN ∨ SerialPool.LAST_CHECKPOINT_LSN + 8 ≤ i)

instance (pageId i : Nat) : Decidable (Body pageId i) := inferInstanceAs (Decidable (_ ∧ _))

def applyRecord (pageId : Nat) (data : PageData) (record : LoggedRecord) : PageData :=
  match record.kind.pageChange with
  | some (changed, offset, bytes) => if changed = pageId then overwrite data offset bytes else data
  | none => data

def contents (initial : Nat → PageData) (history : List LoggedRecord) (pageId : Nat) : PageData :=
  history.foldl (applyRecord pageId) (initial pageId)

def LoggedRecord.changes (record : LoggedRecord) (pageId : Nat) : Bool :=
  record.kind.pageChange.any (·.1 == pageId)

def changeLsn (history : List LoggedRecord) (pageId : Nat) : Nat :=
  history.foldl (fun lsn record => if record.changes pageId then record.lsn else lsn) 0

def upTo (history : List LoggedRecord) (lsn : Nat) : List LoggedRecord :=
  history.filter fun record => decide (record.lsn ≤ lsn)

def applyUpdate (winner : Nat → Bool) (pageId : Nat) (data : PageData) (record : LoggedRecord) : PageData :=
  match record.kind with
  | .update changed offset _ after =>
    if changed = pageId ∧ winner record.txnId then overwrite data offset after else data
  | _ => data

def contentsBy (winner : Nat → Bool) (initial : Nat → PageData) (history : List LoggedRecord) (pageId : Nat) :
    PageData :=
  history.foldl (applyUpdate winner pageId) (initial pageId)

def patch (pageId offset : Nat) (bytes : List UInt8) : UndoLog.Patch (Nat × Nat) UInt8 := fun x =>
  if x.1 = pageId ∧ Body x.1 x.2 ∧ offset ≤ x.2 then bytes[x.2 - offset]? else none

def LogRecordKind.act : LogRecordKind → UndoLog.Act (Nat × Nat) UInt8
  | .begin => .start
  | .commit => .commit
  | .endTxn => .close
  | .update pageId offset before after => .write (patch pageId offset before) (patch pageId offset after)
  | .clr pageId offset after undoNextLsn => .restore (patch pageId offset after) undoNextLsn
  | .abort | .allocPage _ | .checkpointBegin | .checkpointEnd _ _ => .note

def entry (record : LoggedRecord) : UndoLog.Entry Nat (Nat × Nat) UInt8 where
  pos := record.lsn
  prev := record.prevLsn
  txn := record.txnId
  act := record.kind.act

abbrev entries (history : List LoggedRecord) : UndoLog.Log Nat (Nat × Nat) UInt8 := history.map entry

section Contents
variable {initial : Nat → PageData} {history : List LoggedRecord} {record : LoggedRecord} {pageId i : Nat}

theorem contents_snoc : contents initial (history ++ [record]) pageId =
    applyRecord pageId (contents initial history pageId) record := by
  simp [contents]

theorem changeLsn_snoc : changeLsn (history ++ [record]) pageId =
    if record.changes pageId then record.lsn else changeLsn history pageId := by
  simp [changeLsn]

theorem contentsBy_snoc {winner : Nat → Bool} : contentsBy winner initial (history ++ [record]) pageId =
    applyUpdate winner pageId (contentsBy winner initial history pageId) record := by
  simp [contentsBy]

theorem applyRecord_unchanged {data : PageData} (unchanged : record.changes pageId = false) :
    applyRecord pageId data record = data := by
  unfold LoggedRecord.changes at unchanged
  unfold applyRecord
  cases change : record.kind.pageChange with
  | none => rfl
  | some change' => simp_all

theorem overwrite_patch {data : PageData} {offset : Nat} {bytes : List UInt8} (body : Body pageId i) :
    overwrite data offset bytes i = (patch pageId offset bytes (pageId, i)).getD (data i) := by
  unfold overwrite patch
  by_cases inside : offset ≤ i
  · simp [inside, body]
  · simp [inside]

theorem patch_other {offset : Nat} {bytes : List UInt8} {other : Nat} (different : pageId ≠ other) :
    patch other offset bytes (pageId, i) = none := by
  simp [patch, different]

theorem contents_eq_value (body : Body pageId i) : contents initial history pageId i =
    UndoLog.value (fun x => initial x.1 x.2) (entries history) (pageId, i) := by
  induction history using List.reverseRecOn with
  | nil => rfl
  | append_singleton history record ih =>
    rw [contents_snoc, entries, List.map_append, List.map_singleton, UndoLog.value_snoc, ← entries, ← ih]
    have changed : ∀ changed offset bytes, (if changed = pageId then
        overwrite (contents initial history pageId) offset bytes else contents initial history pageId) i =
        (patch changed offset bytes (pageId, i)).getD (contents initial history pageId i) := by
      intro changed offset bytes
      by_cases here : changed = pageId
      · subst here
        rw [if_pos rfl, overwrite_patch body]
      · rw [if_neg here, patch_other (Ne.symm here)]
        rfl
    simp only [applyRecord, entry]
    cases record.kind with
    | update page offset before after => exact changed page offset after
    | clr page offset after next => exact changed page offset after
    | _ => rfl

theorem contentsBy_eq_valueBy {winner : Nat → Bool} (body : Body pageId i) :
    contentsBy winner initial history pageId i =
      UndoLog.valueBy winner (fun x => initial x.1 x.2) (entries history) (pageId, i) := by
  induction history using List.reverseRecOn with
  | nil => rfl
  | append_singleton history record ih =>
    rw [contentsBy_snoc, entries, List.map_append, List.map_singleton, UndoLog.valueBy_snoc, ← entries, ← ih]
    unfold applyUpdate UndoLog.Entry.writtenBy
    cases kind : record.kind with
    | update page offset before after =>
      simp only [entry, kind, LogRecordKind.act]
      cases wins : winner record.txnId with
      | false => simp
      | true =>
        by_cases here : page = pageId
        · subst here
          simp [overwrite_patch body]
        · simp [here, patch_other (Ne.symm here)]
    | _ => simp [entry, kind, LogRecordKind.act]

end Contents

section UpTo
variable {initial : Nat → PageData} {history : List LoggedRecord} {record : LoggedRecord} {pageId lsn : Nat}

theorem upTo_snoc_of_lt (later : lsn < record.lsn) : upTo (history ++ [record]) lsn = upTo history lsn := by
  simp [upTo, later]

theorem upTo_eq_self (known : ∀ record ∈ history, record.lsn ≤ lsn) : upTo history lsn = history := by
  simpa [upTo] using known

theorem upTo_append_of_lt {rest : List LoggedRecord} (later : ∀ record ∈ rest, lsn < record.lsn) :
    upTo (history ++ rest) lsn = upTo history lsn := by
  have none : rest.filter (fun record => decide (record.lsn ≤ lsn)) = [] := by simpa using later
  rw [upTo, List.filter_append, none, List.append_nil]
  rfl

theorem upTo_unchanged (initial : Nat → PageData)
    (quiet : ∀ record ∈ history, record.changes pageId = true → record.lsn ≤ lsn) :
    contents initial (upTo history lsn) pageId = contents initial history pageId ∧
      changeLsn (upTo history lsn) pageId = changeLsn history pageId := by
  induction history using List.reverseRecOn with
  | nil => exact ⟨rfl, rfl⟩
  | append_singleton history record ih =>
    have older := ih fun old member => quiet old (List.mem_append_left _ member)
    by_cases kept : record.lsn ≤ lsn
    · have split : upTo (history ++ [record]) lsn = upTo history lsn ++ [record] := by simp [upTo, kept]
      rw [split, contents_snoc, contents_snoc, changeLsn_snoc, changeLsn_snoc, older.1, older.2]
      exact ⟨rfl, rfl⟩
    · have unchanged : record.changes pageId = false := by
        cases changes : record.changes pageId with
        | false => rfl
        | true => exact absurd (quiet record (by simp) changes) kept
      rw [upTo_snoc_of_lt (by omega), contents_snoc, changeLsn_snoc, applyRecord_unchanged unchanged, unchanged]
      exact older

theorem changeLsn_member (history : List LoggedRecord) (pageId : Nat) : changeLsn history pageId = 0 ∨
    ∃ record ∈ history, record.changes pageId = true ∧ record.lsn = changeLsn history pageId := by
  induction history using List.reverseRecOn with
  | nil => exact .inl rfl
  | append_singleton history last ih =>
    rw [changeLsn_snoc]
    split
    · rename_i changes
      exact .inr ⟨last, by simp, changes, rfl⟩
    · refine ih.imp_right ?_
      rintro ⟨record, member, changes, same⟩
      exact ⟨record, List.mem_append_left _ member, changes, same⟩

end UpTo

structure ImageOk (initial : Nat → PageData) (history : List LoggedRecord) (pageId : Nat) (page : Page) : Prop where
  id : page.id = pageId
  bytes : ∀ i, CHECKSUM_END ≤ i → page.data i = contents initial (upTo history page.lsn) pageId i
  lsn : page.lsn = changeLsn (upTo history page.lsn) pageId

namespace ImageOk
variable {initial : Nat → PageData} {history : List LoggedRecord} {record : LoggedRecord} {pageId : Nat} {page : Page}

theorem append {rest : List LoggedRecord} (image : ImageOk initial history pageId page)
    (later : ∀ record ∈ rest, page.lsn < record.lsn) : ImageOk initial (history ++ rest) pageId page := by
  obtain ⟨id, bytes, lsn⟩ := image
  rw [← upTo_append_of_lt later] at bytes lsn
  exact ⟨id, bytes, lsn⟩

theorem of_append {rest : List LoggedRecord} (image : ImageOk initial (history ++ rest) pageId page)
    (later : ∀ record ∈ rest, page.lsn < record.lsn) : ImageOk initial history pageId page := by
  obtain ⟨id, bytes, lsn⟩ := image
  rw [upTo_append_of_lt later] at bytes lsn
  exact ⟨id, bytes, lsn⟩

theorem lsn_cases (image : ImageOk initial history pageId page) :
    page.lsn = 0 ∨ ∃ record ∈ history, record.changes pageId = true ∧ record.lsn = page.lsn := by
  rcases changeLsn_member (upTo history page.lsn) pageId with none | ⟨record, member, changes, same⟩
  · exact .inl (image.lsn.trans none)
  · exact .inr ⟨record, (List.mem_filter.mp member).1, changes, same.trans image.lsn.symm⟩

theorem current (image : ImageOk initial history pageId page)
    (newest : ∀ record ∈ history, record.changes pageId = true → record.lsn ≤ page.lsn) :
    page.lsn = changeLsn history pageId ∧
      ∀ i, CHECKSUM_END ≤ i → page.data i = contents initial history pageId i := by
  have same := upTo_unchanged initial newest
  refine ⟨image.lsn.trans same.2, fun i body => ?_⟩
  rw [image.bytes i body, same.1]

theorem new {initial : Nat → PageData} {history : List LoggedRecord} {pageId : Nat}
    (zero : initial pageId = zeroData) (positive : ∀ record ∈ history, 0 < record.lsn) :
    ImageOk initial history pageId (Page.new pageId) := by
  have empty : upTo history (Page.new pageId).lsn = [] := by
    simp only [upTo, List.filter_eq_nil_iff, decide_eq_true_eq, Nat.not_le]
    exact positive
  refine ⟨rfl, fun i _ => ?_, ?_⟩
  · rw [empty]
    exact (congrFun zero i).symm
  · rw [empty]
    rfl

theorem stamp {offset lsn : Nat} {bytes : List UInt8} (image : ImageOk initial history pageId page)
    (sorted : history.Pairwise (·.lsn < ·.lsn)) (member : record ∈ history)
    (change : record.kind.pageChange = some (pageId, offset, bytes)) (here : record.lsn = lsn)
    (newer : page.lsn < lsn)
    (next : ∀ other ∈ history, other.changes pageId = true → other.lsn < lsn → other.lsn ≤ page.lsn) :
    ImageOk initial history pageId { page with lsn, data := overwrite page.data offset bytes } := by
  subst here
  obtain ⟨before, after, split⟩ := List.append_of_mem member
  obtain ⟨-, following, earlier⟩ := List.pairwise_append.mp (split ▸ sorted)
  have low : ∀ old ∈ before, old.lsn < record.lsn := fun old isOld => earlier old isOld record (by simp)
  have high : ∀ later ∈ after, record.lsn < later.lsn := (List.pairwise_cons.mp following).1
  have whole : upTo history record.lsn = before ++ [record] := by
    have regroup : before ++ record :: after = (before ++ [record]) ++ after := by simp
    rw [split, regroup, upTo_append_of_lt high]
    refine upTo_eq_self fun old isOld => ?_
    rcases List.mem_append.mp isOld with isBefore | isLast
    · exact Nat.le_of_lt (low old isBefore)
    · obtain rfl : old = record := by simpa using isLast
      exact Nat.le_refl _
  have past : upTo history page.lsn = upTo before page.lsn := by
    rw [split]
    refine upTo_append_of_lt fun later isLater => ?_
    rcases List.mem_cons.mp isLater with rfl | isAfter
    · exact newer
    · exact Nat.lt_trans newer (high later isAfter)
  have changes : record.changes pageId = true := by simp [LoggedRecord.changes, change]
  have quiet := upTo_unchanged initial
    fun old (isOld : old ∈ before) (isChange : old.changes pageId = true) =>
      next old (by rw [split]; exact List.mem_append_left _ isOld) isChange (low old isOld)
  refine ⟨image.id, fun i body => ?_, ?_⟩
  · have old := image.bytes i body
    rw [past, quiet.1] at old
    simp only [whole, contents_snoc, applyRecord, change, if_true]
    unfold overwrite
    split
    · rw [old]
    · exact old
  · simp [whole, changeLsn_snoc, changes]

end ImageOk

structure Ranged (known : Nat) (history : List LoggedRecord) (record : LoggedRecord) : Prop where
  inside : ∀ pageId offset bytes, record.kind.pageChange = some (pageId, offset, bytes) →
    offset + bytes.length ≤ PAGE_SIZE ∧ (pageId < known ∨ ∃ old ∈ history, old.kind = .allocPage pageId)
  images : ∀ pageId offset before after, record.kind = .update pageId offset before after →
    before.length = after.length
  owned : record.txnId = CHECKPOINT_TXN ↔ record.kind.isCheckpoint = true
  fresh : record.kind = .begin → ∀ old ∈ history, old.txnId ≠ record.txnId

inductive Ranges (known : Nat) : List LoggedRecord → Prop where
  | nil : Ranges known []
  | snoc {history : List LoggedRecord} {record : LoggedRecord} :
      Ranges known history → Ranged known history record → Ranges known (history ++ [record])

namespace Ranges
variable {known : Nat} {history : List LoggedRecord} {record : LoggedRecord}

theorem init (ranges : Ranges known (history ++ [record])) : Ranges known history ∧ Ranged known history record := by
  generalize whole : history ++ [record] = appended at ranges
  cases ranges with
  | nil => simp at whole
  | snoc before ranged =>
    obtain ⟨rfl, last⟩ := List.append_inj' whole rfl
    obtain rfl : record = _ := by simpa using last
    exact ⟨before, ranged⟩

theorem of_append {rest : List LoggedRecord} (ranges : Ranges known (history ++ rest)) : Ranges known history := by
  induction rest using List.reverseRecOn with
  | nil => simpa using ranges
  | append_singleton rest record ih =>
    rw [← List.append_assoc] at ranges
    exact ih ranges.init.1

theorem at_record {rest : List LoggedRecord} (ranges : Ranges known (history ++ record :: rest)) :
    Ranged known history record := by
  have regroup : history ++ record :: rest = (history ++ [record]) ++ rest := by simp
  rw [regroup] at ranges
  exact ranges.of_append.init.2

theorem member (ranges : Ranges known history) (present : record ∈ history) :
    ∃ before after, history = before ++ record :: after ∧ Ranged known before record := by
  obtain ⟨before, after, rfl⟩ := List.append_of_mem present
  exact ⟨before, after, rfl, ranges.at_record⟩

end Ranges

section Entries
variable {history : List LoggedRecord} {txnId lsn : Nat}

theorem entries_snoc (history : List LoggedRecord) (record : LoggedRecord) :
    entries (history ++ [record]) = entries history ++ [entry record] := by
  simp [entries]

theorem lastPos_entries : UndoLog.lastPos (entries history) txnId = lastLsnOf history txnId := by
  induction history using List.reverseRecOn with
  | nil => rfl
  | append_singleton history record ih =>
    rw [entries_snoc, UndoLog.lastPos_snoc, lastLsnOf_snoc, ih]
    rfl

theorem kind_of_close {kind : LogRecordKind} : kind.act = .close ↔ kind = .endTxn := by
  cases kind <;> simp [LogRecordKind.act]

theorem kind_of_commit {kind : LogRecordKind} : kind.act = .commit ↔ kind = .commit := by
  cases kind <;> simp [LogRecordKind.act]

theorem closed_entries : UndoLog.Closed (entries history) txnId ↔
    ∃ record ∈ history, record.txnId = txnId ∧ record.kind = .endTxn := by
  simp [UndoLog.Closed, entries, entry, kind_of_close]

theorem committed_entries : UndoLog.Committed (entries history) txnId ↔
    ∃ record ∈ history, record.txnId = txnId ∧ record.kind = .commit := by
  simp [UndoLog.Committed, entries, entry, kind_of_commit]

end Entries

end SimpleRdbms.Storage
