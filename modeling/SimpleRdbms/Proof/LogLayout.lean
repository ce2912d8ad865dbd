import Mathlib.Data.List.Induction
import Mathlib.Tactic.Common
import SimpleRdbms.Storage.Wal

namespace SimpleRdbms.Storage

def LaidOut : Nat → List LoggedRecord → Nat → Prop
  | start, [], stop => start = stop
  | start, record :: rest, stop => record.lsn = start ∧ LaidOut (start + record.len) rest stop

def Tiled : Nat → List Segment → Nat → Prop
  | start, [], stop => start = stop
  | start, segment :: rest, stop =>
    segment.startLsn = start ∧ ∃ middle, LaidOut start segment.records middle ∧ Tiled middle rest stop

def lastLsnOf (records : List LoggedRecord) (txnId : Nat) : Option Nat :=
  ((records.filter (·.txnId = txnId)).getLast?).map (·.lsn)

theorem LoggedRecord.len_pos (record : LoggedRecord) : 0 < record.len :=
  record.kind.encodedLen_pos

section LaidOut
variable {start middle stop : Nat} {records rest : List LoggedRecord} {record : LoggedRecord}

theorem LaidOut.append (first : LaidOut start records middle) (second : LaidOut middle rest stop) :
    LaidOut start (records ++ rest) stop := by
  induction records generalizing start with
  | nil =>
    obtain rfl : start = middle := first
    exact second
  | cons record records ih => exact ⟨first.1, ih first.2⟩

theorem LaidOut.split (whole : LaidOut start (records ++ rest) stop) :
    ∃ middle, LaidOut start records middle ∧ LaidOut middle rest stop := by
  induction records generalizing start with
  | nil => exact ⟨start, rfl, whole⟩
  | cons record records ih =>
    obtain ⟨middle, first, second⟩ := ih whole.2
    exact ⟨middle, ⟨whole.1, first⟩, second⟩

section
variable (laid : LaidOut start records stop)
include laid

theorem LaidOut.le : start ≤ stop := by
  induction records generalizing start with
  | nil => exact Nat.le_of_eq laid
  | cons record records ih => exact Nat.le_trans (Nat.le_add_right _ _) (ih laid.2)

theorem LaidOut.bounds (member : record ∈ records) :
    start ≤ record.lsn ∧ record.lsn + record.len ≤ stop := by
  induction records generalizing start with
  | nil => simp at member
  | cons first records ih =>
    rcases List.mem_cons.mp member with rfl | later
    · have rest := laid.2.le
      rw [laid.1]
      exact ⟨Nat.le_refl _, rest⟩
    · obtain ⟨lower, upper⟩ := ih laid.2 later
      exact ⟨by omega, upper⟩

theorem LaidOut.lt (member : record ∈ records) : record.lsn < stop := by
  have bounds := laid.bounds member
  have positive := record.len_pos
  omega

theorem LaidOut.total : stop = start + totalLen records := by
  induction records generalizing start with
  | nil => exact laid.symm
  | cons record records ih =>
    rw [ih laid.2]
    simp only [totalLen, List.foldr_cons]
    omega

theorem LaidOut.unique {other : Nat} (again : LaidOut start records other) :
    stop = other :=
  laid.total.trans again.total.symm

theorem LaidOut.recordAt (member : record ∈ records) :
    LogManager.recordAt records (record.lsn - start) = some record := by
  induction records generalizing start with
  | nil => simp at member
  | cons first records ih =>
    rcases List.mem_cons.mp member with rfl | later
    · simp [LogManager.recordAt, laid.1]
    · have after := (laid.2.bounds later).1
      have positive := first.len_pos
      rw [LogManager.recordAt, if_neg (by omega), if_neg (by omega), Nat.sub_sub]
      exact ih laid.2 later

end

theorem LaidOut.filter_split (first : LaidOut start records middle) {lsn : Nat} (low : middle ≤ lsn) :
    (records ++ rest).filter (fun r => decide (lsn ≤ r.lsn)) = rest.filter fun r => decide (lsn ≤ r.lsn) := by
  rw [List.filter_append, List.filter_eq_nil_iff.mpr, List.nil_append]
  intro record member
  have before := first.lt member
  simp
  omega

theorem LaidOut.sorted (laid : LaidOut start records stop) : records.Pairwise (·.lsn < ·.lsn) := by
  induction records generalizing start with
  | nil => exact .nil
  | cons record records ih =>
    refine .cons (fun later member => ?_) (ih laid.2)
    have lower := (laid.2.bounds member).1
    have positive := record.len_pos
    have here := laid.1
    omega

theorem LaidOut.getLast (laid : LaidOut start records stop) (last : records.getLast? = some record) :
    record.endLsn = stop := by
  obtain ⟨before, rfl⟩ := List.getLast?_eq_some_iff.mp last
  obtain ⟨middle, -, here, ends⟩ := laid.split
  rw [LoggedRecord.endLsn, here]
  exact ends

theorem LaidOut.filter_below (laid : LaidOut start (records ++ rest) stop) (here : LaidOut start records middle) :
    (records ++ rest).filter (fun r => decide (r.lsn < middle)) = records := by
  obtain ⟨other, first, second⟩ := laid.split
  obtain rfl := here.unique first
  have kept : records.filter (fun r => decide (r.lsn < middle)) = records := by
    simp only [List.filter_eq_self, decide_eq_true_eq]
    exact fun record member => first.lt member
  have cut : rest.filter (fun r => decide (r.lsn < middle)) = [] := by
    simp only [List.filter_eq_nil_iff, decide_eq_true_eq, Nat.not_lt]
    exact fun record member => (second.bounds member).1
  rw [List.filter_append, kept, cut, List.append_nil]

end LaidOut

section Tiled
variable {start middle stop : Nat} {segments rest : List Segment}

theorem Tiled.laidOut (tiled : Tiled start segments stop) :
    LaidOut start (segments.flatMap Segment.records) stop := by
  induction segments generalizing start with
  | nil => exact tiled
  | cons segment segments ih =>
    obtain ⟨-, middle, here, others⟩ := tiled
    rw [List.flatMap_cons]
    exact here.append (ih others)

theorem Tiled.append {segment : Segment} (tiled : Tiled start segments segment.startLsn)
    (here : LaidOut segment.startLsn segment.records stop) : Tiled start (segments ++ [segment]) stop := by
  induction segments generalizing start with
  | nil =>
    obtain rfl : start = segment.startLsn := tiled
    exact ⟨rfl, stop, here, rfl⟩
  | cons first segments ih =>
    obtain ⟨begins, middle, records, others⟩ := tiled
    exact ⟨begins, middle, records, ih others⟩

theorem Tiled.bounds (tiled : Tiled start segments stop) {segment : Segment} (member : segment ∈ segments) :
    start ≤ segment.startLsn ∧ segment.startLsn ≤ stop := by
  induction segments generalizing start with
  | nil => simp at member
  | cons first segments ih =>
    obtain ⟨begins, middle, records, others⟩ := tiled
    have low := records.le
    rcases List.mem_cons.mp member with rfl | later
    · have high := others.laidOut.le
      omega
    · have bounds := ih others later
      omega

theorem Tiled.stop_le (tiled : Tiled start segments stop) {segment : Segment} (member : segment ∈ segments) :
    segment.startLsn + totalLen segment.records ≤ stop := by
  induction segments generalizing start with
  | nil => simp at member
  | cons first segments ih =>
    obtain ⟨begins, middle, records, others⟩ := tiled
    rcases List.mem_cons.mp member with rfl | later
    · have high := others.laidOut.le
      have here := records.total
      omega
    · exact ih others later

theorem Tiled.split (tiled : Tiled start (segments ++ rest) stop) :
    ∃ middle, Tiled start segments middle ∧ Tiled middle rest stop := by
  induction segments generalizing start with
  | nil => exact ⟨start, rfl, tiled⟩
  | cons segment segments ih =>
    obtain ⟨begins, after, records, others⟩ := tiled
    obtain ⟨middle, first, second⟩ := ih others
    exact ⟨middle, ⟨begins, after, records, first⟩, second⟩

end Tiled

section LastLsn
variable {records rest : List LoggedRecord} {record : LoggedRecord} {txnId : Nat}

theorem lastLsnOf_snoc : lastLsnOf (records ++ [record]) txnId =
    if record.txnId = txnId then some record.lsn else lastLsnOf records txnId := by
  unfold lastLsnOf
  split
  · rename_i mine
    simp [mine]
  · rename_i mine
    simp [mine]

theorem lastLsnOf_append (present : ∃ record ∈ rest, record.txnId = txnId) :
    lastLsnOf (records ++ rest) txnId = lastLsnOf rest txnId := by
  obtain ⟨record, member, mine⟩ := present
  have found : rest.filter (·.txnId = txnId) ≠ [] :=
    List.ne_nil_of_mem (List.mem_filter.mpr ⟨member, by simpa using mine⟩)
  unfold lastLsnOf
  rw [List.filter_append, List.getLast?_append_of_ne_nil _ found]

theorem lastLsnOf_mem {lsn : Nat} (last : lastLsnOf records txnId = some lsn) :
    ∃ record ∈ records, record.lsn = lsn ∧ record.txnId = txnId := by
  obtain ⟨record, isLast, rfl⟩ := Option.map_eq_some_iff.mp last
  obtain ⟨member, mine⟩ := List.mem_filter.mp (List.mem_of_getLast? isLast)
  exact ⟨record, member, rfl, of_decide_eq_true mine⟩

theorem lastLsnOf_eq_none (absent : ∀ record ∈ records, record.txnId ≠ txnId) : lastLsnOf records txnId = none := by
  unfold lastLsnOf
  rw [List.filter_eq_nil_iff.mpr fun record member => by simpa using absent record member]
  rfl

end LastLsn

namespace LogManager

def base (log : LogManager) : Nat := (log.sealed.head?.map Segment.startLsn).getD log.active.startLsn

/-- The records in `gone` are truncated. -/
structure Holds (log : LogManager) (history gone : List LoggedRecord) : Prop where
  history_eq : history = gone ++ (log.sealed.flatMap Segment.records ++ log.active.records ++ log.buffer)
  whole : LaidOut HEADER_LEN history log.nextLsn
  dropped : LaidOut HEADER_LEN gone log.base
  tiled : Tiled log.base log.sealed log.active.startLsn
  durable : LaidOut log.active.startLsn log.active.records log.durableLsn
  buffered : LaidOut log.durableLsn log.buffer log.nextLsn
  last : ∀ txnId, (∃ record ∈ log.sealed.flatMap Segment.records ++ log.active.records ++ log.buffer,
    record.txnId = txnId) ∨ (∀ record ∈ history, record.txnId ≠ txnId) →
      log.lastLsnByTxn txnId = lastLsnOf history txnId

namespace Holds
variable {log : LogManager} {history gone : List LoggedRecord}

theorem create (size : Nat) : Holds (LogManager.create size) [] [] where
  history_eq := rfl
  whole := rfl
  dropped := rfl
  tiled := rfl
  durable := rfl
  buffered := rfl
  last _ _ := rfl

section
variable (holds : Holds log history gone)
include holds

theorem retained {record : LoggedRecord} (member : record ∈ history) (low : log.base ≤ record.lsn) :
    record ∈ log.sealed.flatMap Segment.records ++ log.active.records ++ log.buffer := by
  rw [holds.history_eq] at member
  rcases List.mem_append.mp member with dropped | kept
  · exact absurd (holds.dropped.lt dropped) (by omega)
  · exact kept

theorem last_of_member {record : LoggedRecord} (member : record ∈ history) (low : log.base ≤ record.lsn) :
    log.lastLsnByTxn record.txnId = lastLsnOf history record.txnId :=
  holds.last _ (.inl ⟨record, holds.retained member low, rfl⟩)

theorem lsn_lt {record : LoggedRecord} (member : record ∈ history) : record.lsn < log.nextLsn :=
  holds.whole.lt member

theorem lsn_pos {record : LoggedRecord} (member : record ∈ history) : 0 < record.lsn :=
  Nat.lt_of_lt_of_le (by decide) (holds.whole.bounds member).1

theorem base_le : log.base ≤ log.nextLsn :=
  Nat.le_trans holds.tiled.laidOut.le (Nat.le_trans holds.durable.le holds.buffered.le)

theorem append (txnId : Nat) (kind : LogRecordKind) :
    Holds (log.append txnId kind) (history ++ [log.nextRecord txnId kind]) gone where
  history_eq := by simp [LogManager.append, holds.history_eq]
  whole := holds.whole.append ⟨rfl, rfl⟩
  dropped := holds.dropped
  tiled := holds.tiled
  durable := holds.durable
  buffered := holds.buffered.append ⟨rfl, rfl⟩
  last other named := by
    rw [lastLsnOf_snoc]
    by_cases mine : txnId = other
    · simp [LogManager.append, LogManager.nextRecord, mine]
    · have unchanged : (log.append txnId kind).lastLsnByTxn other = log.lastLsnByTxn other := by
        simp [LogManager.append, Ne.symm mine]
      rw [unchanged, if_neg (show (log.nextRecord txnId kind).txnId ≠ other from mine)]
      refine holds.last other (named.imp ?_ ?_)
      · rintro ⟨record, member, rfl⟩
        refine ⟨record, ?_, rfl⟩
        simp only [LogManager.append, List.mem_append, List.mem_singleton] at member ⊢
        rcases member with kept | kept | rfl
        · exact .inl kept
        · exact .inr kept
        · exact absurd rfl mine
      · exact fun absent record member => absent record (List.mem_append_left _ member)

end

theorem persist (holds : Holds log history gone) : Holds log.persist history gone where
  history_eq := by simp [LogManager.persist, holds.history_eq]
  whole := holds.whole
  dropped := holds.dropped
  tiled := holds.tiled
  durable := holds.durable.append holds.buffered
  buffered := rfl
  last txnId named := holds.last txnId (by simpa [LogManager.persist] using named)

theorem base_rollSegment : log.rollSegment.base = log.base := by
  unfold LogManager.base LogManager.rollSegment
  cases log.sealed <;> rfl

theorem rollSegment (holds : Holds log history gone) (empty : log.buffer = []) :
    Holds log.rollSegment history gone := by
  have buffered := holds.buffered
  rw [empty] at buffered
  have allDurable : log.durableLsn = log.nextLsn := buffered
  have laid := holds.durable
  rw [allDurable] at laid
  exact {
    history_eq := by simp [LogManager.rollSegment, holds.history_eq]
    whole := holds.whole
    dropped := by
      rw [base_rollSegment]
      exact holds.dropped
    tiled := by
      rw [base_rollSegment]
      exact Tiled.append holds.tiled laid
    durable := allDurable.symm
    buffered := holds.buffered
    last := fun txnId named => holds.last txnId (by simpa [LogManager.rollSegment] using named) }

theorem flush (holds : Holds log history gone) (upTo : Nat) :
    Holds (log.flush upTo) history gone := by
  unfold LogManager.flush
  split
  · exact holds
  · dsimp only
    split
    · exact holds.persist.rollSegment rfl
    · exact holds.persist

theorem flush_grows (holds : Holds log history gone) (upTo : Nat) :
    log.durableLsn ≤ (log.flush upTo).durableLsn := by
  have low := holds.buffered.le
  unfold LogManager.flush
  split
  · exact Nat.le_refl _
  · dsimp only
    split <;> exact low

theorem flush_durable (log : LogManager) (upTo : Nat) :
    upTo < (log.flush upTo).durableLsn ∨ (log.flush upTo).durableLsn = log.nextLsn := by
  unfold LogManager.flush
  split
  · rename_i already
    exact .inl already
  · dsimp only
    split <;> exact .inr rfl

theorem flush_base (log : LogManager) (upTo : Nat) : (log.flush upTo).base = log.base := by
  unfold LogManager.flush
  split
  · rfl
  · dsimp only
    split
    · exact base_rollSegment
    · rfl

theorem find_sealed (holds : Holds log history gone) {record : LoggedRecord}
    (inSealed : record ∈ log.sealed.flatMap Segment.records) :
    ∃ segment stop, log.sealed.reverse.find? (fun s => decide (s.startLsn ≤ record.lsn)) = some segment ∧
      record ∈ segment.records ∧ LaidOut segment.startLsn segment.records stop := by
  obtain ⟨segment, isSegment, inSegment⟩ := List.mem_flatMap.mp inSealed
  obtain ⟨before, after, split⟩ := List.append_of_mem isSegment
  have tiled := holds.tiled
  rw [split] at tiled
  obtain ⟨middle, -, begins, stop, here, others⟩ := tiled.split
  have bounds := here.bounds inSegment
  have notLater : after.reverse.find? (fun s => decide (s.startLsn ≤ record.lsn)) = none := by
    simp only [List.find?_eq_none, List.mem_reverse, decide_eq_true_eq, Nat.not_le]
    intro later isLater
    have := (others.bounds isLater).1
    have := here.lt inSegment
    omega
  refine ⟨segment, stop, ?_, inSegment, begins ▸ here⟩
  rw [split, List.reverse_append, List.reverse_cons, List.append_assoc, List.find?_append, notLater]
  simp [begins, bounds.1]

theorem readAt (holds : Holds log history gone) {record : LoggedRecord}
    (member : record ∈ history) (low : log.base ≤ record.lsn) : log.readAt record.lsn = some record := by
  have positive : record.lsn ≠ 0 := by
    have := (holds.whole.bounds member).1
    simp only [HEADER_LEN] at this
    omega
  have kept := holds.retained member low
  simp only [List.mem_append] at kept
  unfold LogManager.readAt
  rw [if_neg positive]
  rcases kept with (inSealed | inActive) | inBuffer
  · have high := holds.tiled.laidOut.lt inSealed
    rw [if_neg (by have := holds.durable.le; omega), if_neg (by omega)]
    obtain ⟨segment, stop, found, inSegment, here⟩ := holds.find_sealed inSealed
    rw [found]
    exact here.recordAt inSegment
  · have bounds := holds.durable.bounds inActive
    have high := holds.durable.lt inActive
    rw [if_neg (by omega), if_pos bounds.1]
    exact holds.durable.recordAt inActive
  · have bounds := holds.buffered.bounds inBuffer
    rw [if_pos bounds.1]
    exact holds.buffered.recordAt inBuffer

theorem segmentsFrom_filter {segments : List Segment} {start stop : Nat} (lsn : Nat)
    (tiled : Tiled start segments stop) :
    ((segmentsFrom segments lsn).flatMap Segment.records).filter (fun r => decide (lsn ≤ r.lsn)) =
      (segments.flatMap Segment.records).filter fun r => decide (lsn ≤ r.lsn) := by
  unfold segmentsFrom
  dsimp only
  -- all but the segments dropped from the end start at or below `lsn`; only the last of these is visited
  generalize cut : segments.reverse.dropWhile (fun segment => decide (lsn < segment.startLsn)) = kept
  cases kept with
  | nil => simp
  | cons last earlier =>
    have lower : last.startLsn ≤ lsn := by
      have stopped := List.head?_dropWhile_not (fun segment : Segment => decide (lsn < segment.startLsn))
        segments.reverse
      simpa [cut] using stopped
    obtain ⟨later, split⟩ : ∃ later, segments = (earlier.reverse ++ [last]) ++ later := by
      have whole := List.takeWhile_append_dropWhile (p := fun segment : Segment => decide (lsn < segment.startLsn))
        (l := segments.reverse)
      rw [cut] at whole
      refine ⟨(segments.reverse.takeWhile fun segment => decide (lsn < segment.startLsn)).reverse, ?_⟩
      have := congrArg List.reverse whole
      simpa using this.symm
    have dropped : segments.drop ((last :: earlier).length - 1) = last :: later := by
      rw [split]
      simp
    rw [dropped]
    rw [split] at tiled ⊢
    rw [List.append_assoc] at tiled ⊢
    obtain ⟨middle, first, second⟩ := tiled.split
    have begins : last.startLsn = middle := second.1
    rw [List.flatMap_append, List.singleton_append]
    exact (LaidOut.filter_split first.laidOut (begins ▸ lower)).symm

theorem filter_retained (holds : Holds log history gone) :
    (history.filter fun record => decide (log.base ≤ record.lsn)) =
      log.sealed.flatMap Segment.records ++ log.active.records ++ log.buffer := by
  have laid : LaidOut log.base (log.sealed.flatMap Segment.records ++ log.active.records ++ log.buffer) log.nextLsn :=
    (holds.tiled.laidOut.append holds.durable).append holds.buffered
  rw [holds.history_eq, LaidOut.filter_split holds.dropped (Nat.le_refl _), List.filter_eq_self]
  intro record member
  exact decide_eq_true (laid.bounds member).1

theorem iterFrom_retained (holds : Holds log history gone) (lsn : Nat) :
    log.iterFrom lsn = (history.filter fun record => decide (log.base ≤ record.lsn)).filter
      fun record => decide (lsn ≤ record.lsn) := by
  have cut := segmentsFrom_filter (max lsn HEADER_LEN) holds.tiled
  have header : ∀ record ∈ log.sealed.flatMap Segment.records ++ log.active.records ++ log.buffer,
      decide (max lsn HEADER_LEN ≤ record.lsn) = decide (lsn ≤ record.lsn) := by
    intro record member
    have known : record ∈ history := by
      rw [holds.history_eq]
      exact List.mem_append_right _ member
    have := (holds.whole.bounds known).1
    exact decide_eq_decide.mpr (by omega)
  unfold LogManager.iterFrom
  rw [holds.filter_retained, ← List.filter_congr header]
  simp only [List.filter_append] at cut ⊢
  rw [cut]

theorem iterFrom (holds : Holds log history gone) {lsn : Nat} (low : log.base ≤ lsn) :
    log.iterFrom lsn = history.filter fun record => decide (lsn ≤ record.lsn) := by
  rw [holds.iterFrom_retained, List.filter_filter]
  refine List.filter_congr fun record _ => ?_
  rw [← Bool.decide_and]
  exact decide_eq_decide.mpr (by omega)

theorem bootstrap (holds : Holds log history gone) {kept : Nat}
    {reopened : LogManager} (opened : reopened = LogManager.bootstrap log.targetSegmentSize log.sealed
      { log.active with records := log.active.records ++ log.buffer.take kept }) :
    ∃ lost, history = history.filter (fun r => decide (r.lsn < reopened.nextLsn)) ++ lost ∧
      Holds reopened (history.filter fun r => decide (r.lsn < reopened.nextLsn)) gone ∧
      log.durableLsn ≤ reopened.nextLsn ∧ reopened.base = log.base := by
  obtain ⟨written, rest, same, split⟩ : ∃ written rest, log.buffer.take kept = written ∧ log.buffer = written ++ rest :=
    ⟨_, log.buffer.drop kept, rfl, (List.take_append_drop _ _).symm⟩
  rw [same] at opened
  have buffered := holds.buffered
  rw [split] at buffered
  obtain ⟨stop, first, second⟩ := buffered.split
  have laid : LaidOut log.active.startLsn (log.active.records ++ written) stop := holds.durable.append first
  have next : reopened.nextLsn = stop := by
    rw [opened]
    exact laid.total.symm
  have base : reopened.base = log.base := by rw [opened]; rfl
  have prior : LaidOut HEADER_LEN
      (gone ++ (log.sealed.flatMap Segment.records ++ (log.active.records ++ written))) stop :=
    holds.dropped.append (holds.tiled.laidOut.append laid)
  have below : history.filter (fun r => decide (r.lsn < reopened.nextLsn)) =
      gone ++ (log.sealed.flatMap Segment.records ++ (log.active.records ++ written)) := by
    have whole := holds.whole
    have again : history =
        (gone ++ (log.sealed.flatMap Segment.records ++ (log.active.records ++ written))) ++ rest := by
      rw [holds.history_eq, split]
      simp
    rw [again] at whole
    rw [next, again]
    exact whole.filter_below prior
  rw [below]
  refine ⟨rest, ?_, ?_, ?_, base⟩
  · rw [holds.history_eq, split]
    simp
  · exact {
      history_eq := by simp [opened, LogManager.bootstrap]
      whole := by rw [next]; exact prior
      dropped := by rw [base]; exact holds.dropped
      tiled := by rw [base, opened]; exact holds.tiled
      durable := by
        have stops := laid.total
        rw [opened]
        subst stops
        exact laid
      buffered := by rw [opened]; rfl
      last := by
        rw [opened]
        intro txnId named
        simp only [LogManager.bootstrap, List.append_nil] at named ⊢
        rcases named with present | absent
        · exact (lastLsnOf_append present).symm
        · rw [lastLsnOf_eq_none absent]
          refine lastLsnOf_eq_none fun record member => absent record ?_
          exact List.mem_append_right _ member }
  · rw [next]
    exact first.le

end Holds

end LogManager

end SimpleRdbms.Storage
