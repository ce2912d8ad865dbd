import SimpleRdbms.Proof.LogReopen
import SimpleRdbms.Storage.LogLifetime

namespace SimpleRdbms.Storage
open Lib

section Layout
variable {start middle stop : Nat} {segments rest : List Segment}

theorem Tiled.concat (first : Tiled start segments middle) (second : Tiled middle rest stop) :
    Tiled start (segments ++ rest) stop := by
  induction segments generalizing start with
  | nil =>
    obtain rfl : start = middle := first
    exact second
  | cons segment segments ih =>
    obtain ⟨begins, after, records, others⟩ := first
    exact ⟨begins, after, records, ih others⟩

theorem Tiled.head_eq (tiled : Tiled start segments stop) :
    (segments.head?.map Segment.startLsn).getD stop = start := by
  cases segments with
  | nil => exact tiled.symm
  | cons segment rest => exact tiled.1

end Layout

namespace LogManager.Holds
variable {log : LogManager} {history gone : List LoggedRecord}

theorem drop (holds : Holds log history gone) (count : Nat) :
    Holds { log with sealed := log.sealed.drop count } history
      (gone ++ (log.sealed.take count).flatMap Segment.records) := by
  have tiled := holds.tiled
  rw [← List.take_append_drop count log.sealed] at tiled
  obtain ⟨middle, first, second⟩ := tiled.split
  have base : LogManager.base { log with sealed := log.sealed.drop count } = middle := second.head_eq
  have whole : log.sealed.flatMap Segment.records =
      (log.sealed.take count).flatMap Segment.records ++ (log.sealed.drop count).flatMap Segment.records := by
    rw [← List.flatMap_append, List.take_append_drop]
  exact {
    history_eq := by
      rw [holds.history_eq, whole]
      simp
    whole := holds.whole
    dropped := by
      rw [base]
      exact holds.dropped.append first.laidOut
    tiled := by
      rw [base]
      exact second
    durable := holds.durable
    buffered := holds.buffered
    last := by
      intro txnId named
      refine holds.last txnId (named.imp_left ?_)
      rintro ⟨record, member, mine⟩
      refine ⟨record, ?_, mine⟩
      rw [whole, List.append_assoc, List.append_assoc]
      exact List.mem_append_right _ (by simpa using member) }

theorem restore {before : List Segment} {start : Nat} {lost : List LoggedRecord}
    (holds : Holds log history gone) (split : gone = lost ++ before.flatMap Segment.records)
    (tiled : Tiled start before log.base) :
    Holds { log with sealed := before ++ log.sealed, lastLsnByTxn := lastLsnOf history } history lost ∧
      LogManager.base { log with sealed := before ++ log.sealed, lastLsnByTxn := lastLsnOf history } = start := by
  have joined := tiled.concat holds.tiled
  have base : LogManager.base { log with sealed := before ++ log.sealed, lastLsnByTxn := lastLsnOf history } = start :=
    joined.head_eq
  have dropped := holds.dropped
  rw [split] at dropped
  obtain ⟨middle, first, second⟩ := dropped.split
  have same : middle = start := by
    have := second.total
    have := tiled.laidOut.total
    omega
  subst same
  refine ⟨?_, base⟩
  exact {
    history_eq := by
      rw [holds.history_eq, split]
      simp
    whole := holds.whole
    dropped := by
      rw [base]
      exact first
    tiled := by
      rw [base]
      exact joined
    durable := holds.durable
    buffered := holds.buffered
    last := fun _ _ => rfl }

end LogManager.Holds

namespace SegmentFiles

theorem foldl_remove (files : SegmentFiles) (ids : List Nat) :
    ids.foldl remove files = files.filter fun file => decide (file.1 ∉ ids) := by
  induction ids generalizing files with
  | nil => simp
  | cons id ids ih =>
    rw [List.foldl_cons, ih, remove, List.filter_filter]
    refine List.filter_congr fun file _ => ?_
    simp [Bool.and_comm]

end SegmentFiles

namespace SegmentedLog

theorem flush_target (log : SegmentedLog) (upTo : Nat) (outcome : FlushOutcome) :
    (log.flush upTo outcome).1.targetSegmentSize = log.targetSegmentSize := by
  unfold flush
  split
  · rfl
  · cases outcome with
    | writeFails | syncFails | sizeFails => rfl
    | succeeds roll =>
      dsimp only
      split
      · rcases roll with _ | fault
        · rfl
        · cases fault <;> rfl
      · rfl

theorem flushAll_target (log : SegmentedLog) : log.flushAll.targetSegmentSize = log.targetSegmentSize := by
  unfold flushAll
  split
  · rfl
  · exact log.flush_target _ _

theorem keepFrom_bound (bound activeStartLsn : Nat) (sealed : List SegmentMeta) :
    ((sealed.drop (keepFrom bound activeStartLsn sealed)).head?.map SegmentMeta.startLsn).getD activeStartLsn ≤
      max ((sealed.head?.map SegmentMeta.startLsn).getD activeStartLsn) bound := by
  induction sealed with
  | nil => exact Nat.le_max_left _ _
  | cons segment rest ih =>
    simp only [keepFrom]
    split
    · rename_i below
      rw [List.drop_succ_cons]
      omega
    · exact Nat.le_max_left _ _

end SegmentedLog

namespace Keeping
variable {log : SegmentedLog} {history gone : List LoggedRecord} {model : LogManager}
  {leaving parts : List Part} {active : Device} {torn : List UInt8} {next : Option Device}

section
variable (keeping : Keeping log history gone model leaving parts active torn next)
include keeping

theorem firstLsn : log.firstLsn = model.base := by
  rw [SegmentedLog.firstLsn, LogManager.base, keeping.represents.sealed, keeping.represents.segments,
    keeping.represents.activeStart]
  cases parts <;> rfl

theorem drop (count : Nat) :
    Keeping { log with sealed := log.sealed.drop count } history
      (gone ++ (model.sealed.take count).flatMap Segment.records) { model with sealed := model.sealed.drop count }
      (leaving ++ parts.take count) (parts.drop count) active torn next := by
  have represents := keeping.represents
  have stored : leaving ++ parts.take count ++ parts.drop count = leaving ++ parts := by
    rw [List.append_assoc, List.take_append_drop]
  obtain ⟨start, lost, split, tiled⟩ := keeping.leaves
  have leaves : ∃ start lost, gone ++ (model.sealed.take count).flatMap Segment.records =
      lost ++ ((leaving ++ parts.take count).map Part.segment).flatMap Segment.records ∧
      Tiled start ((leaving ++ parts.take count).map Part.segment)
        (LogManager.base { model with sealed := model.sealed.drop count }) := by
    have whole := keeping.holds.tiled
    rw [← List.take_append_drop count model.sealed] at whole
    obtain ⟨middle, first, second⟩ := whole.split
    refine ⟨start, lost, ?_, ?_⟩
    · rw [split, represents.segments, ← List.map_take, List.map_append, List.flatMap_append, List.append_assoc]
    · rw [List.map_append, List.map_take, ← represents.segments]
      have base : LogManager.base { model with sealed := model.sealed.drop count } = middle := second.head_eq
      rw [base]
      exact tiled.concat first
  refine ⟨?_, keeping.holds.drop count, keeping.known, leaves, keeping.fits, keeping.bound, keeping.copied⟩
  exact { represents with
    files := by
      rw [stored]
      exact represents.files
    ids := by
      rw [stored]
      exact represents.ids
    distinct := by
      rw [stored]
      exact represents.distinct
    sealed := by rw [represents.sealed, List.map_drop]
    segments := by rw [represents.segments, List.map_drop]
    images := by
      rw [stored]
      exact represents.images }

theorem remove (count : Nat) :
    Keeping { log with files := ((leaving.map Part.id).take count).foldl SegmentFiles.remove log.files } history gone
      model (leaving.drop count) parts active torn next := by
  have represents := keeping.represents
  have stored : leaving.take count ++ (leaving.drop count ++ parts) = leaving ++ parts := by
    rw [← List.append_assoc, List.take_append_drop]
  have kept : ∀ part ∈ leaving.drop count ++ parts, part ∈ leaving ++ parts := by
    intro part member
    rw [← stored]
    exact List.mem_append_right _ member
  have distinct := represents.distinct
  rw [← stored, List.map_append, List.nodup_append] at distinct
  obtain ⟨start, lost, split, tiled⟩ := keeping.leaves
  have leaves : ∃ start lost, gone = lost ++ ((leaving.drop count).map Part.segment).flatMap Segment.records ∧
      Tiled start ((leaving.drop count).map Part.segment) model.base := by
    rw [← List.take_append_drop count leaving, List.map_append] at tiled split
    obtain ⟨middle, -, second⟩ := tiled.split
    refine ⟨middle, lost ++ ((leaving.take count).map Part.segment).flatMap Segment.records, ?_, second⟩
    rw [split, List.flatMap_append, List.append_assoc]
  refine ⟨?_, keeping.holds, keeping.known, leaves, keeping.fits, keeping.bound, keeping.copied⟩
  exact { represents with
    files := by
      have removed : ((leaving.take count).map Part.file).filter
          (fun file => decide (file.1 ∉ (leaving.take count).map Part.id)) = [] := by
        rw [List.filter_eq_nil_iff]
        intro file member
        obtain ⟨part, isPart, rfl⟩ := List.mem_map.mp member
        have isRemoved : part.file.1 ∈ (leaving.take count).map Part.id := List.mem_map.mpr ⟨part, isPart, rfl⟩
        simpa using isRemoved
      have others : ((leaving.drop count ++ parts).map Part.file).filter
          (fun file => decide (file.1 ∉ (leaving.take count).map Part.id)) =
          (leaving.drop count ++ parts).map Part.file := by
        rw [List.filter_eq_self]
        intro file member
        obtain ⟨part, isPart, rfl⟩ := List.mem_map.mp member
        refine decide_eq_true fun isRemoved => ?_
        exact distinct.2.2 _ isRemoved _ (List.mem_map.mpr ⟨part, isPart, rfl⟩) rfl
      have later : ∀ id, log.activeId ≤ id → id ∉ (leaving.take count).map Part.id := by
        intro id high isRemoved
        obtain ⟨part, isPart, rfl⟩ := List.mem_map.mp isRemoved
        have := represents.ids part (List.mem_append_left _ (List.mem_of_mem_take isPart))
        omega
      have last : ((log.activeId, active) :: next.toList.map fun d => (log.activeId + 1, d)).filter
          (fun file => decide (file.1 ∉ (leaving.take count).map Part.id)) =
          (log.activeId, active) :: next.toList.map fun d => (log.activeId + 1, d) := by
        rw [List.filter_eq_self]
        intro file member
        rcases List.mem_cons.mp member with rfl | isNext
        · exact decide_eq_true (later _ (Nat.le_refl _))
        · obtain ⟨d, -, rfl⟩ := List.mem_map.mp isNext
          exact decide_eq_true (later _ (Nat.le_succ _))
      rw [SegmentFiles.foldl_remove, represents.files, ← List.map_take, ← stored, List.map_append, List.append_assoc,
        List.filter_append, removed, List.nil_append, List.filter_append, others, last]
    ids := fun part member => represents.ids part (kept part member)
    distinct := distinct.2.1
    images := fun part member => represents.images part (kept part member) }

theorem restore :
    ∃ log' lost model', log'.files = log.files ∧ log'.targetSegmentSize = log.targetSegmentSize ∧
      log'.activeId = log.activeId ∧ log'.durableLsn = log.durableLsn ∧ model'.durableLsn = model.durableLsn ∧
      model'.base ≤ model.base ∧ Keeping log' history lost model' [] (leaving ++ parts) active torn next := by
  have represents := keeping.represents
  obtain ⟨start, lost, split, tiled⟩ := keeping.leaves
  obtain ⟨holds, base⟩ := keeping.holds.restore split tiled
  let log' : SegmentedLog :=
    { log with sealed := (leaving ++ parts).map Part.meta, lastLsnByTxn := lastLsnOf history }
  let model' : LogManager :=
    { model with sealed := leaving.map Part.segment ++ model.sealed, lastLsnByTxn := lastLsnOf history }
  refine ⟨log', lost, model', rfl, rfl, rfl, rfl, rfl, ?_, ?_, holds, ?_, leaves_nil _ _, keeping.fits, keeping.bound,
    keeping.copied⟩
  · rw [show model'.base = start from base]
    exact tiled.laidOut.le
  · exact { represents with
      sealed := rfl
      segments := by
        rw [List.map_append, ← represents.segments]
      last := rfl }
  · exact fun txnId lsn isLast => lastLsnOf_mem isLast

end

end Keeping

end SimpleRdbms.Storage
