import SimpleRdbms.Proof.SerialPages
import SimpleRdbms.Storage.Recovery

namespace SimpleRdbms.Storage

structure Recovering (initial : Nat → PageData) (known : Nat) (leaked : List Nat) (gone : List LoggedRecord)
    (pool : SerialPool) (past : List LoggedRecord) : Prop where
  pages : Pages initial pool pool.history
  holds : pool.log.Holds pool.history gone
  length : known ≤ pool.disk.length
  changed : ∀ record ∈ past, ∀ pageId, record.changes pageId = true → record.lsn ≤ (pool.view pageId).lsn
  allocated : ∀ record ∈ past, ∀ pageId, record.kind = .allocPage pageId → pageId ∉ leaked →
    pageId < pool.disk.length

namespace Recovering
variable {initial : Nat → PageData} {known : Nat} {leaked : List Nat} {gone past : List LoggedRecord}
  {pool pool' : SerialPool}

section
variable (state : Recovering initial known leaked gone pool past)
include state

theorem sorted : pool.history.Pairwise (·.lsn < ·.lsn) := state.holds.whole.sorted

theorem unseen (pages : Pages initial pool' pool'.history) (holds : pool'.log.Holds pool'.history gone)
    (length : pool.disk.length ≤ pool'.disk.length)
    (view : ∀ pageId, (pool.view pageId).lsn ≤ (pool'.view pageId).lsn) :
    Recovering initial known leaked gone pool' past where
  pages := pages
  holds := holds
  length := Nat.le_trans state.length length
  changed record member pageId changes := Nat.le_trans (state.changed record member pageId changes) (view pageId)
  allocated record member pageId allocates known :=
    Nat.lt_of_lt_of_le (state.allocated record member pageId allocates known) length

theorem flushed (result : Pages.FlushResult initial pool pool' pool.history gone) :
    Recovering initial known leaked gone pool' past := by
  have same := result.flushed.history
  refine state.unseen (same ▸ result.pages) (same ▸ result.holds) ?_ ?_
  · rw [result.flushed.length]
  · exact fun pageId => Nat.le_of_eq (result.flushed.view pageId).symm

theorem evictAll (pageIds : List Nat) :
    Recovering initial known leaked gone (pool.evictAll pageIds) past ∧
      (pool.evictAll pageIds).history = pool.history ∧
      ∀ pageId, ((pool.evictAll pageIds).view pageId).lsn = (pool.view pageId).lsn := by
  have result := state.pages.evictAll state.holds pageIds
  exact ⟨state.flushed result, result.flushed.history, result.flushed.view⟩

theorem fetchPage {pageId : Nat} (inside : pageId < pool.disk.length) :
    ∃ frames resident, pool.fetchPage pageId = .ok ({ pool with frames }, resident) ∧
      frames.lookup pageId = some resident ∧ resident.page = pool.view pageId ∧
      Recovering initial known leaked gone { pool with frames } past ∧
      ∀ other, ({ pool with frames } : SerialPool).view other = pool.view other := by
  obtain ⟨frames, resident, fetch, here, shows, others, origin⟩ := state.pages.fetchPage inside
  have pages := state.pages.refetched inside here shows others origin
  have view : ∀ other, ({ pool with frames } : SerialPool).view other = pool.view other := by
    intro other
    by_cases same : other = pageId
    · subst same
      exact (Pages.view_of_lookup here).trans shows
    · unfold SerialPool.view
      rw [others other same]
  refine ⟨frames, resident, fetch, here, shows, state.unseen pages state.holds (Nat.le_refl _) fun other => ?_, view⟩
  rw [view]

theorem pageLsn {pageId : Nat} (inside : pageId < pool.disk.length) :
    ∃ frames, pool.pageLsn pageId = .ok ({ pool with frames }, (pool.view pageId).lsn) ∧
      Recovering initial known leaked gone { pool with frames } past ∧
      ∀ other, (({ pool with frames } : SerialPool).view other).lsn = (pool.view other).lsn := by
  obtain ⟨frames, resident, fetch, -, shows, state, view⟩ := state.fetchPage inside
  refine ⟨frames, ?_, state, fun other => congrArg Page.lsn (view other)⟩
  simp only [SerialPool.pageLsn, fetch, bind, Except.bind, shows]
  rfl

theorem record_inside {record : LoggedRecord}
    {pageId offset : Nat} {bytes : List UInt8} (ranged : Ranged known past record)
    (change : record.kind.pageChange = some (pageId, offset, bytes)) (used : pageId ∉ leaked) :
    pageId < pool.disk.length ∧ offset + bytes.length ≤ PAGE_SIZE := by
  obtain ⟨range, exists_⟩ := ranged.inside pageId offset bytes change
  refine ⟨?_, range⟩
  rcases exists_ with early | ⟨alloc, member, allocates⟩
  · exact Nat.lt_of_lt_of_le early state.length
  · exact state.allocated alloc member pageId allocates used

theorem redoChange {record : LoggedRecord}
    {rest : List LoggedRecord} {pageId offset : Nat} {bytes : List UInt8}
    (split : pool.history = past ++ record :: rest) (ranged : Ranged known past record)
    (change : record.kind.pageChange = some (pageId, offset, bytes)) (used : pageId ∉ leaked) (pageIds : List Nat) :
    ∃ pool', (do
        let (pool, pageLsn) ← (pool.evictAll pageIds).pageLsn pageId
        if pageLsn < record.lsn then pool.stampWrite pageId offset bytes record.lsn else return pool) = .ok pool' ∧
      pool'.history = pool.history ∧ Recovering initial known leaked gone pool' (past ++ [record]) := by
  obtain ⟨evicted, history, -⟩ := state.evictAll pageIds
  obtain ⟨inside, range⟩ := evicted.record_inside ranged change used
  obtain ⟨frames, fetch, fetched, view⟩ := evicted.pageLsn inside
  have sorted := state.sorted
  rw [split] at sorted
  obtain ⟨-, following, earlier⟩ := List.pairwise_append.mp sorted
  have later := (List.pairwise_cons.mp following).1
  have changes : ∀ other, record.changes other = true → other = pageId := by
    intro other isChange
    have same : pageId = other := by simpa [LoggedRecord.changes, change] using isChange
    exact same.symm
  -- only the record itself can be missing in the page
  have finish : ∀ {pool'' : SerialPool}, Recovering initial known leaked gone pool'' past →
      record.lsn ≤ (pool''.view pageId).lsn → Recovering initial known leaked gone pool'' (past ++ [record]) := by
    intro pool'' after reached
    refine { after with changed := ?_, allocated := ?_ }
    · intro old member other isChange
      rcases List.mem_append.mp member with before | last
      · exact after.changed old before other isChange
      · obtain rfl : old = record := by simpa using last
        rw [changes other isChange]
        exact reached
    · intro old member other allocates
      rcases List.mem_append.mp member with before | last
      · exact after.allocated old before other allocates
      · obtain rfl : old = record := by simpa using last
        simp [allocates, LogRecordKind.pageChange] at change
  simp only [fetch, bind, Except.bind]
  split
  · rename_i behind
    have here : record ∈ (pool.evictAll pageIds).history := by
      rw [history, split]
      simp
    have next : ∀ other ∈ (pool.evictAll pageIds).history, other.changes pageId = true →
        other.lsn < record.lsn → other.lsn ≤ ((pool.evictAll pageIds).view pageId).lsn := by
      intro other member isChange below
      rw [history, split] at member
      rcases List.mem_append.mp member with before | after
      · exact evicted.changed other before pageId isChange
      · rcases List.mem_cons.mp after with rfl | after
        · omega
        · exact absurd (later other after) (by omega)
    obtain ⟨stamped, write, pages, shown⟩ :=
      fetched.pages.stampWrite fetched.sorted inside range here change
      (by rw [view]; exact behind) (by simpa only [view] using next)
    refine ⟨_, write, history, finish (fetched.unseen pages fetched.holds (Nat.le_refl _) fun other => ?_) ?_⟩
    · rw [shown]
      split
      · rename_i same
        rw [same, view]
        exact Nat.le_of_lt behind
      · exact Nat.le_refl _
    · rw [shown, if_pos rfl]
  · rename_i ahead
    refine ⟨_, rfl, history, finish fetched ?_⟩
    rw [view]
    omega

theorem redoRecord {record : LoggedRecord}
    {rest : List LoggedRecord} (split : pool.history = past ++ record :: rest) (ranged : Ranged known past record)
    (used : ∀ pageId, record.changes pageId = true → pageId ∉ leaked) (evictions : Nat → List Nat) :
    ∃ pool', SerialPool.redoRecord evictions pool record = .ok pool' ∧ pool'.history = pool.history ∧
      Recovering initial known leaked gone pool' (past ++ [record]) := by
  have quiet : (∀ pageId, record.changes pageId = false) → (∀ pageId, record.kind ≠ .allocPage pageId) →
      Recovering initial known leaked gone pool (past ++ [record]) := by
    intro unchanged unallocated
    refine { state with changed := ?_, allocated := ?_ }
    · intro old member pageId changes
      rcases List.mem_append.mp member with before | last
      · exact state.changed old before pageId changes
      · obtain rfl : old = record := by simpa using last
        simp [unchanged] at changes
    · intro old member pageId allocates
      rcases List.mem_append.mp member with before | last
      · exact state.allocated old before pageId allocates
      · obtain rfl : old = record := by simpa using last
        exact absurd allocates (unallocated pageId)
  unfold SerialPool.redoRecord
  cases kind : record.kind with
  | update pageId offset before after =>
    have change : record.kind.pageChange = some (pageId, offset, after) := by rw [kind]; rfl
    exact state.redoChange split ranged change (used pageId (by simp [LoggedRecord.changes, change])) _
  | clr pageId offset after next =>
    have change : record.kind.pageChange = some (pageId, offset, after) := by rw [kind]; rfl
    exact state.redoChange split ranged change (used pageId (by simp [LoggedRecord.changes, change])) _
  | allocPage pageId =>
    have unchanged : ∀ pageId, record.changes pageId = false := by
      simp [LoggedRecord.changes, kind, LogRecordKind.pageChange]
    have grown : pool.disk.length ≤ (pool.ensurePageAllocated pageId).disk.length := Nat.le_max_left _ _
    have pages : Pages initial (pool.ensurePageAllocated pageId) pool.history :=
      { state.pages with
        length := Nat.le_trans state.pages.length grown
        frames := fun other resident present => by
          obtain ⟨image, inside⟩ := state.pages.frames other resident present
          exact ⟨image, Nat.lt_of_lt_of_le inside grown⟩ }
    have extended : Recovering initial known leaked gone (pool.ensurePageAllocated pageId) past :=
      state.unseen pages state.holds grown fun _ => Nat.le_refl _
    refine ⟨_, rfl, rfl, { extended with changed := ?_, allocated := ?_ }⟩
    · intro old member other changes
      rcases List.mem_append.mp member with before | last
      · exact extended.changed old before other changes
      · obtain rfl : old = record := by simpa using last
        simp [unchanged] at changes
    · intro old member other allocates used
      rcases List.mem_append.mp member with before | last
      · exact extended.allocated old before other allocates used
      · obtain rfl : old = record := by simpa using last
        obtain rfl : pageId = other := by simpa [kind] using allocates
        exact Nat.lt_of_lt_of_le (Nat.lt_succ_self _) (Nat.le_max_right _ _)
  | _ => exact ⟨pool, rfl, rfl, quiet (by simp [LoggedRecord.changes, kind, LogRecordKind.pageChange]) (by simp [kind])⟩

end

end Recovering

end SimpleRdbms.Storage
