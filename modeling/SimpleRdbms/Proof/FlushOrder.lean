import Mathlib.Data.List.Nodup
import SimpleRdbms.Proof.PoolFlush

namespace SimpleRdbms.Storage
open Function (update)

namespace BufferPool

variable {s s' : BufferPool} {a : PoolAction}

theorem PoolInvariant.init (initial : system.init s) : PoolInvariant s := by
  obtain ⟨poolSize, dwbCapacity, pages, lsns, log, rfl, positive, older⟩ := initial
  have settled : ∀ p, (start poolSize dwbCapacity pages lsns log).Settled
      ((start poolSize dwbCapacity pages lsns log).diskLsn p) := by
    intro p
    refine ⟨?_, by simp [start]⟩
    simp only [start, diskLsn]
    split
    · rename_i data found
      exact older p (List.getElem?_eq_some_iff.mp found).1
    · exact positive
  refine ⟨⟨?_, ?_⟩, ?_, ?_, ?_, ?_⟩
  · constructor <;> simp [start, List.nodup_range]
  · constructor <;> simp [start, Task.holds, Task.evicts, Task.fills, Task.brings, Task.caller, Task.loads]
  · exact ⟨positive, by simp [start], by simp [start], by simp [start], by simp [start], by simp [start],
      by simp [start], by simp [start]⟩
  · refine ⟨?_, by simp [start], settled, fun f => ⟨positive, by simp [start]⟩, ?_,
      by simp [start, Task.creates, Task.caller], by simp [start], by simp [start], by simp [start]⟩
    · intro p
      simp only [start]
      split <;> rfl
    · intro p beyond
      have missing : pages[p]? = none := List.getElem?_eq_none beyond
      simp only [start, missing]
      exact Image.Same.refl _
  · simp [start]
  · constructor <;> simp [start, inFlush]

theorem PoolInvariant.step (inv : PoolInvariant s) (allowed : Disciplined s a)
    (action : s.step a = some s') : PoolInvariant s' :=
  ⟨inv.residency.step allowed.fetchInstalled action, Logged.step inv action, Images.step inv allowed action,
    fun _ held => Leased.step inv allowed action held, Evictions.step inv allowed action⟩

theorem PoolInvariant.of_reachable (reachable : system.ReachableBy Disciplined s) : PoolInvariant s :=
  reachable.invariant (fun _ initial => PoolInvariant.init initial)
    fun _ _ _ inv allowed action => inv.step allowed action

theorem step_disk (action : s.step a = some s') (other : ∀ t, a ≠ .writeSnapshot t) : s'.disk = s.disk := by
  cases a with
  | fetchFrame | popFreeFrame | chooseVictim | frameTimeout | examineVictim | abortEviction | readPage | finishFetch
  | setEvictable | flushPage | flushAll | activeSnapshot | dirtyPageTable =>
    exact (step_unmoved action rfl).disk
  | beginTxn | endTxn | checkpointBegin | checkpointEnd =>
    obtain ⟨txnId, kind, -, unmoved⟩ := step_recorded action rfl
    exact unmoved.disk
  | writeSnapshot t => exact absurd rfl (other t)
  | completeEviction =>
    obtain ⟨caller, frameId, v, -, -, rfl⟩ := completeEviction_cases action
    rfl
  | tryInstall =>
    obtain ⟨frames, index, guards, task, -, rfl⟩ := tryInstall_frame action
    rfl
  | newPage =>
    obtain ⟨-, -, rfl⟩ := newPage_cases action
    rfl
  | unpinFrame =>
    obtain ⟨-, -, unpinning, rfl⟩ := unpinFrame_cases action
    rfl
  | beginFlush =>
    obtain ⟨batch, rest, -, -, -, rfl⟩ := beginFlush_cases action
    rfl
  | clearDirty =>
    obtain ⟨lease, -, -, -, rfl⟩ := clearDirty_cases action
    rfl
  | appendUpdate | appendClr =>
    obtain ⟨txnId, kind, change, -, -, rfl⟩ := step_appends action rfl
    rfl
  | applyUpdate | stampWrite =>
    obtain ⟨change, -, frameId, rfl⟩ := step_applies action rfl
    rfl

theorem disk_behind (inv : PoolInvariant s) (action : s.step a = some s') (p : Nat) :
    Image.Behind (s.disk p) (s'.disk p) := by
  by_cases writes : ∃ t, a = .writeSnapshot t
  · obtain ⟨t, rfl⟩ := writes
    obtain ⟨lease, held, -, -, rfl⟩ := writeSnapshot_cases action
    rcases Images.written_cases (inv.leased lease held) p with untouched | ⟨image, -, rfl, same, older⟩
    · simp only [untouched]
      exact Image.Behind.refl _
    · exact older.trans same.behind
  · rw [step_disk action (fun t equal => writes ⟨t, equal⟩)]
    exact Image.Behind.refl _

def smallPool : BufferPool :=
  start 2 8 [zeroData, zeroData, zeroData] (fun _ => 0) (LogManager.create 4096)

theorem smallPool_init : system.init smallPool :=
  ⟨2, 8, _, _, _, rfl, by decide, fun _ _ => by decide⟩

def load (thread pageId : Nat) : List PoolAction :=
  [.fetchFrame thread pageId, .popFreeFrame thread, .readPage thread, .tryInstall thread,
    .finishFetch thread]

def flushBatch (thread : Nat) : List PoolAction :=
  [.beginFlush thread, .writeSnapshot thread, .clearDirty thread]

theorem no_flush_moves_page_back (reachable : system.ReachableBy Disciplined s) :
    (∀ a s', s.step a = some s' → ∀ p, (s.disk p).page.lsn ≤ (s'.disk p).page.lsn) ∧
      ∀ p f, s.index.pageTable p = some f → (s.frames f).dirtySinceLsn = 0 →
        (s.frames f).image.page.lsn = (s.disk p).page.lsn ∧
          ∀ i, CHECKSUM_END ≤ i → (s.frames f).image.page.data i = (s.disk p).page.data i := by
  have inv := PoolInvariant.of_reachable reachable
  refine ⟨fun a s' action p => (disk_behind inv action p).lsn, ?_⟩
  intro p f resident clean
  have mapped := inv.residency.mapping.tableFrame p f resident
  have equal := inv.images.clean f p mapped clean
  have same := (inv.images.ahead f p mapped).same equal.symm
  exact ⟨equal, fun i body => (same.data i body).symm⟩

theorem no_flush_moves_page_back_flushed :
    ∃ s, system.ReachableBy Disciplined s ∧ s.index.pageTable 1 = some 1 ∧ (s.frames 1).image.page.lsn = 16 ∧
      (s.disk 1).page.lsn = 16 ∧ (s.disk 1).page.data 100 = 1 := by
  have found : (system.run smallPool (load 0 1 ++ [.appendUpdate 7 1 1 100 [1], .applyUpdate 16, .flushPage 0 1])).any
      (fun s => decide (∀ batch ∈ (s.flushList 0).head?, ∀ entry ∈ batch, s.index.framePage entry.1 ≠ none) &&
        (system.run s (flushBatch 0)).any fun s' => decide (s'.index.pageTable 1 = some 1 ∧
          (s'.frames 1).dirtySinceLsn = 0 ∧ (s'.frames 1).image.page.lsn = 16 ∧
          (s'.frames 1).image.page.data 100 = 1)) = true := by decide +kernel
  obtain ⟨listed, executed, found⟩ := (Option.any_eq_true _ _).mp found
  obtain ⟨held, found⟩ := Bool.and_eq_true_iff.mp found
  have held := of_decide_eq_true held
  obtain ⟨s, flushed, found⟩ := (Option.any_eq_true _ _).mp found
  obtain ⟨resident, clean, lsn, byte⟩ := of_decide_eq_true found
  obtain ⟨announced, first, rest⟩ := Option.bind_eq_some_iff.mp executed
  obtain ⟨leased, begun, others⟩ := Option.bind_eq_some_iff.mp flushed
  have fetches : Disciplined smallPool (.fetchFrame 0 1) :=
    ⟨by decide, by simp [smallPool, start, Task.creates, Task.caller]⟩
  have reached : system.ReachableBy Disciplined listed :=
    .run (.next (.start smallPool_init) fetches first) rest (by simp [Disciplined])
  have reachable : system.ReachableBy Disciplined s :=
    .run (.next (a := .beginFlush 0) reached held begun) others (by simp [Disciplined])
  obtain ⟨same, body⟩ := (no_flush_moves_page_back reachable).2 1 1 resident clean
  exact ⟨s, reachable, resident, lsn, same ▸ lsn, (body 100 (by decide)).symm.trans byte⟩

/-! A flush list can outlive the residency of its frames, which the condition on `beginFlush` rules out. -/

def reload (thread pageId frameId : Nat) : List PoolAction :=
  [.fetchFrame thread pageId, .chooseVictim thread frameId, .examineVictim thread,
    .completeEviction thread, .readPage thread, .tryInstall thread, .finishFetch thread]

def staleFlush : List PoolAction :=
  load 0 1 ++ load 0 0 ++
  [.appendUpdate 7 1 1 100 [1], .applyUpdate 16, .unpinFrame 1 1, .setEvictable 1] ++
  -- Thread 1 finds page 1 dirty in frame 1 and is delayed before it takes the lease.
  [.flushAll 1] ++
  -- Thread 2 evicts page 1 from frame 1, writing it first, and is delayed before it fills the frame.
  [.fetchFrame 2 2, .chooseVictim 2 1, .examineVictim 2] ++ flushBatch 2 ++ [.completeEviction 2] ++
  -- Thread 3 brings page 1 back into frame 0, changes it and flushes it.
  [.unpinFrame 0 0, .setEvictable 0] ++ reload 3 1 0 ++
  [.appendUpdate 7 0 1 100 [2], .applyUpdate 69, .flushPage 3 1] ++ flushBatch 3 ++
  -- Thread 1 now copies what is left in frame 1.
  [.beginFlush 1]

theorem stale_flush_moves_page_back :
    ∃ s s', system.Reachable s ∧ s.step (.writeSnapshot 1) = some s' ∧
      (s'.disk 1).page.lsn < (s.disk 1).page.lsn := by
  have found : (system.run smallPool staleFlush).any (fun s =>
      (s.step (.writeSnapshot 1)).any fun s' =>
        decide ((s'.disk 1).page.lsn < (s.disk 1).page.lsn)) = true := by decide +kernel
  obtain ⟨s, executed, found⟩ := (Option.any_eq_true _ _).mp found
  obtain ⟨s', written, back⟩ := (Option.any_eq_true _ _).mp found
  exact ⟨s, s', .run (.start smallPool_init) executed fun _ _ _ => trivial, written,
    of_decide_eq_true back⟩

end BufferPool

end SimpleRdbms.Storage
