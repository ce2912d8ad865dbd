import Mathlib.Data.List.Pairwise
import SimpleRdbms.Proof.PageOrder

namespace SimpleRdbms.Storage
open Function (update)

namespace BufferPool

abbrev pageLsn (s : BufferPool) (frameId : Nat) : Nat := (s.frames frameId).image.page.lsn

abbrev diskLsn (s : BufferPool) (pageId : Nat) : Nat := (s.disk pageId).page.lsn

def Settled (s : BufferPool) (lsn : Nat) : Prop :=
  lsn < s.log.nextLsn ∧ ∀ u ∈ s.pending, u.lsn ≠ lsn

structure Logged (s : BufferPool) : Prop where
  positive : 0 < s.log.nextLsn
  recordBound : ∀ r ∈ s.history, r.lsn < s.log.nextLsn
  recordPage : ∀ r ∈ s.history, ∀ change, r.kind.pageChange = some change → change.1 < s.nextPageId
  pendingBound : ∀ u ∈ s.pending, 0 < u.lsn ∧ u.lsn < s.log.nextLsn ∧ u.pageId < s.nextPageId
  pendingUnique : s.pending.Pairwise (·.lsn ≠ ·.lsn)
  latchUnique : ∀ u ∈ s.pending, ∀ u' ∈ s.pending, ∀ f, u.latch = some f → u'.latch = some f → u = u'
  latchGuard : ∀ u ∈ s.pending, ∀ f, u.latch = some f → (f, u.pageId) ∈ s.guards
  latchLsn : ∀ u ∈ s.pending, ∀ f, u.latch = some f → s.pageLsn f < u.lsn

structure Images (s : BufferPool) : Prop where
  diskId : ∀ p, (s.disk p).page.id = p
  frameId : ∀ f p, s.index.framePage f = some p → (s.frames f).image.page.id = p
  diskSettled : ∀ p, s.Settled (s.diskLsn p)
  frameSettled : ∀ f, s.Settled (s.pageLsn f)
  unallocated : ∀ p, s.nextPageId ≤ p → Image.Same (Image.new p) (s.disk p)
  creating : ∀ t p lsn, (s.tasks t).creates = some (p, lsn) → Image.Same (Image.new p) (s.disk p)
  loaded : ∀ t p f image, s.tasks t = .loaded p f image → Image.Same image (s.disk p)
  ahead : ∀ f p, s.index.framePage f = some p → Image.Behind (s.disk p) (s.frames f).image
  clean : ∀ f p, s.index.framePage f = some p → (s.frames f).dirtySinceLsn = 0 →
    s.pageLsn f = s.diskLsn p

structure Leased (s : BufferPool) (lease : Lease) : Prop where
  settled : ∀ image ∈ lease.snapshot, s.Settled image.page.lsn
  distinct : ∀ a ∈ lease.snapshot, ∀ b ∈ lease.snapshot, a.page.id = b.page.id → a = b
  ahead : ∀ image ∈ lease.snapshot, Image.Behind (s.disk image.page.id) image
  mapped : ∀ image ∈ lease.snapshot, ∀ f, s.index.framePage f = some image.page.id →
    Image.Behind image (s.frames f).image
  unmapped : ∀ image ∈ lease.snapshot, s.index.pageTable image.page.id = none →
    Image.Same image (s.disk image.page.id)
  written : lease.written = true → ∀ image ∈ lease.snapshot, Image.Same image (s.disk image.page.id)
  pairs : ∀ f image, (f, image) ∈ lease.pairs → ∀ p, s.index.framePage f = some p →
    s.pageLsn f = image.page.lsn → p = image.page.id ∨ s.pageLsn f = s.diskLsn p

structure Evictions (s : BufferPool) : Prop where
  flushing : ∀ t, s.inFlush t = true → s.tasks t = .idle ∨ ∃ c f v, s.tasks t = .examined c f v
  waiting : ∀ t c f v, s.tasks t = .examined c f v → s.flushList t = [] ∨
    (s.flushList t = [[(f, v)]] ∧ ∀ lease, s.lease = some lease → lease.thread ≠ t)
  leasing : ∀ t c f v lease, s.tasks t = .examined c f v → s.lease = some lease → lease.thread = t →
    ∃ image, lease.pairs = [(f, image)] ∧ image.page.lsn = s.pageLsn f
  flushed : ∀ t c f v, s.tasks t = .examined c f v → s.inFlush t = false →
    (s.frames f).dirtySinceLsn = 0

structure PoolInvariant (s : BufferPool) : Prop where
  residency : Residency s
  logged : Logged s
  images : Images s
  leased : ∀ lease, s.lease = some lease → Leased s lease
  evictions : Evictions s

variable {s s' : BufferPool} {t : Nat} {f : Nat} {p : Nat} {lsn : Nat} {txnId : Nat}
  {kind : LogRecordKind}

theorem latched_iff : s.latched f = true ↔ ∃ u ∈ s.pending, u.latch = some f := by
  simp [latched, List.any_eq_true]

theorem not_latched (free : s.latched f = false) {u : PendingChange} (pending : u ∈ s.pending) :
    u.latch ≠ some f := by
  intro latch
  simp [latched_iff.mpr ⟨u, pending, latch⟩] at free

namespace Logged

section
variable (logged : Logged s)
include logged

theorem of_eq (nextLsn : s'.log.nextLsn = s.log.nextLsn)
    (history : s'.history = s.history) (nextPageId : s'.nextPageId = s.nextPageId)
    (pending : s'.pending = s.pending) (guards : s.guards ⊆ s'.guards)
    (pageLsn : ∀ f, s'.pageLsn f = s.pageLsn f) : Logged s' where
  positive := by rw [nextLsn]; exact logged.positive
  recordBound := by rw [nextLsn, history]; exact logged.recordBound
  recordPage := by rw [nextPageId, history]; exact logged.recordPage
  pendingBound := by rw [nextLsn, nextPageId, pending]; exact logged.pendingBound
  pendingUnique := by rw [pending]; exact logged.pendingUnique
  latchUnique := by rw [pending]; exact logged.latchUnique
  latchGuard := by
    rw [pending]
    exact fun u member f latch => guards (logged.latchGuard u member f latch)
  latchLsn := by
    rw [pending]
    intro u member f latch
    rw [pageLsn]
    exact logged.latchLsn u member f latch

theorem append {pending : List PendingChange}
    (page : ∀ change, kind.pageChange = some change → change.1 < s.nextPageId)
    (added : pending = s.pending ∨ ∃ u, pending = u :: s.pending ∧ u.lsn = s.log.nextLsn ∧
      u.pageId < s.nextPageId ∧ ∀ f, u.latch = some f → (f, u.pageId) ∈ s.guards ∧
        s.latched f = false ∧ s.pageLsn f < s.log.nextLsn) :
    Logged { s.appendLog txnId kind with pending } where
  positive := Nat.add_pos_left logged.positive _
  recordBound := by
    intro r member
    have longer := kind.encodedLen_pos
    rcases List.mem_append.mp member with old | new
    · have := logged.recordBound r old
      simp only [appendLog, LogManager.append_nextLsn]
      omega
    · simp only [List.mem_singleton] at new
      subst new
      simp [appendLog, LogManager.nextRecord, longer]
  recordPage := by
    intro r member change changes
    rcases List.mem_append.mp member with old | new
    · exact logged.recordPage r old change changes
    · simp only [List.mem_singleton] at new
      subst new
      exact page change changes
  pendingBound := by
    have positive := logged.positive
    have longer := kind.encodedLen_pos
    have old : ∀ u ∈ s.pending, 0 < u.lsn ∧ u.lsn < s.log.nextLsn + kind.encodedLen ∧
        u.pageId < s.nextPageId := by
      intro u member
      have := logged.pendingBound u member
      omega
    rcases added with rfl | ⟨u, rfl, sequence, allocated, -⟩
    · exact old
    · intro u' member
      rcases List.mem_cons.mp member with rfl | earlier
      · simp only [appendLog, LogManager.append_nextLsn]
        omega
      · exact old u' earlier
  pendingUnique := by
    rcases added with rfl | ⟨u, rfl, sequence, -, -⟩
    · exact logged.pendingUnique
    · refine List.pairwise_cons.mpr ⟨?_, logged.pendingUnique⟩
      intro u' member
      have := logged.pendingBound u' member
      omega
  latchUnique := by
    rcases added with rfl | ⟨u, rfl, -, -, latch⟩
    · exact logged.latchUnique
    · have fresh : ∀ u' ∈ s.pending, ∀ f, u.latch = some f → u'.latch ≠ some f :=
        fun u' member f latched => not_latched (latch f latched).2.1 member
      have := logged.latchUnique
      grind
  latchGuard := by
    rcases added with rfl | ⟨u, rfl, -, -, latch⟩
    · exact logged.latchGuard
    · have := logged.latchGuard
      change ∀ u' ∈ u :: s.pending, ∀ f, u'.latch = some f → (f, u'.pageId) ∈ s.guards
      grind
  latchLsn := by
    rcases added with rfl | ⟨u, rfl, sequence, -, latch⟩
    · exact logged.latchLsn
    · have := logged.latchLsn
      change ∀ u' ∈ u :: s.pending, ∀ f, u'.latch = some f → s.pageLsn f < u'.lsn
      grind

theorem appendQuiet (quiet : kind.pageChange = none) : Logged (s.appendLog txnId kind) :=
  logged.append (fun _ changes => by simp [quiet] at changes) (Or.inl rfl)

theorem ne_of_mem_erase {u change : PendingChange}
    (erased : u ∈ s.pending.erase change) : u ≠ change := by
  have unique : s.pending.Nodup := logged.pendingUnique.imp (fun {a b} ne same => ne (congrArg _ same))
  exact (unique.mem_erase_iff.mp erased).1

theorem lsn_ne_of_mem_erase {u change : PendingChange} (member : change ∈ s.pending)
    (erased : u ∈ s.pending.erase change) : u.lsn ≠ change.lsn := by
  have symmetric : Std.Symm fun a b : PendingChange => a.lsn ≠ b.lsn := ⟨fun _ _ => Ne.symm⟩
  exact logged.pendingUnique.forall (List.mem_of_mem_erase erased) member (logged.ne_of_mem_erase erased)

theorem applyChange {change : PendingChange} (member : change ∈ s.pending)
    (latch : change.latch = some f ∨ s.latched f = false) : Logged (s.applyChange f change) := by
  have subset : ∀ u ∈ s.pending.erase change, u ∈ s.pending := fun u => List.mem_of_mem_erase
  refine ⟨logged.positive, logged.recordBound, logged.recordPage,
    fun u erased => logged.pendingBound u (subset u erased),
    logged.pendingUnique.sublist List.erase_sublist,
    fun u erased u' erased' => logged.latchUnique u (subset u erased) u' (subset u' erased'),
    fun u erased => logged.latchGuard u (subset u erased), ?_⟩
  intro u erased f' latched
  have elsewhere : f' ≠ f := by
    rintro rfl
    rcases latch with mine | free
    · exact logged.ne_of_mem_erase erased (logged.latchUnique u (subset u erased) change member f' latched mine)
    · exact not_latched free (subset u erased) latched
  have := logged.latchLsn u (subset u erased) f' latched
  simpa [pageLsn, BufferPool.applyChange, Function.update_of_ne elsewhere] using this

theorem of_unmoved {a : PoolAction} (unmoved : Unmoved a s s') : Logged s' :=
  logged.of_eq (congrArg _ unmoved.log) unmoved.history unmoved.nextPageId unmoved.pending unmoved.guards
    fun f => by rw [pageLsn, pageLsn, unmoved.frames]

theorem install {image : Image} {dirtySinceLsn : Nat} (residency : Residency s)
    (fills : (s.tasks t).fills = some f) (brings : (s.tasks t).brings = some p) :
    Logged (s.install f p image dirtySinceLsn) := by
  rw [residency.install_eq brings]
  refine { logged with latchGuard := ?_, latchLsn := ?_ }
  · exact fun u member f' latch => List.mem_cons_of_mem _ (logged.latchGuard u member f' latch)
  · intro u member f' latch
    have mapped := (residency.mapping.guarded f' _ (logged.latchGuard u member f' latch)).1
    have elsewhere : f' ≠ f := by
      rintro rfl
      simp [residency.duties.filler t f' fills] at mapped
    simpa [pageLsn, Function.update_of_ne elsewhere] using logged.latchLsn u member f' latch

theorem step_applies {a : PoolAction} (allowed : Disciplined s a) (action : s.step a = some s')
    (applies : a.applies = true) : ∃ change ∈ s.pending, ∃ frameId, (frameId, change.pageId) ∈ s.guards ∧
      s.pageLsn frameId < change.lsn ∧ s' = s.applyChange frameId change := by
  cases a with
  | applyUpdate =>
    obtain ⟨change, member, frameId, -, latch, same⟩ := applyUpdate_cases action
    exact ⟨change, member, frameId, logged.latchGuard change member frameId latch,
      logged.latchLsn change member frameId latch, same⟩
  | stampWrite =>
    obtain ⟨change, member, rfl, -, guarded, -, same⟩ := stampWrite_cases action
    exact ⟨change, member, _, guarded, allowed, same⟩
  | _ => cases applies

end

theorem step {a : PoolAction} (inv : PoolInvariant s) (action : s.step a = some s') : Logged s' := by
  have logged := inv.logged
  cases a with
  | fetchFrame | popFreeFrame | chooseVictim | frameTimeout | examineVictim | abortEviction | readPage | finishFetch
  | setEvictable | flushPage | flushAll | activeSnapshot | dirtyPageTable =>
    exact logged.of_unmoved (step_unmoved action rfl)
  | beginTxn | endTxn | checkpointBegin | checkpointEnd =>
    obtain ⟨txnId, kind, quiet, unmoved⟩ := step_recorded action rfl
    exact (logged.appendQuiet quiet).of_unmoved unmoved
  | completeEviction =>
    obtain ⟨caller, frameId, v, -, -, rfl⟩ := completeEviction_cases action
    exact logged.of_eq rfl rfl rfl rfl (List.Subset.refl _) fun _ => rfl
  | tryInstall t =>
    obtain ⟨pageId, frameId, image, task, rfl⟩ | ⟨pageId, lsn, frameId, task, rfl⟩ :=
      tryInstall_cases action
    · have installed := @logged.install s t frameId pageId image 0 inv.residency (by rw [task]; rfl) (by rw [task]; rfl)
      exact installed.of_eq rfl rfl rfl rfl (List.Subset.refl _) fun _ => rfl
    · have installed := @logged.install s t frameId pageId (Image.new pageId) lsn inv.residency (by rw [task]; rfl)
        (by rw [task]; rfl)
      exact installed.of_eq rfl rfl rfl rfl (List.Subset.refl _) fun _ => rfl
  | newPage =>
    obtain ⟨-, -, rfl⟩ := newPage_cases action
    have grown : Logged { s with nextPageId := s.nextPageId + 1 } :=
      { logged with
        recordPage := fun r member change changes =>
          Nat.lt_succ_of_lt (logged.recordPage r member change changes)
        pendingBound := fun u member =>
          have ⟨first, second, third⟩ := logged.pendingBound u member
          ⟨first, second, Nat.lt_succ_of_lt third⟩ }
    exact (grown.appendQuiet rfl).of_eq rfl rfl rfl rfl (List.Subset.refl _) fun _ => rfl
  | unpinFrame f p =>
    obtain ⟨-, free, unpinning, rfl⟩ := unpinFrame_cases action
    refine { logged with latchGuard := ?_ }
    intro u member f' latch
    have elsewhere : (f', u.pageId) ≠ (f, p) := by
      intro equal
      exact not_latched free member ((Prod.mk.inj equal).1 ▸ latch)
    exact (List.mem_erase_of_ne elsewhere).mpr (logged.latchGuard u member f' latch)
  | beginFlush =>
    obtain ⟨batch, rest, -, -, -, rfl⟩ := beginFlush_cases action
    exact logged.of_eq rfl rfl rfl rfl (List.Subset.refl _) fun _ => rfl
  | writeSnapshot =>
    obtain ⟨lease, -, -, -, rfl⟩ := writeSnapshot_cases action
    exact logged.of_eq (LogManager.flush_nextLsn _ _) rfl rfl rfl (List.Subset.refl _) fun _ => rfl
  | clearDirty =>
    obtain ⟨lease, -, -, -, rfl⟩ := clearDirty_cases action
    refine logged.of_eq rfl rfl rfl rfl (List.Subset.refl _) fun f => ?_
    simp [pageLsn, clearMarks_image]
  | appendUpdate txnId f p =>
    obtain ⟨guarded, free, before, rfl⟩ := appendUpdate_cases action
    have mapped := (inv.residency.mapping.guarded f p guarded).1
    have allocated := inv.residency.mapping.allocated f p mapped
    refine logged.append ?_ (Or.inr ⟨_, rfl, rfl, allocated, ?_⟩)
    · rintro change ⟨⟩
      exact allocated
    · rintro f' ⟨⟩
      exact ⟨guarded, free, (inv.images.frameSettled f).1⟩
  | appendClr =>
    obtain ⟨record, member, pageId, offset, before, after, isUpdate, rfl⟩ := appendClr_cases action
    have allocated : pageId < s.nextPageId :=
      logged.recordPage record member (pageId, offset, after) (by rw [isUpdate]; rfl)
    refine logged.append ?_ (Or.inr ⟨_, rfl, rfl, allocated, ?_⟩)
    · rintro change ⟨⟩
      exact allocated
    · rintro f' ⟨⟩
  | applyUpdate =>
    obtain ⟨change, member, frameId, -, latch, rfl⟩ := applyUpdate_cases action
    exact logged.applyChange member (Or.inl latch)
  | stampWrite =>
    obtain ⟨change, member, -, -, -, free, rfl⟩ := stampWrite_cases action
    exact logged.applyChange member (Or.inr free)

end Logged

end BufferPool

end SimpleRdbms.Storage
