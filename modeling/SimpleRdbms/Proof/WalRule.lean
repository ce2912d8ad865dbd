import SimpleRdbms.Proof.FrameAccounts
import SimpleRdbms.Proof.LogLayout
import SimpleRdbms.Storage.PageFlush

namespace SimpleRdbms.Storage
open Function (update)

namespace BufferPool
variable {s s' : BufferPool} {a : PoolAction} {known : Nat → Prop} {t : Nat}

structure Stamped (known : Nat → Prop) (s : BufferPool) : Prop where
  frames : ∀ f, known (s.frames f).image.page.lsn
  disk : ∀ p, known (s.disk p).page.lsn
  loaded : ∀ t p f image, s.tasks t = .loaded p f image → known image.page.lsn
  pending : ∀ u ∈ s.pending, known u.lsn

namespace Stamped

section
variable (stamped : Stamped known s)
include stamped

theorem of_eq (frames : s'.frames = s.frames) (disk : s'.disk = s.disk)
    (tasks : s'.tasks = s.tasks) (pending : s'.pending = s.pending) : Stamped known s' where
  frames := by rw [frames]; exact stamped.frames
  disk := by rw [disk]; exact stamped.disk
  loaded := by rw [tasks]; exact stamped.loaded
  pending := by rw [pending]; exact stamped.pending

theorem of_unmoved (unmoved : Unmoved a s s') : Stamped known s' where
  frames := by rw [unmoved.frames]; exact stamped.frames
  disk := by rw [unmoved.disk]; exact stamped.disk
  loaded := fun t p f image isLoaded => by
    rcases unmoved.loaded t p f image isLoaded with before | rfl
    · exact stamped.loaded t p f image before
    · exact stamped.disk p
  pending := by rw [unmoved.pending]; exact stamped.pending

theorem mono {more : Nat → Prop} (implies : ∀ lsn, known lsn → more lsn) :
    Stamped more s where
  frames := fun f => implies _ (stamped.frames f)
  disk := fun p => implies _ (stamped.disk p)
  loaded := fun t p f image task => implies _ (stamped.loaded t p f image task)
  pending := fun u member => implies _ (stamped.pending u member)

theorem retask {task : Task}
    (loaded : ∀ p f image, task = .loaded p f image → known image.page.lsn) : Stamped known (s.setTask t task) :=
  { stamped with
    loaded := by
      intro t' p f image isLoaded
      by_cases mine : t' = t
      · subst mine
        exact loaded p f image (by simpa [setTask] using isLoaded)
      · exact stamped.loaded t' p f image (by simpa [setTask, mine] using isLoaded) }

theorem install {f p dirtySinceLsn : Nat} {image : Image}
    (image_known : known image.page.lsn) : Stamped known (s.install f p image dirtySinceLsn) := by
  unfold BufferPool.install
  split
  · exact stamped.of_eq rfl rfl rfl rfl
  · refine { stamped with frames := fun f' => ?_ }
    by_cases mine : f' = f
    · simpa [pinLocked, mine] using image_known
    · simpa [pinLocked, mine] using stamped.frames f'

theorem applyChange {change : PendingChange} {f : Nat} (member : change ∈ s.pending) :
    Stamped known (s.applyChange f change) :=
  { stamped with
    frames := by
      intro f'
      by_cases mine : f' = f
      · simpa [BufferPool.applyChange, mine, Frame.change, Image.change] using stamped.pending change member
      · simpa [BufferPool.applyChange, mine] using stamped.frames f'
    pending := fun u kept => stamped.pending u (List.mem_of_mem_erase kept) }

end

end Stamped

structure Advances (known : Nat → Prop) (s s' : BufferPool) : Prop where
  log : s'.log = s.log ∧ s'.history = s.history ∨
    ∃ txnId kind, s'.log = s.log.append txnId kind ∧ s'.history = s.history ++ [s.log.nextRecord txnId kind]
  lease : s'.lease = s.lease
  stamped : (∀ record ∈ s'.history, known record.lsn) → Stamped known s'

theorem Advances.quiet (log : s'.log = s.log) (history : s'.history = s.history) (lease : s'.lease = s.lease)
    (stamped : Stamped known s') : Advances known s s' :=
  ⟨.inl ⟨log, history⟩, lease, fun _ => stamped⟩

theorem Advances.append {txnId : Nat} {kind : LogRecordKind} (log : s'.log = s.log.append txnId kind)
    (history : s'.history = s.history ++ [s.log.nextRecord txnId kind]) (lease : s'.lease = s.lease)
    (stamped : known s.log.nextLsn → Stamped known s') : Advances known s s' := by
  refine ⟨.inr ⟨txnId, kind, log, history⟩, lease, fun grown => stamped ?_⟩
  exact grown (s.log.nextRecord txnId kind) (by simp [history])

theorem step_advances (stamped : Stamped known s) (zero : known 0) (action : s.step a = some s')
    (other : FlushingPool.isFlushStep a = false) : Advances known s s' := by
  cases a with
  | beginFlush | writeSnapshot | clearDirty => simp [FlushingPool.isFlushStep] at other
  | fetchFrame | popFreeFrame | chooseVictim | frameTimeout | examineVictim | abortEviction | readPage | finishFetch
  | setEvictable | flushPage | flushAll | activeSnapshot | dirtyPageTable =>
    have unmoved := step_unmoved action rfl
    exact .quiet unmoved.log unmoved.history unmoved.lease (stamped.of_unmoved unmoved)
  | beginTxn | endTxn | checkpointBegin | checkpointEnd =>
    obtain ⟨txnId, kind, -, unmoved⟩ := step_recorded action rfl
    have appended : Stamped known (s.appendLog txnId kind) := stamped.of_eq rfl rfl rfl rfl
    exact .append unmoved.log unmoved.history unmoved.lease fun _ => appended.of_unmoved unmoved
  | completeEviction =>
    obtain ⟨caller, frameId, v, -, -, rfl⟩ := completeEviction_cases action
    exact .quiet rfl rfl rfl ((stamped.retask (by simp)).of_eq rfl rfl rfl rfl)
  | tryInstall =>
    obtain ⟨pageId, frameId, image, task, rfl⟩ | ⟨pageId, lsn, frameId, task, rfl⟩ := tryInstall_cases action
    all_goals obtain ⟨frames, index, guards, _, -, same⟩ := tryInstall_frame action
    · refine .quiet ?_ ?_ ?_ ((stamped.install (stamped.loaded _ _ _ _ task)).retask (by simp)) <;> rw [same] <;> rfl
    · refine .quiet ?_ ?_ ?_ ((stamped.install zero).retask (by simp)) <;> rw [same] <;> rfl
  | newPage =>
    obtain ⟨-, -, rfl⟩ := newPage_cases action
    exact .append rfl rfl rfl fun _ => (stamped.retask (by simp)).of_eq rfl rfl rfl rfl
  | unpinFrame =>
    obtain ⟨-, -, unpinning, rfl⟩ := unpinFrame_cases action
    exact .quiet rfl rfl rfl (stamped.of_eq rfl rfl rfl rfl)
  | appendUpdate | appendClr =>
    obtain ⟨txnId, kind, change, new, -, rfl⟩ := step_appends action rfl
    exact .append rfl rfl rfl fun next =>
      { stamped with pending := List.forall_mem_cons.mpr ⟨new ▸ next, stamped.pending⟩ }
  | applyUpdate | stampWrite =>
    obtain ⟨change, member, frameId, rfl⟩ := step_applies action rfl
    exact .quiet rfl rfl rfl (stamped.applyChange member)

theorem le_foldl_max {values : List Nat} {start value : Nat} (found : value ≤ start ∨ value ∈ values) :
    value ≤ values.foldl max start := by
  induction values generalizing start with
  | nil => simpa using found
  | cons head rest ih =>
    refine ih ?_
    rcases found with low | member
    · exact .inl (Nat.le_trans low (Nat.le_max_left _ _))
    · rcases List.mem_cons.mp member with rfl | later
      · exact .inl (Nat.le_max_right _ _)
      · exact .inr later

theorem le_maxPageLsn {snapshot : List Image} {image : Image} (member : image ∈ snapshot) :
    image.page.lsn ≤ maxPageLsn snapshot :=
  le_foldl_max (.inr (List.mem_map_of_mem member))

end BufferPool

namespace LogManager.Holds
variable {log : LogManager} {history gone : List LoggedRecord}

theorem flushLocked (holds : Holds log history gone) : Holds log.flushLocked history gone := by
  unfold LogManager.flushLocked
  dsimp only
  split
  · exact holds.persist.rollSegment rfl
  · exact holds.persist

theorem flushLocked_durable (log : LogManager) : log.flushLocked.durableLsn = log.nextLsn := by
  unfold LogManager.flushLocked
  dsimp only
  split <;> rfl

theorem mem_deviceRecords {kept : List LoggedRecord} (holds : Holds log (gone ++ kept) gone)
    {record : LoggedRecord} (member : record ∈ kept) (durable : record.lsn < log.durableLsn) :
    record ∈ log.deviceRecords := by
  have kept_eq : kept = log.deviceRecords ++ log.buffer := List.append_cancel_left holds.history_eq
  rw [kept_eq] at member
  rcases List.mem_append.mp member with onDevice | buffered
  · exact onDevice
  · have := (holds.buffered.bounds buffered).1
    omega

end LogManager.Holds

namespace FlushingPool
open BufferPool
variable {s s' : FlushingPool} {a : Action} {lsn : Nat}

def Known (s : FlushingPool) (lsn : Nat) : Prop := lsn = 0 ∨ ∃ record ∈ s.records, record.lsn = lsn

def isForced : FlushStage → Bool
  | .copying | .forcing => false
  | .forced | .writing _ | .clearing _ => true

structure WalInvariant (s : FlushingPool) : Prop where
  holds : LogManager.Holds s.inner.log s.records s.truncated
  stamped : Stamped s.Known s.inner
  copied : ∀ lease, s.inner.lease = some lease → ∀ image ∈ lease.snapshot, s.Known image.page.lsn
  durable : isForced s.stage = true → ∀ lease, s.inner.lease = some lease → ∀ image ∈ lease.snapshot,
    image.page.lsn < s.inner.log.durableLsn

theorem WalInvariant.known_lt (inv : WalInvariant s) (known : s.Known lsn) : lsn < s.inner.log.nextLsn := by
  rcases known with rfl | ⟨record, member, rfl⟩
  · exact Nat.lt_of_lt_of_le (by decide) inv.holds.whole.le
  · exact inv.holds.lsn_lt member

theorem Known.mono (known : s.Known lsn) (records : ∀ record ∈ s.records, record ∈ s'.records) : s'.Known lsn :=
  known.imp_right fun ⟨record, member, same⟩ => ⟨record, records record member, same⟩

theorem WalInvariant.of_records (_inv : WalInvariant s) (records : s'.records = s.records)
    (truncated : s'.truncated = s.truncated)
    (holds : LogManager.Holds s'.inner.log s.records s.truncated)
    (stamped : Stamped s.Known s'.inner)
    (copied : ∀ lease, s'.inner.lease = some lease → ∀ image ∈ lease.snapshot, s.Known image.page.lsn)
    (durable : isForced s'.stage = true → ∀ lease, s'.inner.lease = some lease → ∀ image ∈ lease.snapshot,
      image.page.lsn < s'.inner.log.durableLsn) : WalInvariant s' := by
  have known : s'.Known = s.Known := by
    funext lsn
    rw [Known, Known, records]
  refine ⟨?_, ?_, ?_, durable⟩
  · rw [records, truncated]
    exact holds
  · rw [known]
    exact stamped
  · rw [known]
    exact copied

section
variable (inv : WalInvariant s)
include inv

theorem WalInvariant.advance {pool : BufferPool} {poisoned : Bool} {aborting : Nat → Bool}
    (advances : ∀ known : Nat → Prop, Stamped known s.inner → known 0 → Advances known s.inner pool) :
    WalInvariant { s with faulty := { pool, flushPoisoned := poisoned, aborting } } := by
  have grown : ∀ record ∈ s.records,
      record ∈ records { s with faulty := { pool, flushPoisoned := poisoned, aborting } } := by
    rcases (advances _ inv.stamped (.inl rfl)).log with ⟨-, history⟩ | ⟨txnId, kind, -, history⟩
    · simp [records, inner, history]
    · intro record member
      simp only [records, inner, history, List.append_assoc] at member ⊢
      simp only [List.mem_append] at member ⊢
      tauto
  have known : ∀ lsn, s.Known lsn →
      Known { s with faulty := { pool, flushPoisoned := poisoned, aborting } } lsn :=
    fun lsn isKnown => isKnown.mono grown
  obtain ⟨log, lease, stamped⟩ := advances _ (inv.stamped.mono known) (.inl rfl)
  refine ⟨?_, ?_, ?_, ?_⟩
  · rcases log with ⟨log, history⟩ | ⟨txnId, kind, log, history⟩
    · simp only [inner, records, log, history]
      exact inv.holds
    · have appended := inv.holds.append txnId kind
      simp only [inner, records, log, history]
      rwa [← List.append_assoc]
  · exact stamped fun record member => .inr ⟨record, List.mem_append_right _ member, rfl⟩
  · intro held isHeld image member
    exact known _ (inv.copied held (lease ▸ isHeld) image member)
  · intro forced held isHeld image member
    have before := inv.durable forced held (lease ▸ isHeld) image member
    have same : pool.log.durableLsn = s.inner.log.durableLsn := by
      rcases log with ⟨log, -⟩ | ⟨txnId, kind, log, -⟩
      · rw [log]
      · rw [log]
        rfl
    exact same ▸ before

theorem WalInvariant.takeLease {t : Nat} (stepped : s.takeLease t = some s') :
    WalInvariant s' := by
  unfold FlushingPool.takeLease at stepped
  split at stepped
  · split at stepped
    · simp at stepped
    · obtain rfl := Option.some.inj stepped
      refine inv.of_records rfl rfl inv.holds (inv.stamped.of_eq rfl rfl rfl rfl) ?_ (by simp [isForced])
      rintro _ ⟨⟩
      simp
  · simp at stepped

theorem WalInvariant.copyFrame (stepped : s.copyFrame = some s') : WalInvariant s' := by
  unfold FlushingPool.copyFrame at stepped
  split at stepped
  · rename_i lease held stage
    split at stepped
    · rename_i frameId _ _
      split at stepped
      · simp at stepped
      · obtain rfl := Option.some.inj stepped
        refine inv.of_records rfl rfl inv.holds (inv.stamped.of_eq rfl rfl rfl rfl) ?_
          (by simp [setPool, stage, isForced])
        rintro _ ⟨⟩ image member
        rcases List.mem_append.mp member with old | new
        · exact inv.copied lease held image old
        · obtain rfl := List.mem_singleton.mp new
          exact inv.stamped.frames frameId
    · simp at stepped
  · simp at stepped

theorem WalInvariant.readDurableLsn (stepped : s.readDurableLsn = some s') :
    WalInvariant s' := by
  unfold FlushingPool.readDurableLsn at stepped
  split at stepped
  · rename_i lease held stage
    split at stepped
    · simp at stepped
    · split at stepped
      · rename_i durable
        obtain rfl := Option.some.inj stepped
        refine inv.of_records rfl rfl inv.holds inv.stamped inv.copied fun _ lease' held' image member => ?_
        obtain rfl := Option.some.inj (held.symm.trans held')
        exact Nat.lt_of_le_of_lt (le_maxPageLsn member) durable
      · obtain rfl := Option.some.inj stepped
        exact inv.of_records rfl rfl inv.holds inv.stamped inv.copied (by simp [isForced])
  · simp at stepped

theorem WalInvariant.flushed (stage : FlushStage) :
    WalInvariant { s.setPool { s.inner with log := s.inner.log.flushLocked } with stage } := by
  refine inv.of_records rfl rfl inv.holds.flushLocked (inv.stamped.of_eq rfl rfl rfl rfl) inv.copied ?_
  intro _ lease held image member
  have bound := inv.known_lt (inv.copied lease held image member)
  have durable := LogManager.Holds.flushLocked_durable s.inner.log
  exact durable.symm ▸ bound

theorem WalInvariant.writePage (stepped : s.writePage = some s') : WalInvariant s' := by
  unfold FlushingPool.writePage at stepped
  split at stepped
  · rename_i lease written held stage
    obtain ⟨image, located, rfl⟩ := Option.map_eq_some_iff.mp stepped
    have member := List.mem_of_getElem? located
    refine inv.of_records rfl rfl inv.holds { inv.stamped with disk := fun p => ?_ } inv.copied
      fun _ => inv.durable (by simp [stage, isForced])
    change s.Known (update s.inner.disk image.page.id image.stamped p).page.lsn
    by_cases mine : p = image.page.id
    · simpa [mine, Image.stamped, stampChecksum] using inv.copied lease held image member
    · simpa [mine] using inv.stamped.disk p
  · simp at stepped

theorem WalInvariant.clearMark (stepped : s.clearMark = some s') : WalInvariant s' := by
  unfold FlushingPool.clearMark at stepped
  split at stepped
  · rename_i lease cleared held stage
    split at stepped
    · rename_i entry _
      split at stepped
      · simp at stepped
      · obtain rfl := Option.some.inj stepped
        refine inv.of_records rfl rfl inv.holds { inv.stamped with frames := fun f => ?_ } inv.copied
          fun _ => inv.durable (by simp [stage, isForced])
        change s.Known (BufferPool.clearMark s.inner.frames entry f).image.page.lsn
        rw [clearMark_image]
        exact inv.stamped.frames f
    · simp at stepped
  · simp at stepped

theorem WalInvariant.dropLease {flushList : Nat → List (List (Nat × Nat))} {poisoned : Bool}
    {aborting : Nat → Bool} :
    WalInvariant { s with
      faulty := { pool := { s.inner with lease := none, flushList }, flushPoisoned := poisoned, aborting } } :=
  inv.of_records rfl rfl inv.holds (inv.stamped.of_eq rfl rfl rfl rfl) (by simp) (by simp)

end

theorem flushError_eq (faulty : FaultyPool) (t : Nat) : ∃ flushList aborting, faulty.flushError t =
    { faulty with pool := { faulty.pool with flushList }, aborting } := by
  unfold FaultyPool.flushError
  split
  · exact ⟨_, _, rfl⟩
  · exact ⟨_, _, rfl⟩

theorem readFails_advances {faulty : FaultyPool} {pool : BufferPool} {known : Nat → Prop} {t : Nat}
    (steps : FaultyPool.Steps faulty (.readFails t) pool) (stamped : Stamped known faulty.pool) :
    Advances known faulty.pool pool := by
  cases steps with
  | readFails _ => exact .quiet rfl rfl rfl ((stamped.retask (by simp)).of_eq rfl rfl rfl rfl)

theorem flushRefused_advances {faulty : FaultyPool} {pool : BufferPool} {known : Nat → Prop} {t : Nat}
    (steps : FaultyPool.Steps faulty (.flushRefused t) pool) (stamped : Stamped known faulty.pool) :
    Advances known faulty.pool pool := by
  cases steps with
  | flushRefused _ _ =>
    obtain ⟨flushList, aborting, same⟩ := flushError_eq faulty t
    rw [same]
    exact .quiet rfl rfl rfl (stamped.of_eq rfl rfl rfl rfl)

theorem WalInvariant.flushFails (inv : WalInvariant s) (stepped : s.flushFails = some s') : WalInvariant s' := by
  unfold FlushingPool.flushFails at stepped
  split at stepped
  · rename_i lease _ _
    obtain rfl := Option.some.inj stepped
    obtain ⟨flushList, aborting, same⟩ :=
      flushError_eq { s.faulty with pool := { s.inner with lease := none } } lease.thread
    rw [same]
    exact inv.dropLease
  · rename_i lease _ _ _
    obtain rfl := Option.some.inj stepped
    obtain ⟨flushList, aborting, same⟩ := flushError_eq
      { s.faulty with pool := { s.inner with lease := none }, flushPoisoned := true } lease.thread
    rw [same]
    exact inv.dropLease
  · simp at stepped

theorem WalInvariant.step (inv : WalInvariant s) (stepped : s.step a = some s') : WalInvariant s' := by
  cases a with
  | pool action =>
    simp only [FlushingPool.step] at stepped
    split at stepped
    · simp at stepped
    · rename_i other
      obtain ⟨faulty, proceeded, rfl⟩ := Option.map_eq_some_iff.mp stepped
      have steps : FaultyPool.Steps s.faulty (.proceed action) faulty.pool := FaultyPool.step_steps proceeded
      cases steps with
      | proceed ran =>
        exact inv.advance fun known stamped zero => step_advances stamped zero ran (by simpa using other)
  | readFails t =>
    obtain ⟨faulty, failed, rfl⟩ := Option.map_eq_some_iff.mp stepped
    have steps : FaultyPool.Steps s.faulty (.readFails t) faulty.pool := FaultyPool.step_steps failed
    exact inv.advance fun known stamped _ => readFails_advances steps stamped
  | flushRefused t =>
    obtain ⟨faulty, refused, rfl⟩ := Option.map_eq_some_iff.mp stepped
    have steps : FaultyPool.Steps s.faulty (.flushRefused t) faulty.pool := FaultyPool.step_steps refused
    exact inv.advance fun known stamped _ => flushRefused_advances steps stamped
  | flushLog =>
    obtain rfl := Option.some.inj stepped
    exact inv.flushed s.stage
  | takeLease t => exact inv.takeLease stepped
  | copyFrame => exact inv.copyFrame stepped
  | readDurableLsn => exact inv.readDurableLsn stepped
  | flushLocked =>
    simp only [FlushingPool.step, FlushingPool.flushLocked] at stepped
    split at stepped
    · obtain rfl := Option.some.inj stepped
      exact inv.flushed .forced
    · simp at stepped
  | writeBatch =>
    simp only [FlushingPool.step, FlushingPool.writeBatch] at stepped
    split at stepped
    · rename_i stage
      obtain rfl := Option.some.inj stepped
      exact inv.of_records rfl rfl inv.holds inv.stamped inv.copied fun _ => inv.durable (by simp [stage, isForced])
    · simp at stepped
  | writePage => exact inv.writePage stepped
  | finishWrite =>
    simp only [FlushingPool.step, FlushingPool.finishWrite] at stepped
    split at stepped
    · rename_i stage
      split at stepped
      · simp at stepped
      · obtain rfl := Option.some.inj stepped
        exact inv.of_records rfl rfl inv.holds inv.stamped inv.copied fun _ => inv.durable (by simp [stage, isForced])
    · simp at stepped
  | clearMark => exact inv.clearMark stepped
  | releaseLease =>
    simp only [FlushingPool.step, FlushingPool.releaseLease] at stepped
    split at stepped
    · split at stepped
      · simp at stepped
      · obtain rfl := Option.some.inj stepped
        exact inv.dropLease
    · simp at stepped
  | flushFails => exact inv.flushFails stepped

/-- The log is synced, and every page LSN on disk is zero or that of a record the log has or had. -/
def system : Lib.System FlushingPool Action where
  init := fun s =>
    ∃ poolSize dwbCapacity pages lsns log,
      s.faulty = { pool := start poolSize dwbCapacity pages lsns log, flushPoisoned := false, aborting := fun _ =>
        false } ∧ LogManager.Holds log (s.truncated ++ s.archive) s.truncated ∧ log.buffer = [] ∧
        ∀ pageId, lsns pageId = 0 ∨ ∃ record ∈ s.truncated ++ s.archive, record.lsn = lsns pageId
  step := step

theorem WalInvariant.init (initial : system.init s) : WalInvariant s := by
  obtain ⟨poolSize, dwbCapacity, pages, lsns, log, faulty, holds, -, older⟩ := initial
  have records_eq : s.records = s.truncated ++ s.archive := by simp [records, inner, faulty, start]
  have known : ∀ pageId, s.Known (lsns pageId) := by
    intro pageId
    rw [Known, records_eq]
    exact older pageId
  refine ⟨?_, ⟨?_, ?_, ?_, ?_⟩, ?_, ?_⟩
  · rw [records_eq, inner, faulty]
    exact holds
  · rw [inner, faulty]
    exact fun f => .inl rfl
  · intro p
    rw [inner, faulty]
    simp only [start]
    split
    · exact known p
    · exact .inl rfl
  · simp [inner, faulty, start]
  · simp [inner, faulty, start]
  · simp [inner, faulty, start]
  · simp [inner, faulty, start]

theorem written_forced {image : Image} (member : image ∈ s.written a) :
    ∃ lease, s.inner.lease = some lease ∧ image ∈ lease.snapshot ∧ isForced s.stage = true := by
  unfold written at member
  split at member
  · rename_i lease held stage
    exact ⟨lease, held, member, by simp [stage, isForced]⟩
  · rename_i lease held stage
    exact ⟨lease, held, member, by simp [stage, isForced]⟩
  · rename_i lease written held stage
    exact ⟨lease, held, List.mem_of_getElem? (by simpa using member), by simp [stage, isForced]⟩
  · rename_i lease written held stage
    exact ⟨lease, held, List.mem_of_getElem? (by simpa using member), by simp [stage, isForced]⟩
  · simp at member

theorem flushError_disk (faulty : FaultyPool) (t : Nat) : (faulty.flushError t).pool.disk = faulty.pool.disk := by
  obtain ⟨flushList, aborting, same⟩ := flushError_eq faulty t
  rw [same]

theorem steps_disk {faulty : FaultyPool} {action : FaultyPool.Action} {pool : BufferPool}
    (steps : FaultyPool.Steps faulty action pool) (proceeds : ∀ t, action ≠ .proceed (.writeSnapshot t))
    (flushes : ∀ t failure, action ≠ .flushFails t failure) : pool.disk = faulty.pool.disk := by
  cases steps with
  | proceed ran => exact step_disk ran fun t writes => proceeds t (writes ▸ rfl)
  | readFails | appendFails => rfl
  | flushRefused => exact flushError_disk _ _
  | flushFails => exact absurd rfl (flushes _ _)

/-- A step leaves the data file alone or puts one image of `written` into it. -/
theorem step_disk_written (stepped : s.step a = some s') : s'.inner.disk = s.inner.disk ∨
      ∃ image ∈ s.written a, s'.inner.disk = update s.inner.disk image.page.id image.stamped := by
  cases a with
  | pool action =>
    simp only [FlushingPool.step] at stepped
    split at stepped
    · simp at stepped
    · rename_i other
      obtain ⟨faulty, proceeded, rfl⟩ := Option.map_eq_some_iff.mp stepped
      refine .inl (steps_disk (FaultyPool.step_steps (a := .proceed action) proceeded) (fun t writes => ?_) (by simp))
      rw [FaultyPool.Action.proceed.injEq] at writes
      simp [writes, isFlushStep] at other
  | readFails t =>
    obtain ⟨faulty, failed, rfl⟩ := Option.map_eq_some_iff.mp stepped
    exact .inl (steps_disk (FaultyPool.step_steps (a := .readFails t) failed) (by simp) (by simp))
  | flushRefused t =>
    obtain ⟨faulty, refused, rfl⟩ := Option.map_eq_some_iff.mp stepped
    exact .inl (steps_disk (FaultyPool.step_steps (a := .flushRefused t) refused) (by simp) (by simp))
  | writePage =>
    simp only [FlushingPool.step, FlushingPool.writePage] at stepped
    split at stepped
    · rename_i lease written held stage
      obtain ⟨image, found, rfl⟩ := Option.map_eq_some_iff.mp stepped
      exact .inr ⟨image, by simp [FlushingPool.written, held, stage, found], rfl⟩
    · simp at stepped
  | flushFails =>
    simp only [FlushingPool.step, FlushingPool.flushFails] at stepped
    split at stepped <;> simp only [reduceCtorEq, Option.some.injEq] at stepped
    all_goals
      subst stepped
      exact .inl (flushError_disk _ _)
  | flushLog =>
    obtain rfl := Option.some.inj stepped
    exact .inl rfl
  | takeLease | copyFrame | readDurableLsn | flushLocked | writeBatch | finishWrite | clearMark | releaseLease =>
    simp only [FlushingPool.step, FlushingPool.takeLease, FlushingPool.copyFrame, FlushingPool.readDurableLsn,
      FlushingPool.flushLocked, FlushingPool.writeBatch, FlushingPool.finishWrite, FlushingPool.clearMark,
      FlushingPool.releaseLease] at stepped
    repeat' split at stepped
    all_goals cases stepped
    all_goals exact .inl rfl

theorem writeBatch_written (stepped : s.writeBatch = some s') :
    ∃ lease, s.inner.lease = some lease ∧ s.written .writeBatch = lease.snapshot := by
  unfold FlushingPool.writeBatch at stepped
  split at stepped
  · rename_i lease held stage
    exact ⟨lease, held, by simp [FlushingPool.written, held, stage]⟩
  · simp at stepped

/-- When an image is written, the record its page LSN names and every earlier one are on a synced device. -/
theorem log_before_page (reached : system.Reachable s) :
    ∀ action s', s.step action = some s' → ∀ image ∈ s.written action,
      (image.page.lsn = 0 ∨ ∃ record ∈ s.records, record.lsn = image.page.lsn) ∧
        ∀ record ∈ s.archive ++ s.inner.history, record.lsn ≤ image.page.lsn → record ∈ s.inner.log.deviceRecords := by
  have inv : WalInvariant s :=
    reached.invariant (P := WalInvariant) (fun _ => WalInvariant.init) fun _ _ _ inv _ stepped => inv.step stepped
  intro action s' _ image member
  obtain ⟨lease, held, copied, forced⟩ := written_forced member
  have durable := inv.durable forced lease held image copied
  refine ⟨inv.copied lease held image copied, fun record kept earlier => ?_⟩
  have holds := inv.holds
  rw [records, List.append_assoc] at holds
  exact holds.mem_deviceRecords kept (Nat.lt_of_le_of_lt earlier durable)

def smallFlushingPool : FlushingPool :=
  { faulty := FaultyPool.smallFaultyPool, stage := .copying, truncated := [], archive := [] }

theorem smallFlushingPool_init : system.init smallFlushingPool :=
  ⟨2, 8, _, _, _, rfl, LogManager.Holds.create 4096, rfl, fun _ => .inl rfl⟩

def flushChange : List Action :=
  (load 0 1).map .pool ++ [.pool (.appendUpdate 7 1 1 100 [1]), .pool (.applyUpdate 16), .pool (.flushPage 0 1),
    .takeLease 0, .copyFrame, .readDurableLsn, .flushLocked]

theorem log_before_page_changed :
    ∃ s, system.Reachable s ∧ ∃ image ∈ s.written .writeBatch, image.page.lsn = 16 ∧
      ∃ record ∈ s.inner.log.deviceRecords, record.lsn = 16 := by
  have found : (system.run smallFlushingPool flushChange).any (fun s =>
      (s.step .writeBatch).isSome && (s.written .writeBatch).any (fun image => image.page.lsn == 16) &&
        s.inner.history.any fun record => record.lsn == 16) = true := by decide +kernel
  obtain ⟨s, executed, found⟩ := (Option.any_eq_true _ _).mp found
  simp only [Bool.and_eq_true, Option.isSome_iff_exists, List.any_eq_true, beq_iff_eq] at found
  obtain ⟨⟨⟨s', stepped⟩, image, written, lsn⟩, record, appended, same⟩ := found
  have reached : system.Reachable s := .run (.start smallFlushingPool_init) executed fun _ _ _ => trivial
  have synced := (log_before_page reached .writeBatch s' stepped image written).2 record
    (List.mem_append_right _ appended) (by rw [same, lsn])
  exact ⟨s, reached, image, written, lsn, record, synced, same⟩

end FlushingPool

end SimpleRdbms.Storage
