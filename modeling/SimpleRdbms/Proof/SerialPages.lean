import SimpleRdbms.Proof.History

namespace SimpleRdbms.Storage

structure Pages (initial : Nat → PageData) (pool : SerialPool) (history : List LoggedRecord) : Prop where
  disk : ∀ pageId, ImageOk initial history pageId (pool.disk.images pageId)
  checks : ∀ pageId, checksumOk (pool.disk.images pageId) = true
  synced : ∀ pageId, (pool.disk.images pageId).lsn ≠ 0 → pageId < pool.disk.syncedLength
  length : pool.disk.syncedLength ≤ pool.disk.length
  frames : ∀ pageId resident, pool.frames.lookup pageId = some resident →
    ImageOk initial history pageId resident.page ∧ pageId < pool.disk.length
  clean : ∀ pageId resident, pool.frames.lookup pageId = some resident → resident.dirtySinceLsn = 0 →
    resident.page.lsn = (pool.disk.images pageId).lsn
  ordered : ∀ pageId resident, pool.frames.lookup pageId = some resident →
    (pool.disk.images pageId).lsn ≤ resident.page.lsn
  wal : ∀ pageId, (pool.disk.images pageId).lsn < pool.log.durableLsn

namespace Pages
variable {initial : Nat → PageData} {pool : SerialPool} {history : List LoggedRecord} {pageId : Nat}

section
variable (pages : Pages initial pool history)
include pages

theorem view_ok (pageId : Nat) : ImageOk initial history pageId (pool.view pageId) := by
  unfold SerialPool.view
  cases resident : pool.frames.lookup pageId with
  | none => exact pages.disk pageId
  | some frame => exact (pages.frames pageId frame resident).1

theorem grow {log : LogManager} {rest : List LoggedRecord}
    (durable : pool.log.durableLsn ≤ log.durableLsn)
    (later : ∀ record ∈ rest, ∀ pageId, (pool.disk.images pageId).lsn < record.lsn ∧
      ∀ resident, pool.frames.lookup pageId = some resident → resident.page.lsn < record.lsn) :
    Pages initial { pool with log, history := pool.history ++ rest } (history ++ rest) where
  disk pageId := (pages.disk pageId).append fun record member => (later record member pageId).1
  checks := pages.checks
  synced := pages.synced
  length := pages.length
  frames pageId resident present := by
    obtain ⟨image, inside⟩ := pages.frames pageId resident present
    exact ⟨image.append fun record member => (later record member pageId).2 resident present, inside⟩
  clean := pages.clean
  ordered := pages.ordered
  wal pageId := Nat.lt_of_lt_of_le (pages.wal pageId) durable

theorem fetchPage (inside : pageId < pool.disk.length) :
    ∃ frames resident, pool.fetchPage pageId = .ok ({ pool with frames }, resident) ∧
      frames.lookup pageId = some resident ∧ resident.page = pool.view pageId ∧
      (∀ other, other ≠ pageId → frames.lookup other = pool.frames.lookup other) ∧
      (pool.frames.lookup pageId = some resident ∨
        pool.frames.lookup pageId = none ∧ resident.dirtySinceLsn = 0) := by
  unfold SerialPool.fetchPage SerialPool.view
  cases present : pool.frames.lookup pageId with
  | some resident => exact ⟨pool.frames, resident, rfl, present, rfl, fun _ _ => rfl, .inl rfl⟩
  | none =>
    have read : pool.disk.readPage pageId = .ok (pool.disk.images pageId) := by
      simp [DiskManager.readPage, inside, pages.checks pageId]
    rw [read]
    refine ⟨_, _, rfl, AList.lookup_insert _, rfl, fun other different => ?_, .inr ⟨rfl, rfl⟩⟩
    exact AList.lookup_insert_ne different

theorem reframe {frames : AList fun _ : Nat => Resident}
    (each : ∀ other frame, frames.lookup other = some frame → pool.frames.lookup other = some frame ∨
      (ImageOk initial history other frame.page ∧ other < pool.disk.length) ∧
        (frame.dirtySinceLsn = 0 → frame.page.lsn = (pool.disk.images other).lsn) ∧
        (pool.disk.images other).lsn ≤ frame.page.lsn) : Pages initial { pool with frames } history :=
  { pages with
    frames := fun other frame present => (each other frame present).elim (pages.frames other frame) And.left
    clean := fun other frame present isClean =>
      (each other frame present).elim (pages.clean other frame · isClean) (·.2.1 isClean)
    ordered := fun other frame present => (each other frame present).elim (pages.ordered other frame) (·.2.2) }

theorem refetched {frames : AList fun _ : Nat => Resident}
    {resident : Resident} (inside : pageId < pool.disk.length) (here : frames.lookup pageId = some resident)
    (shows : resident.page = pool.view pageId)
    (others : ∀ other, other ≠ pageId → frames.lookup other = pool.frames.lookup other)
    (origin : pool.frames.lookup pageId = some resident ∨
      pool.frames.lookup pageId = none ∧ resident.dirtySinceLsn = 0) :
    Pages initial { pool with frames } history := by
  refine pages.reframe fun other frame present => ?_
  by_cases same : other = pageId
  · subst same
    obtain rfl : resident = frame := Option.some.inj (here.symm.trans present)
    refine origin.imp_right fun absent => ?_
    have read : resident.page = pool.disk.images other := by rw [shows, SerialPool.view, absent.1]; rfl
    rw [read]
    exact ⟨⟨pages.disk other, inside⟩, fun _ => rfl, Nat.le_refl _⟩
  · exact .inl ((others other same).symm.trans present)

theorem install {resident : Resident} (inside : pageId < pool.disk.length)
    (image : ImageOk initial history pageId resident.page) (dirty : resident.dirtySinceLsn ≠ 0)
    (newer : (pool.disk.images pageId).lsn ≤ resident.page.lsn) :
    Pages initial (pool.install pageId resident) history := by
  refine pages.reframe fun other frame present => ?_
  by_cases same : other = pageId
  · subst same
    obtain rfl := Option.some.inj (present.symm.trans (AList.lookup_insert _))
    exact .inr ⟨⟨image, inside⟩, fun isClean => absurd isClean dirty, newer⟩
  · exact .inl ((AList.lookup_insert_ne same).symm.trans present)

end

theorem view_of_lookup {resident : Resident} (present : pool.frames.lookup pageId = some resident) :
    pool.view pageId = resident.page := by
  rw [SerialPool.view, present]
  rfl

theorem view_install (pool : SerialPool) (pageId : Nat) (resident : Resident) (other : Nat) :
    (pool.install pageId resident).view other =
    if other = pageId then resident.page else pool.view other := by
  unfold SerialPool.view SerialPool.install
  by_cases same : other = pageId
  · subst same
    simp
  · simp [AList.lookup_insert_ne same, same]

theorem stamped (pages : Pages initial pool history) (sorted : history.Pairwise (·.lsn < ·.lsn))
    {resident : Resident} (present : pool.frames.lookup pageId = some resident)
    {record : LoggedRecord} {offset : Nat} {bytes : List UInt8} (member : record ∈ history)
    (change : record.kind.pageChange = some (pageId, offset, bytes)) (newer : resident.page.lsn < record.lsn)
    (next : ∀ other ∈ history, other.changes pageId = true → other.lsn < record.lsn →
      other.lsn ≤ resident.page.lsn) :
    Pages initial (pool.install pageId (resident.stamp offset bytes record.lsn)) history := by
  obtain ⟨image, inside⟩ := pages.frames pageId resident present
  refine pages.install inside (image.stamp sorted member change rfl newer next) ?_ ?_
  · unfold Resident.stamp
    dsimp only
    split <;> omega
  · exact Nat.le_trans (pages.ordered pageId resident present) (Nat.le_of_lt newer)

theorem stampWrite (pages : Pages initial pool history) (sorted : history.Pairwise (·.lsn < ·.lsn))
    {record : LoggedRecord} {offset : Nat} {bytes : List UInt8} (inside : pageId < pool.disk.length)
    (range : offset + bytes.length ≤ PAGE_SIZE) (member : record ∈ history)
    (change : record.kind.pageChange = some (pageId, offset, bytes)) (newer : (pool.view pageId).lsn < record.lsn)
    (next : ∀ other ∈ history, other.changes pageId = true → other.lsn < record.lsn →
      other.lsn ≤ (pool.view pageId).lsn) :
    ∃ frames, pool.stampWrite pageId offset bytes record.lsn = .ok { pool with frames } ∧
      Pages initial { pool with frames } history ∧
      ∀ other, (({ pool with frames } : SerialPool).view other).lsn =
        if other = pageId then record.lsn else (pool.view other).lsn := by
  obtain ⟨fetched, resident, fetch, here, shows, others, origin⟩ := pages.fetchPage inside
  have refetched := pages.refetched inside here shows others origin
  have stamped := refetched.stamped sorted here member change (shows ▸ newer) (shows ▸ next)
  refine ⟨_, ?_, stamped, ?_⟩
  · simp only [SerialPool.stampWrite, fetch, bind, Except.bind, range, if_true]
    rfl
  · intro other
    have view := view_install { pool with frames := fetched } pageId (resident.stamp offset bytes record.lsn) other
    refine (congrArg Page.lsn view).trans ?_
    by_cases same : other = pageId
    · simp [same, Resident.stamp]
    · simp only [same, if_false]
      unfold SerialPool.view
      rw [others other same]

end Pages

structure Flushed (pool pool' : SerialPool) : Prop where
  history : pool'.history = pool.history
  nextLsn : pool'.log.nextLsn = pool.log.nextLsn
  base : pool'.log.base = pool.log.base
  durable : pool.log.durableLsn ≤ pool'.log.durableLsn
  length : pool'.disk.length = pool.disk.length
  synced : pool.disk.syncedLength ≤ pool'.disk.syncedLength
  disk : ∀ pageId, (pool.disk.images pageId).lsn ≤ (pool'.disk.images pageId).lsn
  view : ∀ pageId, (pool'.view pageId).lsn = (pool.view pageId).lsn

namespace Flushed
variable {pool pool' pool'' : SerialPool}

theorem refl (pool : SerialPool) : Flushed pool pool where
  history := rfl
  nextLsn := rfl
  base := rfl
  durable := Nat.le_refl _
  length := rfl
  synced := Nat.le_refl _
  disk _ := Nat.le_refl _
  view _ := rfl

theorem trans (first : Flushed pool pool') (second : Flushed pool' pool'') : Flushed pool pool'' where
  history := second.history.trans first.history
  nextLsn := second.nextLsn.trans first.nextLsn
  base := second.base.trans first.base
  durable := Nat.le_trans first.durable second.durable
  length := second.length.trans first.length
  synced := Nat.le_trans first.synced second.synced
  disk pageId := Nat.le_trans (first.disk pageId) (second.disk pageId)
  view pageId := (second.view pageId).trans (first.view pageId)

end Flushed

section Snapshot
variable {frames : AList fun _ : Nat => Resident} {pageIds : List Nat} {disk : DiskManager} {pageId : Nat}

theorem snapshot_images (ids : ∀ pageId resident, frames.lookup pageId = some resident → resident.page.id = pageId) :
    ((pageIds.filterMap fun pageId => (frames.lookup pageId).map Resident.page).foldl
      (fun disk page => disk.writePage page.id page) disk).images pageId =
      match frames.lookup pageId with
      | some resident => if pageId ∈ pageIds then stampChecksum resident.page else disk.images pageId
      | none => disk.images pageId := by
  induction pageIds generalizing disk with
  | nil => cases frames.lookup pageId <;> rfl
  | cons first rest ih =>
    cases present : frames.lookup first with
    | none =>
      rw [List.filterMap_cons_none (by simp [present]), ih]
      cases here : frames.lookup pageId with
      | none => rfl
      | some resident =>
        have different : pageId ≠ first := by
          rintro rfl
          simp [present] at here
        simp [different]
    | some resident =>
      have split : (first :: rest).filterMap (fun pageId => (frames.lookup pageId).map Resident.page) =
          resident.page :: rest.filterMap fun pageId => (frames.lookup pageId).map Resident.page :=
        List.filterMap_cons_some (by rw [present]; rfl)
      rw [split, List.foldl_cons, ih, ids first resident present]
      by_cases same : pageId = first
      · subst same
        simp [present, DiskManager.writePage]
      · cases here : frames.lookup pageId with
        | none => simp [DiskManager.writePage, same]
        | some other => simp [DiskManager.writePage, same]

theorem snapshot_length {snapshot : List Page} :
    (snapshot.foldl (fun disk page => disk.writePage page.id page) disk).length = disk.length ∧
      (snapshot.foldl (fun disk page => disk.writePage page.id page) disk).syncedLength = disk.syncedLength := by
  induction snapshot generalizing disk with
  | nil => exact ⟨rfl, rfl⟩
  | cons page rest ih => exact @ih (disk.writePage page.id page)

theorem clean_lookup (first : Nat) : (SerialPool.clean frames first).lookup pageId =
    (frames.lookup pageId).map fun resident =>
      if pageId = first then { resident with dirtySinceLsn := 0 } else resident := by
  unfold SerialPool.clean
  by_cases same : pageId = first
  · subst same
    cases present : frames.lookup pageId with
    | none => simp [present]
    | some resident => simp
  · cases present : frames.lookup first with
    | none => simp [same]
    | some resident => simp [AList.lookup_insert_ne same, same]

theorem cleanAll_lookup (frames : AList fun _ : Nat => Resident) (pageIds : List Nat) (pageId : Nat) :
    (pageIds.foldl SerialPool.clean frames).lookup pageId =
    (frames.lookup pageId).map fun resident =>
      if pageId ∈ pageIds then { resident with dirtySinceLsn := 0 } else resident := by
  induction pageIds generalizing frames with
  | nil => simp
  | cons first rest ih =>
    rw [List.foldl_cons, ih, clean_lookup, Option.map_map]
    congr 1
    funext resident
    by_cases same : pageId = first
    · simp [same]
    · simp [same]

end Snapshot

namespace Pages
variable {initial : Nat → PageData} {pool : SerialPool} {history gone : List LoggedRecord}

structure FlushResult (initial : Nat → PageData) (pool pool' : SerialPool) (history gone : List LoggedRecord) :
    Prop where
  pages : Pages initial pool' history
  flushed : Flushed pool pool'
  holds : pool'.log.Holds history gone

theorem lsn_known (pages : Pages initial pool history) (holds : pool.log.Holds history gone)
    {pageId : Nat} {resident : Resident} (present : pool.frames.lookup pageId = some resident) :
    resident.page.lsn < pool.log.nextLsn := by
  rcases (pages.frames pageId resident present).1.lsn_cases with zero | ⟨record, member, -, same⟩
  · have header := holds.whole.le
    simp only [HEADER_LEN] at header
    omega
  · exact same ▸ holds.lsn_lt member

theorem flushLog (pages : Pages initial pool history) (holds : pool.log.Holds history gone) (upTo : Nat) :
    FlushResult initial pool { pool with log := pool.log.flush upTo } history gone := by
  have durable := holds.flush_grows upTo
  refine ⟨{ pages with wal := fun pageId => Nat.lt_of_lt_of_le (pages.wal pageId) durable }, ?_, holds.flush upTo⟩
  exact { Flushed.refl pool with
    nextLsn := LogManager.flush_nextLsn _ _
    base := LogManager.Holds.flush_base _ _
    durable }

def wrote (pool : SerialPool) (log : LogManager) (pageIds : List Nat) : SerialPool :=
  { pool with
    log
    disk := ((pageIds.filterMap fun pageId => (pool.frames.lookup pageId).map Resident.page).foldl
      (fun disk page => disk.writePage page.id page) pool.disk).sync
    frames := pageIds.foldl SerialPool.clean pool.frames }

section
variable (pages : Pages initial pool history) (log : LogManager) (pageIds : List Nat)
include pages

theorem wrote_cases (pageId : Nat) :
    ((wrote pool log pageIds).disk.images pageId = pool.disk.images pageId ∧
      (wrote pool log pageIds).frames.lookup pageId = pool.frames.lookup pageId ∧
      (pageId ∈ pageIds → pool.frames.lookup pageId = none)) ∨
    ∃ resident, pool.frames.lookup pageId = some resident ∧ pageId ∈ pageIds ∧
      (wrote pool log pageIds).disk.images pageId = stampChecksum resident.page ∧
      (wrote pool log pageIds).frames.lookup pageId = some { resident with dirtySinceLsn := 0 } := by
  have image : (wrote pool log pageIds).disk.images pageId = _ :=
    snapshot_images fun pageId resident present => (pages.frames pageId resident present).1.id
  have frame := cleanAll_lookup pool.frames pageIds pageId
  cases present : pool.frames.lookup pageId with
  | none => exact .inl ⟨image.trans (by rw [present]), frame.trans (by rw [present]; rfl), fun _ => rfl⟩
  | some resident =>
    rw [present] at image frame
    by_cases listed : pageId ∈ pageIds
    · exact .inr ⟨resident, rfl, listed, image.trans (if_pos listed), frame.trans (by simp [listed])⟩
    · exact .inl ⟨image.trans (if_neg listed), frame.trans (by simp [listed]), fun member => absurd member listed⟩

theorem written (durable : pool.log.durableLsn ≤ log.durableLsn)
    (covered : ∀ pageId ∈ pageIds, ∀ resident, pool.frames.lookup pageId = some resident →
      resident.page.lsn < log.durableLsn) : Pages initial (wrote pool log pageIds) history := by
  have length : (wrote pool log pageIds).disk.length = pool.disk.length := snapshot_length.1
  have synced : (wrote pool log pageIds).disk.syncedLength = pool.disk.length := snapshot_length.1
  have cases := pages.wrote_cases log pageIds
  constructor
  · intro pageId
    rcases cases pageId with ⟨image, -⟩ | ⟨resident, old, -, image, -⟩ <;> rw [image]
    · exact pages.disk pageId
    · obtain ⟨ok, -⟩ := pages.frames pageId resident old
      exact ⟨ok.id, fun i body => (stampChecksum_data _ body).trans (ok.bytes i body), ok.lsn⟩
  · intro pageId
    rcases cases pageId with ⟨image, -⟩ | ⟨resident, -, -, image, -⟩ <;> rw [image]
    · exact pages.checks pageId
    · exact checksumOk_stampChecksum _
  · intro pageId changed
    rw [synced]
    rcases cases pageId with ⟨image, -⟩ | ⟨resident, old, -⟩
    · exact Nat.lt_of_lt_of_le (pages.synced pageId (image ▸ changed)) pages.length
    · exact (pages.frames pageId resident old).2
  · rw [synced, length]
  · intro pageId frame present
    rw [length]
    rcases cases pageId with ⟨-, same, -⟩ | ⟨resident, old, -, -, new⟩
    · exact pages.frames pageId frame (same ▸ present)
    · obtain rfl := Option.some.inj (new.symm.trans present)
      exact pages.frames pageId resident old
  · intro pageId frame present isClean
    rcases cases pageId with ⟨image, same, -⟩ | ⟨resident, -, -, image, new⟩ <;> rw [image]
    · exact pages.clean pageId frame (same ▸ present) isClean
    · obtain rfl := Option.some.inj (new.symm.trans present)
      rfl
  · intro pageId frame present
    rcases cases pageId with ⟨image, same, -⟩ | ⟨resident, -, -, image, new⟩ <;> rw [image]
    · exact pages.ordered pageId frame (same ▸ present)
    · obtain rfl := Option.some.inj (new.symm.trans present)
      exact Nat.le_refl _
  · intro pageId
    rcases cases pageId with ⟨image, -⟩ | ⟨resident, old, listed, image, -⟩ <;> rw [image]
    · exact Nat.lt_of_lt_of_le (pages.wal pageId) durable
    · exact covered pageId listed resident old

theorem wrote_flushed (logOnly : Flushed pool { pool with log }) : Flushed pool (wrote pool log pageIds) := by
  have cases := pages.wrote_cases log pageIds
  have synced : (wrote pool log pageIds).disk.syncedLength = pool.disk.length := snapshot_length.1
  refine { logOnly with
    length := snapshot_length.1
    synced := synced ▸ pages.length
    disk := fun pageId => ?_
    view := fun pageId => ?_ }
  · rcases cases pageId with ⟨image, -⟩ | ⟨resident, old, -, image, -⟩ <;> rw [image]
    exact pages.ordered pageId resident old
  · rcases cases pageId with ⟨image, same, -⟩ | ⟨resident, old, -, -, new⟩
    · rw [SerialPool.view, same, image, SerialPool.view]
    · rw [view_of_lookup new, view_of_lookup old]

end

theorem flushPages (pages : Pages initial pool history) (holds : pool.log.Holds history gone) (pageIds : List Nat) :
    FlushResult initial pool (pool.flushPages pageIds) history gone ∧ ∀ pageId ∈ pageIds, ∀ resident,
      (pool.flushPages pageIds).frames.lookup pageId = some resident → resident.dirtySinceLsn = 0 := by
  unfold SerialPool.flushPages
  extract_lets snapshot maxPageLsn
  have listed : ∀ page, page ∈ snapshot ↔ ∃ pageId ∈ pageIds, ∃ resident,
      pool.frames.lookup pageId = some resident ∧ resident.page = page := by
    intro page
    simp [snapshot, List.mem_filterMap]
  have newest : ∀ page ∈ snapshot, page.lsn ≤ maxPageLsn := fun page member =>
    List.le_max?_getD_of_mem (List.mem_map_of_mem member)
  split
  · rename_i empty
    have none : snapshot = [] := List.isEmpty_iff.mp empty
    refine ⟨⟨pages, Flushed.refl pool, holds⟩, fun pageId member resident present => ?_⟩
    have := (listed resident.page).mpr ⟨pageId, member, resident, present, rfl⟩
    simp [none] at this
  · have logOnly := pages.flushLog holds maxPageLsn
    have past : ∀ pageId ∈ pageIds, ∀ resident, pool.frames.lookup pageId = some resident →
        resident.page.lsn < (pool.log.flush maxPageLsn).durableLsn := by
      intro pageId member resident present
      rcases LogManager.Holds.flush_durable pool.log maxPageLsn with high | all
      · exact Nat.lt_of_le_of_lt (newest _ ((listed _).mpr ⟨pageId, member, resident, present, rfl⟩)) high
      · exact all ▸ pages.lsn_known holds present
    refine ⟨⟨pages.written _ pageIds logOnly.flushed.durable past, pages.wrote_flushed _ pageIds logOnly.flushed,
      logOnly.holds⟩, fun pageId member resident present => ?_⟩
    rcases pages.wrote_cases (pool.log.flush maxPageLsn) pageIds pageId with ⟨-, same, absent⟩ | ⟨frame, -, -, -, new⟩
    · cases (same.trans (absent member)).symm.trans present
    · obtain rfl := Option.some.inj (new.symm.trans present)
      rfl

theorem disk_le_view (pages : Pages initial pool history) (pageId : Nat) :
    (pool.disk.images pageId).lsn ≤ (pool.view pageId).lsn := by
  unfold SerialPool.view
  cases present : pool.frames.lookup pageId with
  | none => exact Nat.le_refl _
  | some resident => exact pages.ordered pageId resident present

theorem FlushResult.trans {pool' pool'' : SerialPool} (first : FlushResult initial pool pool' history gone)
    (second : FlushResult initial pool' pool'' history gone) : FlushResult initial pool pool'' history gone :=
  ⟨second.pages, first.flushed.trans second.flushed, second.holds⟩

theorem flushPage (pages : Pages initial pool history) (holds : pool.log.Holds history gone) (pageId : Nat) :
    FlushResult initial pool (pool.flushPage pageId) history gone ∧ ∀ resident,
      (pool.flushPage pageId).frames.lookup pageId = some resident → resident.dirtySinceLsn = 0 := by
  unfold SerialPool.flushPage
  split
  · obtain ⟨result, cleaned⟩ := pages.flushPages holds [pageId]
    exact ⟨result, cleaned pageId (by simp)⟩
  · rename_i notDirty
    refine ⟨⟨pages, Flushed.refl pool, holds⟩, fun resident present => ?_⟩
    simpa [SerialPool.isDirty, present] using notDirty

theorem erase (pages : Pages initial pool history) {pageId : Nat}
    (clean : ∀ resident, pool.frames.lookup pageId = some resident → resident.dirtySinceLsn = 0) :
    Pages initial { pool with frames := pool.frames.erase pageId } history ∧
      Flushed pool { pool with frames := pool.frames.erase pageId } := by
  have kept : ∀ other resident, (pool.frames.erase pageId).lookup other = some resident →
      pool.frames.lookup other = some resident := by
    intro other resident present
    by_cases same : other = pageId
    · subst same
      simp [AList.lookup_erase] at present
    · rwa [AList.lookup_erase_ne same] at present
  refine ⟨pages.reframe fun other resident present => .inl (kept other resident present),
    { Flushed.refl pool with view := fun other => ?_ }⟩
  unfold SerialPool.view
  by_cases same : other = pageId
  · subst same
    cases present : pool.frames.lookup other with
    | none => simp [AList.lookup_erase]
    | some resident =>
      simpa [AList.lookup_erase] using (pages.clean other resident present (clean resident present)).symm
  · simp [AList.lookup_erase_ne same]

theorem evict (pages : Pages initial pool history) (holds : pool.log.Holds history gone) (pageId : Nat) :
    FlushResult initial pool (pool.evict pageId) history gone := by
  obtain ⟨result, cleaned⟩ := pages.flushPage holds pageId
  obtain ⟨kept, flushed⟩ := result.pages.erase cleaned
  exact ⟨kept, result.flushed.trans flushed, result.holds⟩

theorem evictAll (pages : Pages initial pool history) (holds : pool.log.Holds history gone) (pageIds : List Nat) :
    FlushResult initial pool (pageIds.foldl SerialPool.evict pool) history gone := by
  induction pageIds generalizing pool with
  | nil => exact ⟨pages, Flushed.refl pool, holds⟩
  | cons pageId rest ih =>
    have first := pages.evict holds pageId
    exact first.trans (ih first.pages first.holds)

end Pages

theorem checksumOk_new (pageId : Nat) : checksumOk (Page.new pageId) = true := by
  simp [checksumOk, Page.new, zeroData]

theorem lost_late {history lost : List LoggedRecord} {bound : Nat} (sorted : history.Pairwise (·.lsn < ·.lsn))
    (split : history = history.filter (fun record => decide (record.lsn < bound)) ++ lost) :
    ∀ record ∈ lost, bound ≤ record.lsn := by
  intro record member
  by_contra early
  have present : record ∈ history.filter fun record => decide (record.lsn < bound) := by
    refine List.mem_filter.mpr ⟨?_, by simpa using early⟩
    rw [split]
    exact List.mem_append_right _ member
  rw [split] at sorted
  exact absurd ((List.pairwise_append.mp sorted).2.2 record present record member) (Nat.lt_irrefl _)

theorem Pages.survived {initial : Nat → PageData} {pool : SerialPool} {history lost : List LoggedRecord}
    (empty : pool.frames = ∅) (lengths : pool.disk.syncedLength ≤ pool.disk.length)
    (late : ∀ record ∈ lost, pool.log.durableLsn ≤ record.lsn) (positive : 0 < pool.log.durableLsn)
    (lsns : ∀ record ∈ history, 0 < record.lsn)
    (images : ∀ pageId, (ImageOk initial (history ++ lost) pageId (pool.disk.images pageId) ∧
        checksumOk (pool.disk.images pageId) = true ∧ (pool.disk.images pageId).lsn < pool.log.durableLsn ∧
        pageId < pool.disk.syncedLength) ∨
      (pool.disk.images pageId = Page.new pageId ∧ initial pageId = zeroData)) : Pages initial pool history := by
  have absent : ∀ pageId resident, pool.frames.lookup pageId ≠ some resident := by
    simp [empty]
  refine ⟨fun pageId => ?_, fun pageId => ?_, fun pageId changed => ?_, lengths,
    fun pageId resident present => absurd present (absent pageId resident),
    fun pageId resident present => absurd present (absent pageId resident),
    fun pageId resident present => absurd present (absent pageId resident), fun pageId => ?_⟩
  · rcases images pageId with ⟨image, -, early, -⟩ | ⟨fresh, zero⟩
    · exact image.of_append fun record member => Nat.lt_of_lt_of_le early (late record member)
    · rw [fresh]
      exact ImageOk.new zero lsns
  · rcases images pageId with ⟨-, checks, -⟩ | ⟨fresh, -⟩
    · exact checks
    · rw [fresh]
      exact checksumOk_new pageId
  · rcases images pageId with ⟨-, -, -, inside⟩ | ⟨fresh, -⟩
    · exact inside
    · rw [fresh] at changed
      exact absurd rfl changed
  · rcases images pageId with ⟨-, -, early, -⟩ | ⟨fresh, -⟩
    · exact early
    · rw [fresh]
      exact positive

end SimpleRdbms.Storage
