import SimpleRdbms.Proof.Analysis

namespace SimpleRdbms.Storage.SerialPool.Analysis

section Settled
variable {disk disk' : DiskManager} {record : LoggedRecord} {pageId : Nat}

theorem Settled.mono (settled : Settled disk record pageId)
    (images : (disk.images pageId).lsn ≤ (disk'.images pageId).lsn)
    (synced : disk.syncedLength ≤ disk'.syncedLength) : Settled disk' record pageId :=
  ⟨fun changes => Nat.le_trans (settled.1 changes) images,
    fun allocates => Nat.lt_of_lt_of_le (settled.2 allocates) synced⟩

end Settled

section Below
variable {history rest : List LoggedRecord} {record : LoggedRecord} {start bound txnId : Nat}

theorem below_append (later : ∀ record ∈ rest, start ≤ record.lsn) :
    below (history ++ rest) start = below history start := by
  have none : rest.filter (fun record => decide (record.lsn < start)) = [] := by simpa using later
  rw [below, List.filter_append, none, List.append_nil]
  rfl

end Below

namespace SnapshotOk
variable {disk disk' : DiskManager} {leaked leaked' : List Nat} {base base' start stop bound : Nat}
  {history rest : List LoggedRecord} {att dpt : List (Nat × Nat)}

theorem append (ok : SnapshotOk disk leaked base start stop history att dpt) (low : start ≤ stop)
    (later : ∀ record ∈ rest, stop < record.lsn) :
    SnapshotOk disk leaked base start stop (history ++ rest) att dpt := by
  have same : below (history ++ rest) start = below history start :=
    below_append fun record member => Nat.le_trans low (Nat.le_of_lt (later record member))
  refine { ok with running := ?_, named := ?_, covers := ?_ }
  · rw [same]
    exact ok.running
  · intro txnId lsn listed
    obtain ⟨user, record, member, mine⟩ := ok.named txnId lsn listed
    exact ⟨user, record, List.mem_append_left _ member, mine⟩
  · intro record member early
    rcases List.mem_append.mp member with old | new
    · exact ok.covers record old early
    · exact absurd (later record new) (by omega)

theorem mono (ok : SnapshotOk disk leaked base start stop history att dpt)
    (settled : ∀ record ∈ history, ∀ pageId, Settled disk record pageId → Settled disk' record pageId)
    (more : ∀ pageId ∈ leaked, pageId ∈ leaked') (low : ∀ pageId lsn, (pageId, lsn) ∈ dpt → base' ≤ lsn) :
    SnapshotOk disk' leaked' base' start stop history att dpt :=
  { ok with
    values := fun pageId lsn listed => ⟨low pageId lsn listed, (ok.values pageId lsn listed).2⟩
    covers := fun record member early pageId touched used =>
      (ok.covers record member early pageId touched fun lost => used (more pageId lost)).imp_left
        (settled record member pageId) }

end SnapshotOk

namespace Anchored
variable {disk disk' : DiskManager} {leaked leaked' : List Nat} {base base' limit limit' start bound : Nat}
  {history : List LoggedRecord} {record : LoggedRecord}

theorem mono (anchored : Anchored disk leaked base limit history start)
    (settled : ∀ record ∈ history, ∀ pageId, Settled disk record pageId → Settled disk' record pageId)
    (more : ∀ pageId ∈ leaked, pageId ∈ leaked') (limits : limit ≤ limit') :
    Anchored disk' leaked' base limit' history start where
  low := anchored.low
  header := anchored.header
  found := anchored.found.imp_right fun ⟨record, member, low, high, carries⟩ =>
    ⟨record, member, low, by omega, carries⟩
  ok record att dpt first carries :=
    (anchored.ok record att dpt first carries).mono settled more fun pageId lsn listed =>
      ((anchored.ok record att dpt first carries).values pageId lsn listed).1

theorem snoc (anchored : Anchored disk leaked base limit history start)
    (later : ∀ old ∈ history, old.lsn < record.lsn) (new : ∀ att dpt, snapshot? record = some (att, dpt) →
      (∀ old ∈ history, start ≤ old.lsn → snapshot? old = none) →
      SnapshotOk disk leaked base start record.lsn (history ++ [record]) att dpt) :
    Anchored disk leaked base limit (history ++ [record]) start where
  low := anchored.low
  header := anchored.header
  found := anchored.found.imp_right fun ⟨old, member, rest⟩ => ⟨old, List.mem_append_left _ member, rest⟩
  ok other att dpt first carries := by
    rcases List.mem_append.mp first.member with old | last
    · have before : First history start other :=
        ⟨old, first.low, fun earlier member => first.first earlier (List.mem_append_left _ member)⟩
      refine (anchored.ok other att dpt before carries).append first.low fun added member => ?_
      obtain rfl := List.mem_singleton.mp member
      exact later other old
    · obtain rfl := List.mem_singleton.mp last
      exact new att dpt carries fun old member low =>
        first.first old (List.mem_append_left _ member) low (later old member)

end Anchored

end SimpleRdbms.Storage.SerialPool.Analysis
