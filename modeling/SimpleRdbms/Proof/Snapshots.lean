import Mathlib.Tactic.Common
import SimpleRdbms.Txn.Snapshots

namespace SimpleRdbms.Txn
open Function (update update_eq_self update_of_ne update_self)

namespace SnapshotHistory

inductive RowState (store : VersionStore) (active : List Transaction) (outcomes : Nat → TxnOutcome) (rid : Rid) :
    List Nat → Prop
  | unrecorded : store.chains rid = none → RowState store active outcomes rid []
  | unfinished {creator : Nat} {older : List Nat} {rids : List Rid} : outcomes creator = .unfinished →
      store.chains rid = some [⟨creator, none, none⟩] → store.writeSets creator = some rids → rid ∈ rids →
      RowState store active outcomes rid (creator :: older)
  | committed {creator ts : Nat} {older : List Nat} : outcomes creator = .committed ts →
      store.chains rid = some [⟨creator, some ts, none⟩] → RowState store active outcomes rid (creator :: older)
  | committedPruned {creator ts : Nat} {older : List Nat} : outcomes creator = .committed ts →
      store.chains rid = none → (∀ txn ∈ active, ts ≤ txn.readTs) →
      RowState store active outcomes rid (creator :: older)
  | aborted {creator : Nat} {older witnesses : List Nat} : outcomes creator = .aborted witnesses →
      store.chains rid = some [] →
      (∀ ts, (ts, rid) ∈ store.pruneCandidates → ∀ txn ∈ active, txn.txnId ∈ witnesses → txn.readTs < ts) →
      RowState store active outcomes rid (creator :: older)
  | abortedPruned {creator : Nat} {older witnesses : List Nat} : outcomes creator = .aborted witnesses →
      store.chains rid = none → (∀ txn ∈ active, txn.txnId ∉ witnesses) →
      RowState store active outcomes rid (creator :: older)

structure Invariant (history : SnapshotHistory) : Prop where
  rows : ∀ rid, RowState history.manager.versions history.manager.active history.outcomes rid (history.creators rid)
  written : ∀ txnId rids, history.manager.versions.writeSets txnId = some rids → ∀ rid ∈ rids,
    (history.creators rid).head? = some txnId ∧ history.outcomes txnId = .unfinished
  running : ∀ txn ∈ history.manager.active, history.outcomes txn.txnId = .unfinished ∧
    txn.txnId < history.manager.nextTxnId ∧ txn.readTs < history.manager.nextTs
  fresh : ∀ txnId, history.manager.nextTxnId ≤ txnId → history.outcomes txnId = .unfinished
  stamped : ∀ txnId ts, history.outcomes txnId = .committed ts → ts < history.manager.nextTs
  witnessed : ∀ txnId witnesses, history.outcomes txnId = .aborted witnesses →
    ∀ witness ∈ witnesses, witness < history.manager.nextTxnId

section
variable {store : VersionStore} {active active' : List Transaction} {outcomes outcomes' : Nat → TxnOutcome}
  {rid : Rid} {creators : List Nat}

section
variable (row : RowState store active outcomes rid creators)
include row

theorem RowState.fewer
    (fewer : ∀ txn ∈ active', ∃ old ∈ active, old.txnId = txn.txnId ∧ old.readTs = txn.readTs) :
    RowState store active' outcomes rid creators := by
  cases row with
  | unrecorded chain => exact .unrecorded chain
  | unfinished outcome chain set member => exact .unfinished outcome chain set member
  | committed outcome chain => exact .committed outcome chain
  | committedPruned outcome chain older =>
    refine .committedPruned outcome chain fun txn member => ?_
    obtain ⟨old, wasActive, _, readTs⟩ := fewer txn member
    exact readTs ▸ older old wasActive
  | aborted outcome chain candidates =>
    refine .aborted outcome chain fun ts candidate txn member witness => ?_
    obtain ⟨old, wasActive, id, readTs⟩ := fewer txn member
    exact readTs ▸ candidates ts candidate old wasActive (id ▸ witness)
  | abortedPruned outcome chain gone =>
    refine .abortedPruned outcome chain fun txn member => ?_
    obtain ⟨old, wasActive, id, _⟩ := fewer txn member
    exact id ▸ gone old wasActive

theorem RowState.begin {txn : Transaction}
    (later : ∀ creator ts, outcomes creator = .committed ts → ts ≤ txn.readTs)
    (absent : ∀ creator witnesses, outcomes creator = .aborted witnesses → txn.txnId ∉ witnesses) :
    RowState store (txn :: active) outcomes rid creators := by
  cases row with
  | unrecorded chain => exact .unrecorded chain
  | unfinished outcome chain set member => exact .unfinished outcome chain set member
  | committed outcome chain => exact .committed outcome chain
  | committedPruned outcome chain older =>
    exact .committedPruned outcome chain (List.forall_mem_cons.mpr ⟨later _ _ outcome, older⟩)
  | aborted outcome chain candidates =>
    refine .aborted outcome chain fun ts candidate =>
      List.forall_mem_cons.mpr ⟨fun witness => ?_, candidates ts candidate⟩
    exact absurd witness (absent _ _ outcome)
  | abortedPruned outcome chain gone =>
    exact .abortedPruned outcome chain (List.forall_mem_cons.mpr ⟨absent _ _ outcome, gone⟩)

theorem RowState.prune {watermark : Nat} (bound : ∀ txn ∈ active, watermark ≤ txn.readTs) :
    RowState (store.prune watermark) active outcomes rid creators := by
  have kept : (store.prune watermark).chains rid = store.chains rid ∨
      (store.prune watermark).chains rid = none ∧
        (∃ ts ≤ watermark, (ts, rid) ∈ store.pruneCandidates) ∧
        ∃ chain, store.chains rid = some chain ∧ chain.isPrunable watermark = true := by
    simp only [VersionStore.prune]
    split
    · rename_i due
      refine .inr ⟨rfl, ?_, by simpa [Option.any_eq_true] using due.2⟩
      simpa [and_comm] using due.1
    · exact .inl rfl
  have fewer : ∀ entry, entry ∈ (store.prune watermark).pruneCandidates → entry ∈ store.pruneCandidates :=
    fun entry member => List.mem_of_mem_filter member
  cases row with
  | unrecorded chain =>
    refine .unrecorded ?_
    rcases kept with same | ⟨gone, -⟩
    · exact same.trans chain
    · exact gone
  | unfinished outcome chain set member =>
    rcases kept with same | ⟨-, -, pruned, stored, prunable⟩
    · exact .unfinished outcome (same.trans chain) set member
    · obtain rfl := Option.some.inj (stored.symm.trans chain)
      simp [VersionChain.isPrunable] at prunable
  | committed outcome chain =>
    rcases kept with same | ⟨gone, -, pruned, stored, prunable⟩
    · exact .committed outcome (same.trans chain)
    · obtain rfl := Option.some.inj (stored.symm.trans chain)
      have due := of_decide_eq_true prunable
      exact .committedPruned outcome gone fun txn member => Nat.le_trans due (bound txn member)
  | committedPruned outcome chain older =>
    refine .committedPruned outcome ?_ older
    rcases kept with same | ⟨gone, -⟩
    · exact same.trans chain
    · exact gone
  | aborted outcome chain candidates =>
    rcases kept with same | ⟨gone, ⟨ts, due, candidate⟩, -⟩
    · exact .aborted outcome (same.trans chain) fun ts candidate => candidates ts (fewer _ candidate)
    · refine .abortedPruned outcome gone fun txn member witness => ?_
      have := candidates ts candidate txn member witness
      have := bound txn member
      omega
  | abortedPruned outcome chain none =>
    refine .abortedPruned outcome ?_ none
    rcases kept with same | ⟨gone, -⟩
    · exact same.trans chain
    · exact gone

theorem RowState.of_same {store' : VersionStore} (chain : store'.chains rid = store.chains rid)
    (sets : ∀ creator ∈ creators.head?, ∀ rids, store.writeSets creator = some rids → rid ∈ rids →
      ∃ rids', store'.writeSets creator = some rids' ∧ rid ∈ rids')
    (ends : ∀ creator ∈ creators.head?, outcomes' creator = outcomes creator)
    (candidates : ∀ ts, (ts, rid) ∈ store'.pruneCandidates → (ts, rid) ∈ store.pruneCandidates) :
    RowState store' active outcomes' rid creators := by
  cases row with
  | unrecorded none => exact .unrecorded (chain.trans none)
  | unfinished outcome stored set member =>
    obtain ⟨rids', set', member'⟩ := sets _ rfl _ set member
    exact .unfinished ((ends _ rfl).trans outcome) (chain.trans stored) set' member'
  | committed outcome stored => exact .committed ((ends _ rfl).trans outcome) (chain.trans stored)
  | committedPruned outcome none older =>
    exact .committedPruned ((ends _ rfl).trans outcome) (chain.trans none) older
  | aborted outcome stored due =>
    exact .aborted ((ends _ rfl).trans outcome) (chain.trans stored) fun ts member => due ts (candidates ts member)
  | abortedPruned outcome none gone =>
    exact .abortedPruned ((ends _ rfl).trans outcome) (chain.trans none) gone

end

theorem RowState.own {txnId : Nat} {older : List Nat} (row : RowState store active outcomes rid (txnId :: older))
    (running : outcomes txnId = .unfinished) :
    store.chains rid = some [⟨txnId, none, none⟩] ∧ ∃ rids, store.writeSets txnId = some rids ∧ rid ∈ rids := by
  cases row with
  | unfinished _ chain set member => exact ⟨chain, _, set, member⟩
  | committed outcome _ | committedPruned outcome _ _ | aborted outcome _ _ | abortedPruned outcome _ _ =>
    simp [running] at outcome

theorem RowState.free (row : RowState store active outcomes rid creators)
    (aborted : ∀ creator ∈ creators, (outcomes creator).isAborted = true) : (store.chains rid).getD [] = [] := by
  cases row with
  | unrecorded chain | committedPruned _ chain _ | aborted _ chain _ | abortedPruned _ chain _ => simp [chain]
  | unfinished outcome _ _ _ | committed outcome _ =>
    have := aborted _ List.mem_cons_self
    simp [outcome, TxnOutcome.isAborted] at this

end

section
variable {history after : SnapshotHistory} {txnId : Nat} {rid : Rid} {a : Action}

variable {manager : TransactionManager} {txn : Transaction}

theorem mem_of_get (found : manager.get txnId = some txn) : txn ∈ manager.active ∧ txn.txnId = txnId :=
  ⟨List.mem_of_find?_eq_some found, by simpa using List.find?_some found⟩

theorem oldestActiveReadTs_le (member : txn ∈ manager.active) : manager.oldestActiveReadTs ≤ txn.readTs := by
  have listed : txn.readTs ∈ manager.active.map (·.readTs) := List.mem_map_of_mem member
  unfold TransactionManager.oldestActiveReadTs
  cases least : (manager.active.map (·.readTs)).min? with
  | none =>
    rw [List.min?_eq_none_iff.mp least] at listed
    simp at listed
  | some ts => exact (List.min?_eq_some_iff.mp least).2 _ listed

theorem Invariant.start (highestSeen : Option Nat) : (start highestSeen).Invariant where
  rows := fun rid => .unrecorded rfl
  written := by simp [SnapshotHistory.start, TransactionManager.new, VersionStore.new]
  running := by simp [SnapshotHistory.start, TransactionManager.new]
  fresh := fun _ _ => rfl
  stamped := by simp [SnapshotHistory.start]
  witnessed := by simp [SnapshotHistory.start]

section
variable (invariant : history.Invariant)
include invariant

theorem Invariant.begin (beginLsn : Nat) :
    Invariant { history with manager := history.manager.begin beginLsn } where
  rows := by
    intro rid
    refine (invariant.rows rid).begin (fun creator ts committed => ?_) fun creator witnesses aborted witness => ?_
    · exact Nat.le_of_lt (invariant.stamped creator ts committed)
    · exact Nat.lt_irrefl _ (invariant.witnessed creator witnesses aborted _ witness)
  written := invariant.written
  running := by
    intro txn member
    rcases List.mem_cons.mp member with rfl | old
    · exact ⟨invariant.fresh _ (Nat.le_refl _), Nat.lt_succ_self _, Nat.lt_succ_self _⟩
    · obtain ⟨outcome, id, readTs⟩ := invariant.running txn old
      exact ⟨outcome, Nat.lt_succ_of_lt id, Nat.lt_succ_of_lt readTs⟩
  fresh := fun txnId later => invariant.fresh txnId (Nat.le_of_succ_le later)
  stamped := fun txnId ts committed => Nat.lt_succ_of_lt (invariant.stamped txnId ts committed)
  witnessed := fun txnId witnesses aborted witness member =>
    Nat.lt_succ_of_lt (invariant.witnessed txnId witnesses aborted witness member)

theorem Invariant.recordInsert (running : history.outcomes txnId = .unfinished)
    (free : ∀ creator ∈ history.creators rid, (history.outcomes creator).isAborted = true) :
    Invariant { history with
      manager := history.manager.recordInsert txnId rid
      creators := update history.creators rid (txnId :: history.creators rid) } where
  rows := by
    intro rid'
    by_cases same : rid' = rid
    · subst same
      have empty := (invariant.rows rid').free free
      simp only [update_self]
      refine .unfinished running ?_ (update_self _ _ _) (List.mem_append_right _ List.mem_cons_self)
      simp [TransactionManager.recordInsert, VersionStore.recordInsert, VersionChain.push, empty]
    · simp only [update_of_ne same]
      refine (invariant.rows rid').of_same (update_of_ne same _ _) ?_ (fun _ _ => rfl) fun _ => id
      intro creator _ rids set member
      by_cases mine : creator = txnId
      · subst mine
        exact ⟨_, update_self _ _ _, by simp [set, member]⟩
      · exact ⟨rids, (update_of_ne mine _ _).trans set, member⟩
  written := by
    intro other rids set rid' member
    have before : (other = txnId ∧ rid' = rid) ∨ ∃ rids, history.manager.versions.writeSets other = some rids ∧
      rid' ∈ rids := by
      by_cases mine : other = txnId
      · subst mine
        simp only [TransactionManager.recordInsert, VersionStore.recordInsert, update_self,
          Option.some.injEq] at set
        subst set
        rcases List.mem_append.mp member with old | new
        · cases stored : history.manager.versions.writeSets other with
          | none => simp [stored] at old
          | some rids => exact .inr ⟨rids, rfl, by simpa [stored] using old⟩
        · exact .inl ⟨rfl, List.mem_singleton.mp new⟩
      · exact .inr ⟨rids, (update_of_ne mine _ _).symm.trans set, member⟩
    rcases before with ⟨rfl, rfl⟩ | ⟨rids', set', member'⟩
    · exact ⟨by simp, running⟩
    · obtain ⟨head, unfinished⟩ := invariant.written other rids' set' rid' member'
      have differs : rid' ≠ rid := by
        rintro rfl
        have := free other (List.mem_of_mem_head? head)
        simp [unfinished, TxnOutcome.isAborted] at this
      exact ⟨by simpa [update_of_ne differs] using head, unfinished⟩
  running := invariant.running
  fresh := invariant.fresh
  stamped := invariant.stamped
  witnessed := invariant.witnessed

theorem Invariant.not_mine {rids : List Rid}
    (set : history.manager.versions.writeSets txnId = some rids) (other : (history.creators rid).head? ≠ some txnId) :
    rid ∉ rids :=
  fun member => other (invariant.written txnId rids set rid member).1

theorem Invariant.other_row {store : VersionStore} {outcome : TxnOutcome}
    (other : (history.creators rid).head? ≠ some txnId)
    (chain : store.chains rid = history.manager.versions.chains rid)
    (sets : ∀ creator, creator ≠ txnId → store.writeSets creator = history.manager.versions.writeSets creator)
    (candidates : ∀ ts, (ts, rid) ∈ store.pruneCandidates → (ts, rid) ∈ history.manager.versions.pruneCandidates) :
    RowState store history.manager.active (update history.outcomes txnId outcome) rid (history.creators rid) := by
  have differs : ∀ creator ∈ (history.creators rid).head?, creator ≠ txnId := by
    rintro creator head rfl
    exact other head
  refine (invariant.rows rid).of_same chain ?_ ?_ candidates
  · exact fun creator head rids set member => ⟨rids, (sets creator (differs creator head)).trans set, member⟩
  · exact fun creator head => update_of_ne (differs creator head) _ _

theorem Invariant.commit_row (running : history.outcomes txnId = .unfinished) (ts : Nat)
    (rid : Rid) :
    RowState (history.manager.versions.commitVersions txnId ts) history.manager.active
      (update history.outcomes txnId (.committed ts)) rid (history.creators rid) := by
  by_cases mine : (history.creators rid).head? = some txnId
  · obtain ⟨older, creators⟩ := List.head?_eq_some_iff.mp mine
    have row := invariant.rows rid
    rw [creators] at row ⊢
    obtain ⟨chain, rids, set, member⟩ := row.own running
    refine .committed (update_self _ _ _) ?_
    simp [VersionStore.commitVersions, set, VersionStore.mapChains, member, chain, VersionChain.markCommitted]
  · cases set : history.manager.versions.writeSets txnId with
    | none =>
      refine invariant.other_row mine ?_ ?_ ?_ <;> simp [VersionStore.commitVersions, set]
    | some rids =>
      have notIn := invariant.not_mine set mine
      refine invariant.other_row mine ?_ (fun creator differs => ?_) fun ts' member => ?_
      · simp [VersionStore.commitVersions, set, VersionStore.mapChains, notIn]
      · simp [VersionStore.commitVersions, set, differs]
      · simpa [VersionStore.commitVersions, set, notIn] using member

theorem Invariant.abort_row (running : history.outcomes txnId = .unfinished)
    {ts : Nat} {witnesses : List Nat} (late : ∀ txn ∈ history.manager.active, txn.readTs < ts)
    (first : ∀ rids, history.manager.versions.writeSets txnId = some rids → ∀ rid ∈ rids, ∀ ts',
      (ts', rid) ∉ history.manager.versions.pruneCandidates) (rid : Rid) :
    RowState (history.manager.versions.abortVersions txnId ts) history.manager.active
      (update history.outcomes txnId (.aborted witnesses)) rid (history.creators rid) := by
  by_cases mine : (history.creators rid).head? = some txnId
  · obtain ⟨older, creators⟩ := List.head?_eq_some_iff.mp mine
    have row := invariant.rows rid
    rw [creators] at row ⊢
    obtain ⟨chain, rids, set, member⟩ := row.own running
    refine .aborted (update_self _ _ _) ?_ fun ts' candidate txn active _ => ?_
    · simp [VersionStore.abortVersions, set, VersionStore.mapChains, member, chain, VersionChain.removeCreator]
    · simp only [VersionStore.abortVersions, set, List.mem_append] at candidate
      rcases candidate with old | new
      · exact absurd old (first rids set rid member ts')
      · obtain ⟨_, _, same⟩ := List.mem_map.mp new
        obtain rfl : ts = ts' := congrArg Prod.fst same
        exact late txn active
  · cases set : history.manager.versions.writeSets txnId with
    | none =>
      refine invariant.other_row mine ?_ ?_ ?_ <;> simp [VersionStore.abortVersions, set]
    | some rids =>
      have notIn := invariant.not_mine set mine
      refine invariant.other_row mine ?_ (fun creator differs => ?_) fun ts' member => ?_
      · simp [VersionStore.abortVersions, set, VersionStore.mapChains, notIn]
      · simp [VersionStore.abortVersions, set, differs]
      · simpa [VersionStore.abortVersions, set, notIn] using member

end

theorem commitVersions_writeSets (store : VersionStore) (txnId ts : Nat) :
    (store.commitVersions txnId ts).writeSets = update store.writeSets txnId none := by
  cases set : store.writeSets txnId with
  | none =>
    rw [← set, update_eq_self]
    simp [VersionStore.commitVersions, set]
  | some rids => simp [VersionStore.commitVersions, set]

theorem abortVersions_writeSets (store : VersionStore) (txnId ts : Nat) :
    (store.abortVersions txnId ts).writeSets = update store.writeSets txnId none := by
  cases set : store.writeSets txnId with
  | none =>
    rw [← set, update_eq_self]
    simp [VersionStore.abortVersions, set]
  | some rids => simp [VersionStore.abortVersions, set]

theorem Invariant.finish (invariant : history.Invariant) {store : VersionStore}
    {outcome : TxnOutcome} (found : history.manager.get txnId = some txn)
    (active : manager.active = history.manager.active.filter (·.txnId ≠ txnId))
    (nextTxnId : manager.nextTxnId = history.manager.nextTxnId) (nextTs : history.manager.nextTs ≤ manager.nextTs)
    (versions : manager.versions = store.prune manager.oldestActiveReadTs)
    (rows : ∀ rid, RowState store history.manager.active (update history.outcomes txnId outcome) rid
      (history.creators rid)) (sets : store.writeSets = update history.manager.versions.writeSets txnId none)
    (stamped : ∀ ts, outcome = .committed ts → ts < manager.nextTs)
    (witnessed : ∀ witnesses, outcome = .aborted witnesses → ∀ witness ∈ witnesses, witness < manager.nextTxnId) :
    Invariant { history with manager, outcomes := update history.outcomes txnId outcome } where
  rows := by
    intro rid
    have kept : ∀ txn ∈ manager.active, txn ∈ history.manager.active := by
      intro txn member
      exact List.mem_of_mem_filter (active ▸ member)
    simp only [versions]
    refine ((rows rid).fewer fun txn member => ?_).prune fun txn member => oldestActiveReadTs_le member
    exact ⟨txn, kept txn member, rfl, rfl⟩
  written := by
    intro other rids set rid member
    have kept : update history.manager.versions.writeSets txnId none other = some rids := by
      rw [← sets]
      simpa [versions, VersionStore.prune] using set
    have differs : other ≠ txnId := by
      rintro rfl
      simp at kept
    rw [update_of_ne differs] at kept
    obtain ⟨head, unfinished⟩ := invariant.written other rids kept rid member
    exact ⟨head, (update_of_ne differs _ _).trans unfinished⟩
  running := by
    intro other member
    obtain ⟨old, differs⟩ := List.mem_filter.mp (active ▸ member)
    obtain ⟨unfinished, id, readTs⟩ := invariant.running other old
    refine ⟨?_, nextTxnId ▸ id, Nat.lt_of_lt_of_le readTs nextTs⟩
    exact (update_of_ne (by simpa using differs) _ _).trans unfinished
  fresh := by
    intro other later
    obtain ⟨member, rfl⟩ := mem_of_get found
    have bound := (invariant.running txn member).2.1
    simp only [nextTxnId] at later
    exact (update_of_ne (by omega) _ _).trans (invariant.fresh other later)
  stamped := by
    intro other ts committed
    by_cases mine : other = txnId
    · subst mine
      exact stamped ts (by simpa using committed)
    · simp only [update_of_ne mine] at committed
      exact Nat.lt_of_lt_of_le (invariant.stamped other ts committed) nextTs
  witnessed := by
    intro other witnesses aborted witness member
    by_cases mine : other = txnId
    · subst mine
      exact witnessed witnesses (by simpa using aborted) witness member
    · simp only [update_of_ne mine] at aborted
      exact nextTxnId ▸ invariant.witnessed other witnesses aborted witness member

def FirstAbort (history : SnapshotHistory) : Action → Prop
  | .finishAbort txnId => ∀ rids, history.manager.versions.writeSets txnId = some rids → ∀ rid ∈ rids, ∀ ts,
      (ts, rid) ∉ history.manager.versions.pruneCandidates
  | .begin _ | .recordInsert _ _ | .commit _ | .beginAbort _ | .cancelAbort _ => True

theorem Invariant.setState (invariant : history.Invariant) (state : TransactionState) :
    Invariant { history with manager := history.manager.setState txnId state } := by
  have before : ∀ txn ∈ (history.manager.setState txnId state).active,
      ∃ old ∈ history.manager.active, old.txnId = txn.txnId ∧ old.readTs = txn.readTs := by
    intro txn member
    obtain ⟨old, wasActive, rfl⟩ := List.mem_map.mp member
    refine ⟨old, wasActive, ?_⟩
    split
    · exact ⟨rfl, rfl⟩
    · exact ⟨rfl, rfl⟩
  refine { invariant with rows := fun rid => (invariant.rows rid).fewer before, running := fun txn member => ?_ }
  obtain ⟨old, wasActive, id, readTs⟩ := before txn member
  exact id ▸ readTs ▸ invariant.running old wasActive

inductive Steps (history : SnapshotHistory) : Action → SnapshotHistory → Prop
  | begin {beginLsn : Nat} : Steps history (.begin beginLsn) { history with manager := history.manager.begin beginLsn }
  | recordInsert {txn : Transaction} {rid : Rid} (found : history.manager.get txn.txnId = some txn)
      (free : ∀ creator ∈ history.creators rid, (history.outcomes creator).isAborted = true) :
      Steps history (.recordInsert txn.txnId rid) { history with
        manager := history.manager.recordInsert txn.txnId rid
        creators := update history.creators rid (txn.txnId :: history.creators rid) }
  | commit {txn : Transaction} (found : history.manager.get txn.txnId = some txn) :
      Steps history (.commit txn.txnId) { history with
        manager := history.manager.finishCommit txn.txnId
        outcomes := update history.outcomes txn.txnId (.committed history.manager.nextTs) }
  | setState {a : Action} {txnId : Nat} {state : TransactionState}
    (other : ∀ id, a ≠ .commit id ∧ a ≠ .finishAbort id) :
      Steps history a { history with manager := history.manager.setState txnId state }
  | finishAbort {txn : Transaction} (found : history.manager.get txn.txnId = some txn) :
      Steps history (.finishAbort txn.txnId) { history with
        manager := history.manager.finishAbort txn.txnId
        outcomes := update history.outcomes txn.txnId
          (.aborted ((history.manager.remove txn.txnId).active.map (·.txnId))) }

theorem steps_of_step (stepped : history.step a = some after) : Steps history a after := by
  cases a with
  | begin beginLsn =>
    obtain rfl := Option.some.inj stepped
    exact .begin
  | recordInsert id rid =>
    simp only [SnapshotHistory.step, SnapshotHistory.recordInsert, Option.ite_none_right_eq_some,
      Option.some.injEq] at stepped
    obtain ⟨⟨active, free⟩, rfl⟩ := stepped
    obtain ⟨txn, found⟩ := Option.isSome_iff_exists.mp active
    obtain rfl := (mem_of_get found).2
    exact .recordInsert found free
  | commit id =>
    simp only [SnapshotHistory.step, SnapshotHistory.commit] at stepped
    split at stepped
    · rename_i found
      obtain rfl := Option.some.inj stepped
      obtain rfl := (mem_of_get found).2
      exact .commit found
    · cases stepped
  | finishAbort id =>
    simp only [SnapshotHistory.step, SnapshotHistory.finishAbort] at stepped
    split at stepped
    · rename_i found
      obtain rfl := Option.some.inj stepped
      obtain rfl := (mem_of_get found).2
      exact .finishAbort found
    · cases stepped
  | beginAbort id =>
    simp only [SnapshotHistory.step, SnapshotHistory.beginAbort] at stepped
    split at stepped
    · obtain rfl := Option.some.inj stepped
      exact .setState fun _ => ⟨nofun, nofun⟩
    · cases stepped
  | cancelAbort id =>
    simp only [SnapshotHistory.step, SnapshotHistory.cancelAbort] at stepped
    split at stepped
    · obtain rfl := Option.some.inj stepped
      exact .setState fun _ => ⟨nofun, nofun⟩
    · cases stepped

theorem Invariant.step (invariant : history.Invariant) (allowed : history.FirstAbort a)
    (stepped : history.step a = some after) : after.Invariant := by
  cases steps_of_step stepped with
  | begin => exact invariant.begin _
  | recordInsert found free => exact invariant.recordInsert (invariant.running _ (mem_of_get found).1).1 free
  | commit found =>
    refine invariant.finish found rfl rfl (Nat.le_succ _) rfl
      (invariant.commit_row (invariant.running _ (mem_of_get found).1).1 _) (commitVersions_writeSets _ _ _) ?_
        (by simp)
    rintro ts ⟨⟩
    exact Nat.lt_succ_self _
  | finishAbort found =>
    refine invariant.finish found rfl rfl (Nat.le_refl _) rfl
      (invariant.abort_row (invariant.running _ (mem_of_get found).1).1
        (fun txn member => (invariant.running txn member).2.2) allowed)
      (abortVersions_writeSets _ _ _) (by simp) ?_
    rintro witnesses ⟨⟩ witness isWitness
    obtain ⟨txn, kept, rfl⟩ := List.mem_map.mp isWitness
    exact (invariant.running txn (List.mem_of_mem_filter kept)).2.1
  | setState => exact invariant.setState _

theorem Invariant.reached (reached : system.ReachableBy FirstAbort history) : history.Invariant :=
  reached.invariant (P := Invariant)
    (by
      rintro _ ⟨highestSeen, rfl⟩
      exact Invariant.start highestSeen)
    fun _ _ _ invariant allowed stepped => invariant.step allowed stepped

/-- As long as no row is aborted again before it is pruned, every active transaction sees what the history says. -/
theorem pruning_keeps_visibility (reached : system.ReachableBy FirstAbort history) :
    ∀ reader ∈ history.manager.active, ∀ rid visible, history.expected reader rid = some visible →
      history.manager.versions.isVisibleTo rid reader.txnId reader.readTs = visible := by
  intro reader active rid visible expects
  have invariant := Invariant.reached reached
  have row := invariant.rows rid
  have running := (invariant.running reader active).1
  unfold expected at expects
  generalize history.creators rid = creators at row expects
  cases row with
  | unrecorded chain =>
    obtain rfl := Option.some.inj expects
    simp [VersionStore.isVisibleTo, chain]
  | @unfinished creator older rids outcome chain _ _ =>
    by_cases own : creator = reader.txnId
    · obtain rfl : true = visible := by simpa [own] using expects
      simp [VersionStore.isVisibleTo, chain, VersionChain.visibleVersionFor, VersionEntry.isVisibleFor, own]
    · obtain rfl : false = visible := by simpa [own, outcome] using expects
      simp [VersionStore.isVisibleTo, chain, VersionChain.visibleVersionFor, VersionEntry.isVisibleFor,
        VersionEntry.isGloballyVisible, own]
  | @committed creator ts older outcome chain =>
    have own : creator ≠ reader.txnId := by
      rintro rfl
      simp [running] at outcome
    obtain rfl : decide (ts ≤ reader.readTs) = visible := by simpa [own, outcome] using expects
    by_cases before : ts ≤ reader.readTs
    · simp [VersionStore.isVisibleTo, chain, VersionChain.visibleVersionFor, VersionEntry.isVisibleFor,
        VersionEntry.isGloballyVisible, before]
    · simp [VersionStore.isVisibleTo, chain, VersionChain.visibleVersionFor, VersionEntry.isVisibleFor,
        VersionEntry.isGloballyVisible, own, before]
  | @committedPruned creator ts older outcome chain earlier =>
    have own : creator ≠ reader.txnId := by
      rintro rfl
      simp [running] at outcome
    obtain rfl : decide (ts ≤ reader.readTs) = visible := by simpa [own, outcome] using expects
    simp [VersionStore.isVisibleTo, chain, earlier reader active]
  | @aborted creator older witnesses outcome chain _ =>
    have own : creator ≠ reader.txnId := by
      rintro rfl
      simp [running] at outcome
    obtain ⟨_, rfl⟩ : reader.txnId ∈ witnesses ∧ false = visible := by simpa [own, outcome] using expects
    simp [VersionStore.isVisibleTo, chain, VersionChain.visibleVersionFor]
  | @abortedPruned creator older witnesses outcome chain gone =>
    have own : creator ≠ reader.txnId := by
      rintro rfl
      simp [running] at outcome
    obtain ⟨witness, _⟩ : reader.txnId ∈ witnesses ∧ false = visible := by simpa [own, outcome] using expects
    exact absurd witness (gone reader active)

theorem pruning_keeps_visibility_aborted :
    ∃ history, system.ReachableBy FirstAbort history ∧ ∃ reader ∈ history.manager.active,
      history.expected reader ⟨4, 0⟩ = some false ∧
      history.manager.versions.isVisibleTo ⟨4, 0⟩ reader.txnId reader.readTs = false := by
  have found : (system.run (SnapshotHistory.start none)
      [.begin 0, .begin 0, .recordInsert 0 ⟨4, 0⟩, .beginAbort 0]).any (fun history =>
        decide (history.manager.versions.pruneCandidates = []) && (history.step (.finishAbort 0)).any fun aborted =>
          decide (∃ reader ∈ aborted.manager.active, aborted.expected reader ⟨4, 0⟩ = some false)) = true := by decide
  obtain ⟨history, executed, found⟩ := (Option.any_eq_true _ _).mp found
  obtain ⟨none, found⟩ := Bool.and_eq_true_iff.mp found
  obtain ⟨aborted, finished, found⟩ := (Option.any_eq_true _ _).mp found
  obtain ⟨reader, active, expects⟩ := of_decide_eq_true found
  have before : system.ReachableBy FirstAbort history :=
    .run (.start ⟨_, rfl⟩) executed (by simp [FirstAbort])
  have reached : system.ReachableBy FirstAbort aborted :=
    .next before (a := .finishAbort 0) (by simp [FirstAbort, of_decide_eq_true none]) finished
  exact ⟨aborted, reached, reader, active, expects, pruning_keeps_visibility reached reader active _ _ expects⟩

def secondAbort : List Action :=
  [.begin 0, .begin 0, .recordInsert 0 ⟨4, 0⟩, .beginAbort 0, .finishAbort 0,
    .begin 0, .recordInsert 2 ⟨4, 0⟩, .begin 0, .beginAbort 2, .finishAbort 2, .commit 1]

theorem second_abort_becomes_visible :
    ∃ history, system.Reachable history ∧ ∃ reader ∈ history.manager.active,
      history.expected reader ⟨4, 0⟩ = some false ∧
      history.manager.versions.isVisibleTo ⟨4, 0⟩ reader.txnId reader.readTs = true := by
  have found : (system.run (SnapshotHistory.start none) secondAbort).any (fun history =>
      decide (∃ reader ∈ history.manager.active, history.expected reader ⟨4, 0⟩ = some false ∧
        history.manager.versions.isVisibleTo ⟨4, 0⟩ reader.txnId reader.readTs = true)) = true := by decide
  obtain ⟨history, executed, found⟩ := (Option.any_eq_true _ _).mp found
  exact ⟨history, .run (.start ⟨_, rfl⟩) executed fun _ _ _ => trivial, of_decide_eq_true found⟩

end

end SnapshotHistory

end SimpleRdbms.Txn
