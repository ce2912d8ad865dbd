import Mathlib.Tactic.Common
import SimpleRdbms.Txn.Manager

namespace SimpleRdbms.Txn

namespace VersionStore
variable {store : VersionStore} {txnId ts : Nat} {rid : Rid} {chain rest : VersionChain} {entry : VersionEntry}

theorem commitVersions_entry (stored : (store.commitVersions txnId ts).chains rid = some chain)
    (member : entry ∈ chain) :
    ∃ before, store.chains rid = some before ∧
      (entry ∈ before ∨ entry.creatorTxnId = txnId ∧ ∃ old ∈ before, old.creatorTxnId = txnId) := by
  unfold commitVersions at stored
  split at stored
  · exact ⟨chain, stored, .inl member⟩
  · simp only [mapChains] at stored
    split at stored
    · obtain ⟨before, present, rfl⟩ := Option.map_eq_some_iff.mp stored
      obtain ⟨old, inChain, rfl⟩ := List.mem_map.mp member
      refine ⟨before, present, ?_⟩
      by_cases mine : old.creatorTxnId = txnId
      · rw [if_pos mine]
        exact .inr ⟨mine, old, inChain, mine⟩
      · rw [if_neg mine]
        exact .inl inChain
    · exact ⟨chain, stored, .inl member⟩

theorem commitVersions_head (stored : store.chains rid = some (entry :: rest)) (other : entry.creatorTxnId ≠ txnId) :
    ∃ rest', (store.commitVersions txnId ts).chains rid = some (entry :: rest') := by
  unfold commitVersions
  split
  · exact ⟨rest, stored⟩
  · simp only [mapChains]
    split
    · exact ⟨VersionChain.markCommitted rest txnId ts, by simp [stored, VersionChain.markCommitted, other]⟩
    · exact ⟨rest, stored⟩

theorem abortVersions_entry (stored : (store.abortVersions txnId ts).chains rid = some chain) (member : entry ∈ chain) :
    ∃ before, store.chains rid = some before ∧ entry ∈ before := by
  unfold abortVersions at stored
  split at stored
  · exact ⟨chain, stored, member⟩
  · simp only [mapChains] at stored
    split at stored
    · obtain ⟨before, present, rfl⟩ := Option.map_eq_some_iff.mp stored
      exact ⟨before, present, List.mem_of_mem_filter member⟩
    · exact ⟨chain, stored, member⟩

theorem abortVersions_head (stored : store.chains rid = some (entry :: rest)) (other : entry.creatorTxnId ≠ txnId) :
    ∃ rest', (store.abortVersions txnId ts).chains rid = some (entry :: rest') := by
  unfold abortVersions
  split
  · exact ⟨rest, stored⟩
  · simp only [mapChains]
    split
    · exact ⟨VersionChain.removeCreator rest txnId, by simp [stored, VersionChain.removeCreator, other]⟩
    · exact ⟨rest, stored⟩

theorem prune_chain (stored : (store.prune ts).chains rid = some chain) : store.chains rid = some chain := by
  simp only [prune] at stored
  split at stored
  · cases stored
  · exact stored

theorem prune_head (stored : store.chains rid = some (entry :: rest)) (uncommitted : entry.beginTs = none) :
    (store.prune ts).chains rid = some (entry :: rest) := by
  simp [prune, stored, VersionChain.isPrunable, uncommitted]

end VersionStore

namespace TransactionManager
variable {manager : TransactionManager} {txnId other : Nat}

def Runs (manager : TransactionManager) (txnId : Nat) : Prop := txnId ∈ manager.active.map Transaction.txnId

theorem runs_of_get {txn : Transaction} (found : manager.get txnId = some txn) : manager.Runs txnId := by
  have same := List.find?_some found
  rw [beq_iff_eq] at same
  exact List.mem_map.mpr ⟨txn, List.mem_of_find?_eq_some found, same⟩

theorem runs_begin (beginLsn : Nat) :
    (manager.begin beginLsn).Runs txnId ↔ txnId = manager.nextTxnId ∨ manager.Runs txnId :=
  List.mem_cons

theorem runs_remove : (manager.remove other).Runs txnId ↔ manager.Runs txnId ∧ txnId ≠ other := by
  simp only [Runs, remove, List.mem_map, List.mem_filter, decide_eq_true_eq]
  constructor
  · rintro ⟨txn, ⟨active, different⟩, rfl⟩
    exact ⟨⟨txn, active, rfl⟩, different⟩
  · rintro ⟨⟨txn, active, rfl⟩, different⟩
    exact ⟨txn, ⟨active, different⟩, rfl⟩

theorem runs_setState (state : TransactionState) : (manager.setState other state).Runs txnId ↔ manager.Runs txnId := by
  have ids : (manager.setState other state).active.map Transaction.txnId = manager.active.map Transaction.txnId := by
    simp only [setState, List.map_map]
    refine List.map_congr_left fun txn _ => ?_
    simp only [Function.comp]
    split <;> rfl
  rw [Runs, ids, Runs]

def recordInserts (manager : TransactionManager) (txnId : Nat) (rids : List Rid) : TransactionManager :=
  rids.foldl (fun manager rid => manager.recordInsert txnId rid) manager

theorem recordInserts_spec (txnId : Nat) (rids : List Rid) :
    (manager.recordInserts txnId rids).nextTxnId = manager.nextTxnId ∧
      (manager.recordInserts txnId rids).active = manager.active ∧
      ∀ rid, (manager.recordInserts txnId rids).versions.chains rid =
        if rid ∈ rids then some (List.replicate (rids.count rid) ⟨txnId, none, none⟩ ++
          (manager.versions.chains rid).getD [])
        else manager.versions.chains rid := by
  induction rids generalizing manager with
  | nil => exact ⟨rfl, rfl, fun _ => rfl⟩
  | cons first rest ih =>
    obtain ⟨next, active, chains⟩ := @ih (manager.recordInsert txnId first)
    refine ⟨next, active, fun rid => (chains rid).trans ?_⟩
    by_cases here : rid = first
    · subst here
      have pushed : (manager.recordInsert txnId rid).versions.chains rid =
          some (⟨txnId, none, none⟩ :: (manager.versions.chains rid).getD []) := Function.update_self _ _ _
      rw [pushed, if_pos List.mem_cons_self, List.count_cons_self, List.replicate_succ']
      split
      · simp
      · rename_i absent
        simp [List.count_eq_zero_of_not_mem absent]
    · have kept : (manager.recordInsert txnId first).versions.chains rid = manager.versions.chains rid :=
        Function.update_of_ne here _ _
      rw [kept, List.count_cons_of_ne (Ne.symm here)]
      simp [here]

end TransactionManager

end SimpleRdbms.Txn
