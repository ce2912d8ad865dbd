import SimpleRdbms.Proof.Snapshots

namespace SimpleRdbms.Txn.SnapshotHistory
open SimpleRdbms.Lib
open Function (update update_eq_self_iff update_of_ne update_self)

inductive Accounted (store : VersionStore) (outcomes : Nat → TxnOutcome) (creators : List Nat) (rid : Rid) :
    VersionChain → Prop
  | unfinished {creator : Nat} {rids : List Rid} : creator ∈ creators → outcomes creator = .unfinished →
      store.writeSets creator = some rids → rid ∈ rids → Accounted store outcomes creators rid [⟨creator, none, none⟩]
  | committed {creator ts : Nat} : creator ∈ creators → outcomes creator = .committed ts →
      (ts, rid) ∈ store.pruneCandidates → Accounted store outcomes creators rid [⟨creator, some ts, none⟩]
  | emptied {ts : Nat} : (ts, rid) ∈ store.pruneCandidates → Accounted store outcomes creators rid []

structure Kept (store : VersionStore) (nextTs : Nat) (outcomes : Nat → TxnOutcome)
    (creators : Rid → List Nat) : Prop where
  chains : ∀ rid chain, store.chains rid = some chain → Accounted store outcomes (creators rid) rid chain
  written : ∀ txnId rids, store.writeSets txnId = some rids → ∀ rid ∈ rids,
    store.chains rid = some [⟨txnId, none, none⟩]
  stamped : ∀ candidate ∈ store.pruneCandidates, candidate.1 ≤ nextTs

section
variable {store : VersionStore} {nextTs txnId : Nat} {outcomes : Nat → TxnOutcome} {creators : Rid → List Nat}

section
variable (kept : Kept store nextTs outcomes creators)
include kept

theorem Kept.later : Kept store (nextTs + 1) outcomes creators :=
  { kept with stamped := fun candidate member => Nat.le_succ_of_le (kept.stamped candidate member) }

theorem Kept.prune (watermark : Nat) : Kept (store.prune watermark) nextTs outcomes creators := by
  refine ⟨fun rid chain stored => ?_, fun other rids written rid member => ?_, fun candidate member =>
    kept.stamped candidate (List.mem_of_mem_filter member)⟩
  all_goals simp only [VersionStore.prune] at *
  · split at stored
    · cases stored
    · rename_i notDue
      have still {ts : Nat} (candidate : (ts, rid) ∈ store.pruneCandidates)
        (prunable : ts ≤ watermark → chain.isPrunable watermark = true) :
          (ts, rid) ∈ store.pruneCandidates.filter (watermark < ·.1) := by
        refine List.mem_filter.mpr ⟨candidate, decide_eq_true (Nat.lt_of_not_le fun due => notDue ⟨?_, ?_⟩)⟩
        · exact List.mem_map.mpr ⟨(ts, rid), List.mem_filter.mpr ⟨candidate, decide_eq_true due⟩, rfl⟩
        · rw [stored]
          exact prunable due
      cases kept.chains rid chain stored with
      | unfinished creator running written member => exact .unfinished creator running written member
      | committed creator outcome candidate =>
        exact .committed creator outcome (still candidate fun due => decide_eq_true due)
      | emptied candidate => exact .emptied (still candidate fun _ => rfl)
  · have stored := kept.written other rids written rid member
    rw [if_neg, stored]
    rintro ⟨-, prunable⟩
    rw [stored] at prunable
    cases prunable

theorem Kept.free {rid : Rid}
    (free : ∀ creator ∈ creators rid, (outcomes creator).isAborted = true) : (store.chains rid).getD [] = [] := by
  cases stored : store.chains rid with
  | none => rfl
  | some chain =>
    cases kept.chains rid chain stored with
    | unfinished creator outcome | committed creator outcome =>
      have aborted := free _ creator
      rw [outcome] at aborted
      cases aborted
    | emptied => rfl

theorem Kept.recordInsert {rid : Rid}
    (running : outcomes txnId = .unfinished) (free : ∀ creator ∈ creators rid, (outcomes creator).isAborted = true) :
    Kept (store.recordInsert txnId rid) nextTs outcomes (update creators rid (txnId :: creators rid)) := by
  have empty := kept.free free
  have chains : (store.recordInsert txnId rid).chains = update store.chains rid (some [⟨txnId, none, none⟩]) := by
    rw [VersionStore.recordInsert, empty]
    rfl
  have sets : (store.recordInsert txnId rid).writeSets =
      update store.writeSets txnId (some ((store.writeSets txnId).getD [] ++ [rid])) := rfl
  refine ⟨fun other chain stored => ?_, fun other rids written row member => ?_, kept.stamped⟩
  · rw [chains] at stored
    by_cases same : other = rid
    · subst same
      rw [update_self] at stored ⊢
      cases stored
      exact .unfinished List.mem_cons_self running (update_self ..) (by simp)
    · rw [update_of_ne same] at stored ⊢
      cases kept.chains other chain stored with
      | @unfinished creator rids isCreator outcome written member =>
        by_cases mine : creator = txnId
        · subst mine
          exact .unfinished isCreator outcome (update_self ..) (by simp [written, member])
        · exact .unfinished isCreator outcome (by rwa [sets, update_of_ne mine]) member
      | committed isCreator outcome candidate => exact .committed isCreator outcome candidate
      | emptied candidate => exact .emptied candidate
  · rw [sets] at written
    rw [chains]
    by_cases mine : other = txnId
    · subst mine
      rw [update_self] at written
      cases written
      by_cases same : row = rid
      · rw [same, update_self]
      · rw [update_of_ne same]
        obtain old | new := List.mem_append.mp member
        · cases set : store.writeSets other with
          | none => simp [set] at old
          | some rids => exact kept.written other rids set row (by simpa [set] using old)
        · exact absurd (List.mem_singleton.mp new) same
    · rw [update_of_ne mine] at written
      have stored := kept.written other rids written row member
      rw [update_of_ne, stored]
      rintro rfl
      rw [stored] at empty
      cases empty

theorem Kept.finish {store' : VersionStore} {nextTs' : Nat} {rids : List Rid} (more : List (Nat × Rid))
    {outcome : TxnOutcome} (later : nextTs ≤ nextTs') (running : outcomes txnId = .unfinished)
    (written : (store.writeSets txnId).getD [] = rids)
    (changed : ∀ rid ∈ rids, txnId ∈ creators rid → ∃ chain, store'.chains rid = some chain ∧
      Accounted store' (update outcomes txnId outcome) (creators rid) rid chain)
    (unchanged : ∀ rid ∉ rids, store'.chains rid = store.chains rid)
    (sets : store'.writeSets = update store.writeSets txnId none)
    (candidates : store'.pruneCandidates = store.pruneCandidates ++ more)
    (stamped : ∀ candidate ∈ more, candidate.1 = nextTs) :
    Kept store' nextTs' (update outcomes txnId outcome) creators := by
  have mine (rid : Rid) (member : rid ∈ rids) : store.chains rid = some [⟨txnId, none, none⟩] := by
    cases set : store.writeSets txnId with
    | none =>
      rw [set] at written
      subst written
      cases member
    | some others =>
      obtain rfl : others = rids := by rwa [set] at written
      exact kept.written txnId others set rid member
  refine ⟨fun rid chain stored => ?_, fun other others isSet rid member => ?_, fun candidate member => ?_⟩
  · by_cases member : rid ∈ rids
    · cases kept.chains rid _ (mine rid member) with
      | unfinished isCreator =>
        obtain ⟨new, isNew, accounted⟩ := changed rid member isCreator
        obtain rfl := Option.some.inj (stored.symm.trans isNew)
        exact accounted
    · rw [unchanged rid member] at stored
      cases kept.chains rid chain stored with
      | @unfinished creator others isCreator running isSet isMember =>
        have apart : creator ≠ txnId := by
          rintro rfl
          rw [isSet] at written
          exact member (written ▸ isMember)
        exact .unfinished isCreator (by rwa [update_of_ne apart])
          (by rw [sets, update_of_ne apart, isSet]) isMember
      | @committed creator ts isCreator isCommitted candidate =>
        have apart : creator ≠ txnId := by
          rintro rfl
          cases running.symm.trans isCommitted
        exact .committed isCreator (by rwa [update_of_ne apart])
          (by rw [candidates]; exact List.mem_append_left _ candidate)
      | emptied candidate => exact .emptied (by rw [candidates]; exact List.mem_append_left _ candidate)
  · rw [sets] at isSet
    have apart : other ≠ txnId := by
      rintro rfl
      simp at isSet
    rw [update_of_ne apart] at isSet
    have stored := kept.written other others isSet rid member
    rw [unchanged rid, stored]
    intro isMine
    have same := (mine rid isMine).symm.trans stored
    simp only [Option.some.injEq, List.cons.injEq, VersionEntry.mk.injEq] at same
    exact apart same.1.1.symm
  · rw [candidates] at member
    rcases List.mem_append.mp member with old | new
    · exact Nat.le_trans (kept.stamped candidate old) later
    · exact stamped candidate new ▸ later

theorem Kept.commit (running : outcomes txnId = .unfinished) :
    Kept (store.commitVersions txnId nextTs) (nextTs + 1) (update outcomes txnId (.committed nextTs)) creators := by
  unfold VersionStore.commitVersions
  cases set : store.writeSets txnId with
  | none =>
    exact kept.finish [] (Nat.le_succ _) running (congrArg (·.getD []) set) (by simp) (fun _ _ => rfl)
      (update_eq_self_iff.mpr set.symm).symm (List.append_nil _).symm (by simp)
  | some rids =>
    refine kept.finish _ (Nat.le_succ _) running (congrArg (·.getD []) set) (fun rid member isCreator => ?_)
      (fun rid other => if_neg other)
      rfl rfl ?_
    · refine ⟨[⟨txnId, some nextTs, none⟩], ?_, .committed isCreator (update_self ..) (by simp [member])⟩
      simp [VersionStore.mapChains, member, kept.written txnId rids set rid member, VersionChain.markCommitted]
    · simp

theorem Kept.abort (running : outcomes txnId = .unfinished) (witnesses : List Nat) :
    Kept (store.abortVersions txnId nextTs) nextTs (update outcomes txnId (.aborted witnesses)) creators := by
  unfold VersionStore.abortVersions
  cases set : store.writeSets txnId with
  | none =>
    exact kept.finish [] (Nat.le_refl _) running (congrArg (·.getD []) set) (by simp) (fun _ _ => rfl)
      (update_eq_self_iff.mpr set.symm).symm (List.append_nil _).symm (by simp)
  | some rids =>
    have emptied (rid : Rid) (member : rid ∈ rids) :
        VersionStore.mapChains store.chains rids (VersionChain.removeCreator · txnId) rid = some [] := by
      simp [VersionStore.mapChains, member, kept.written txnId rids set rid member, VersionChain.removeCreator]
    refine kept.finish _ (Nat.le_refl _) running (congrArg (·.getD []) set) (fun rid member isCreator => ?_)
      (fun rid other => if_neg other)
      rfl rfl ?_
    · exact ⟨[], emptied rid member, .emptied (List.mem_append_right _ (List.mem_map.mpr
        ⟨rid, List.mem_filter.mpr ⟨member, beq_iff_eq.mpr (emptied rid member)⟩, rfl⟩))⟩
    · intro candidate member
      obtain ⟨_, _, rfl⟩ := List.mem_map.mp member
      rfl

end

end

structure Bookkept (history : SnapshotHistory) : Prop where
  kept : Kept history.manager.versions history.manager.nextTs history.outcomes history.creators
  writing : ∀ txnId rids, history.manager.versions.writeSets txnId = some rids →
    ∃ txn ∈ history.manager.active, txn.txnId = txnId
  running : ∀ txn ∈ history.manager.active, history.outcomes txn.txnId = .unfinished ∧
    txn.txnId < history.manager.nextTxnId
  fresh : ∀ txnId, history.manager.nextTxnId ≤ txnId → history.outcomes txnId = .unfinished

variable {history next : SnapshotHistory} {a : Action}

theorem Bookkept.setState (bookkept : Bookkept history) (txnId : Nat) (state : TransactionState) :
    Bookkept { history with manager := history.manager.setState txnId state } := by
  have same : (history.manager.setState txnId state).active.map (·.txnId) = history.manager.active.map (·.txnId) := by
    rw [TransactionManager.setState, List.map_map]
    refine List.map_congr_left fun txn _ => ?_
    dsimp only [Function.comp_apply]
    split <;> rfl
  have ids (id : Nat) : (∃ txn ∈ (history.manager.setState txnId state).active, txn.txnId = id) ↔
      ∃ txn ∈ history.manager.active, txn.txnId = id := by
    rw [← List.mem_map, ← List.mem_map, same]
  refine ⟨bookkept.kept, fun other rids written => (ids other).mpr (bookkept.writing other rids written),
    fun txn member => ?_, bookkept.fresh⟩
  obtain ⟨old, wasActive, id⟩ := (ids txn.txnId).mp ⟨txn, member, rfl⟩
  exact id ▸ bookkept.running old wasActive

theorem Bookkept.finish (bookkept : Bookkept history) {txnId nextTs watermark : Nat} {store : VersionStore}
    {outcome : TxnOutcome} (kept : Kept store nextTs (update history.outcomes txnId outcome) history.creators)
    (sets : store.writeSets = update history.manager.versions.writeSets txnId none)
    (past : txnId < history.manager.nextTxnId) :
    Bookkept { history with
      manager := { history.manager.remove txnId with versions := store.prune watermark, nextTs }
      outcomes := update history.outcomes txnId outcome } where
  kept := kept.prune watermark
  writing other rids written := by
    change store.writeSets other = some rids at written
    rw [sets] at written
    have apart : other ≠ txnId := by
      rintro rfl
      simp at written
    rw [update_of_ne apart] at written
    obtain ⟨txn, member, rfl⟩ := bookkept.writing other rids written
    exact ⟨txn, List.mem_filter.mpr ⟨member, by simpa using apart⟩, rfl⟩
  running txn member := by
    obtain ⟨wasActive, apart⟩ := List.mem_filter.mp member
    dsimp only
    rw [update_of_ne (by simpa using apart)]
    exact bookkept.running txn wasActive
  fresh other later := by
    have apart : other ≠ txnId := fun same => by
      subst same
      exact absurd past (Nat.not_lt.mpr later)
    dsimp only
    rw [update_of_ne apart]
    exact bookkept.fresh other later

theorem Bookkept.step (bookkept : Bookkept history) (stepped : history.step a = some next) : Bookkept next := by
  have running {txn : Transaction} (found : history.manager.get txn.txnId = some txn) :=
    bookkept.running txn (mem_of_get found).1
  cases steps_of_step stepped with
  | begin =>
    refine ⟨bookkept.kept.later, fun txnId rids written => ?_, List.forall_mem_cons.mpr ⟨?_, fun txn member => ?_⟩,
      fun txnId later => ?_⟩
    · obtain ⟨txn, member, same⟩ := bookkept.writing txnId rids written
      exact ⟨txn, List.mem_cons_of_mem _ member, same⟩
    · exact ⟨bookkept.fresh _ (Nat.le_refl _), Nat.lt_succ_self _⟩
    · have := bookkept.running txn member
      exact ⟨this.1, Nat.lt_succ_of_lt this.2⟩
    · exact bookkept.fresh txnId (Nat.le_of_succ_le later)
  | @recordInsert txn rid found free =>
    refine ⟨bookkept.kept.recordInsert (running found).1 free, fun txnId rids written => ?_, bookkept.running,
      bookkept.fresh⟩
    by_cases mine : txnId = txn.txnId
    · exact ⟨txn, (mem_of_get found).1, mine.symm⟩
    · exact bookkept.writing txnId rids ((update_of_ne mine _ _).symm.trans written)
  | commit found =>
    exact bookkept.finish (bookkept.kept.commit (running found).1) (commitVersions_writeSets _ _ _) (running found).2
  | finishAbort found =>
    exact bookkept.finish (bookkept.kept.abort (running found).1 _) (abortVersions_writeSets _ _ _) (running found).2
  | setState => exact bookkept.setState _ _

theorem bookkept_of_reachable (reached : system.Reachable history) : Bookkept history := by
  refine reached.invariant (P := Bookkept) ?_ fun _ _ _ bookkept _ stepped => bookkept.step stepped
  rintro _ ⟨highestSeen, rfl⟩
  exact ⟨⟨nofun, nofun, nofun⟩, nofun, nofun, fun _ _ => rfl⟩

theorem pruneVersions_idle {manager : TransactionManager} (idle : manager.active = []) :
    ∀ candidate ∈ manager.pruneVersions.versions.pruneCandidates, manager.nextTs < candidate.1 := by
  have watermark : manager.oldestActiveReadTs = manager.nextTs := by
    rw [TransactionManager.oldestActiveReadTs, idle]
    rfl
  intro candidate member
  have later := (List.mem_filter.mp member).2
  rw [watermark] at later
  exact of_decide_eq_true later

theorem Bookkept.settled (bookkept : Bookkept history) (idle : history.manager.active = [])
    (pruned : ∀ candidate ∈ history.manager.versions.pruneCandidates, history.manager.nextTs < candidate.1) :
    (∀ rid, history.manager.versions.chains rid = none) ∧ (∀ txnId, history.manager.versions.writeSets txnId = none) ∧
      history.manager.versions.pruneCandidates = [] := by
  have candidates : history.manager.versions.pruneCandidates = [] := by
    refine List.eq_nil_iff_forall_not_mem.mpr fun candidate member => ?_
    exact Nat.lt_irrefl _ (Nat.lt_of_lt_of_le (pruned candidate member) (bookkept.kept.stamped candidate member))
  have sets (txnId : Nat) : history.manager.versions.writeSets txnId = none := by
    cases set : history.manager.versions.writeSets txnId with
    | none => rfl
    | some rids =>
      obtain ⟨txn, member, -⟩ := bookkept.writing txnId rids set
      rw [idle] at member
      cases member
  refine ⟨fun rid => ?_, sets, candidates⟩
  cases stored : history.manager.versions.chains rid with
  | none => rfl
  | some chain =>
    cases bookkept.kept.chains rid chain stored with
    | unfinished _ _ written =>
      rw [sets] at written
      cases written
    | committed _ _ candidate | emptied candidate =>
      rw [candidates] at candidate
      cases candidate

/-- Every chain belongs to an active transaction or waits to be pruned; in the end nothing is left. -/
theorem version_bookkeeping_bounded (reached : system.Reachable history) :
    (∀ rid chain, history.manager.versions.chains rid = some chain →
      (∃ txn ∈ history.manager.active, ∃ rids, history.manager.versions.writeSets txn.txnId = some rids ∧ rid ∈ rids) ∨
        ∃ ts, (ts, rid) ∈ history.manager.versions.pruneCandidates) ∧
    (∀ txnId rids, history.manager.versions.writeSets txnId = some rids →
      ∃ txn ∈ history.manager.active, txn.txnId = txnId) ∧
    ∀ txnId a next, a = .commit txnId ∨ a = .finishAbort txnId → history.step a = some next → next.manager.active = [] →
      (∀ rid, next.manager.versions.chains rid = none) ∧ (∀ txnId, next.manager.versions.writeSets txnId = none) ∧
        next.manager.versions.pruneCandidates = [] := by
  have bookkept := bookkept_of_reachable reached
  refine ⟨fun rid chain stored => ?_, bookkept.writing, fun txnId a next ends stepped idle => ?_⟩
  · cases bookkept.kept.chains rid chain stored with
    | unfinished _ _ written member =>
      obtain ⟨txn, active, rfl⟩ := bookkept.writing _ _ written
      exact .inl ⟨txn, active, _, written, member⟩
    | committed _ _ candidate | emptied candidate => exact .inr ⟨_, candidate⟩
  · refine (bookkept.step stepped).settled idle ?_
    cases steps_of_step stepped with
    | commit | finishAbort => exact pruneVersions_idle idle
    | setState other =>
      rcases ends with rfl | rfl
      · exact absurd rfl (other txnId).1
      · exact absurd rfl (other txnId).2
    | begin | recordInsert => rcases ends with same | same <;> cases same

theorem version_bookkeeping_bounded_commit :
    ∃ history next, system.Reachable history ∧ history.step (.commit 0) = some next ∧
      history.manager.versions.pruneCandidates = [] ∧ (∃ chain, history.manager.versions.chains ⟨1, 0⟩ = some chain) ∧
      ∀ rid, next.manager.versions.chains rid = none := by
  have begun : system.Reachable _ := .next (a := .begin 8) (.start ⟨none, rfl⟩) trivial rfl
  have recorded {history : SnapshotHistory} (reached : system.Reachable history)
    (active : (history.manager.get 0).isSome)
      (free : history.creators ⟨1, 0⟩ = []) : system.Reachable { history with
        manager := history.manager.recordInsert 0 ⟨1, 0⟩
        creators := update history.creators ⟨1, 0⟩ (0 :: history.creators ⟨1, 0⟩) } :=
    .next (a := .recordInsert 0 ⟨1, 0⟩) reached trivial (if_pos (c := _ ∧ _) ⟨active, by simp [free]⟩)
  have written := recorded begun rfl rfl
  exact ⟨_, _, written, rfl, rfl, ⟨_, rfl⟩, ((version_bookkeeping_bounded written).2.2 0 _ _ (.inl rfl) rfl rfl).1⟩

end SimpleRdbms.Txn.SnapshotHistory
