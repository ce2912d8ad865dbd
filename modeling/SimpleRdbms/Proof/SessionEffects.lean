import SimpleRdbms.Proof.FailedWrites

namespace SimpleRdbms.Engine
open SimpleRdbms.Txn
open Function (update)

variable {Sql Value Query Data : Type} {contents : Contents Data}

/-- `own` is the transaction that may write or commit. -/
structure Moves (contents : Contents Data) (own : Option Nat) (live live' : Nat → Prop) (s s' : EngineState Data) : Prop
    extends Keeps s s' where
  gone : ∀ txnId < s.txns.nextTxnId, own ≠ some txnId → contents.Gone s.data txnId → contents.Gone s'.data txnId
  held : ∀ txnId < s.txns.nextTxnId, own ≠ some txnId → contents.Held s txnId → contents.Held s' txnId
  attributed : Attributed contents live s.data s.txns → Attributed contents live' s'.data s'.txns

namespace Moves
variable {own : Option Nat} {live live' live'' : Nat → Prop} {s s' s'' : EngineState Data} {txnId : Nat}

theorem refl (s : EngineState Data) : Moves contents own live live s s :=
  ⟨.refl s, fun _ _ _ gone => gone, fun _ _ _ held => held, id⟩

theorem trans (first : Moves contents own live live' s s') (second : Moves contents own live' live'' s' s'') :
    Moves contents own live live'' s s'' where
  toKeeps := first.toKeeps.trans second.toKeeps
  gone txnId begun other gone :=
    second.gone txnId (Nat.lt_of_lt_of_le begun first.nextTxn) other (first.gone txnId begun other gone)
  held txnId begun other held :=
    second.held txnId (Nat.lt_of_lt_of_le begun first.nextTxn) other (first.held txnId begun other held)
  attributed attributed := second.attributed (first.attributed attributed)

theorem weaken (moves : Moves contents none live live' s s') : Moves contents own live live' s s' :=
  { moves with
    gone := fun txnId begun _ => moves.gone txnId begun (by simp)
    held := fun txnId begun _ => moves.held txnId begun (by simp) }

theorem new (moves : Moves contents (some txnId) live live' s s') (fresh : s.txns.nextTxnId ≤ txnId) :
    Moves contents none live live' s s' where
  toKeeps := moves.toKeeps
  gone other begun _ := moves.gone other begun fun same => absurd (Option.some.inj same) (by omega)
  held other begun _ := moves.held other begun fun same => absurd (Option.some.inj same) (by omega)
  attributed := moves.attributed

theorem fewer (moves : Moves contents own live live' s s')
    (fewer : Attributed contents live s.data s.txns → ∀ txnId, live'' txnId → live' txnId) :
    Moves contents own live live'' s s' :=
  { moves with attributed := fun attributed => (moves.attributed attributed).fewer (fewer attributed) }

theorem ofFewer (moves : Moves contents own live' live'' s s') (fewer : ∀ txnId, live' txnId → live txnId) :
    Moves contents own live live'' s s' :=
  { moves with attributed := fun attributed => moves.attributed (attributed.fewer fewer) }

theorem setSlot {session : Nat} {slot : TxnSlot} (moves : Moves contents own live live' s s') :
    Moves contents own live live' s (Backend.setSlot s' session slot) :=
  ⟨moves.toKeeps.setSlot, moves.gone, moves.held, moves.attributed⟩

end Moves

namespace Backend
variable {B : Backend Sql Value Query Data} {s : EngineState Data} {own : Option Nat} {live : Nat → Prop}

theorem setData_moves {data : Data} (quiet : contents.Quiet s.data data) :
    Moves contents own live live s (B.setData s data) where
  toKeeps := setData_keeps data
  gone txnId _ _ gone := quiet.gone txnId gone
  held _ _ _ held := held.imp_right fun none_ => quiet.row ▸ none_
  attributed attributed := attributed.quiet quiet.row

variable (faithful : contents.Faithful B)
include faithful

theorem beginTxn_moves :
    Moves contents own live (fun txnId => live txnId ∨ txnId = s.txns.nextTxnId) s (B.beginTxn s) where
  toKeeps := beginTxn_keeps
  gone txnId _ _ gone := (faithful.logBegin _ _).quiet.gone txnId gone
  held txnId _ _ held := by
    refine held.imp (fun runs => (TransactionManager.runs_begin 0).mpr (.inr runs)) fun none_ => ?_
    exact (faithful.logBegin s.data s.txns.nextTxnId).row ▸ none_
  attributed attributed := (attributed.quiet (faithful.logBegin _ _).row).begin

theorem commitTxn_moves {txnId : Nat} (isLive : live txnId) :
    Moves contents (some txnId) live
      (fun other => live other ∧ (succeeded (B.commitTxn s txnId).2 = true → other ≠ txnId)) s
        (B.commitTxn s txnId).1 := by
  have quiet := (faithful.flushCommit s.data txnId).quiet
  unfold commitTxn
  split
  · exact (Moves.refl s).fewer fun _ _ => And.left
  · split
    · exact (Moves.refl s).fewer fun _ _ => And.left
    · dsimp only
      split
      · refine ⟨⟨Nat.le_refl _, fun poisoned => by simp [releaseLocks, setData, poisoned]⟩,
          fun other _ _ gone => quiet.gone other gone, fun other _ different held => ?_, fun attributed => ?_⟩
        · refine held.imp (fun runs => ?_) fun none_ => quiet.row ▸ none_
          exact TransactionManager.runs_remove.mpr ⟨runs, fun same => different (congrArg some same.symm)⟩
        · exact ((attributed.quiet quiet.row).finishCommit isLive).fewer fun other kept => ⟨kept.1, kept.2 rfl⟩
      · exact (setData_moves quiet).fewer fun _ _ => And.left

theorem abortTxn_moves {txnId : Nat} (dead : ¬live txnId) : Moves contents own live live s (B.abortTxn s txnId).1 := by
  have undid := faithful.undo s.data txnId
  have rows : ∀ other, (∀ rid, contents.row s.data rid ≠ some other) →
      ∀ rid, contents.row (B.undo s.data txnId).1 rid ≠ some other := by
    intro other none_ rid stored
    rcases undid.row rid with same | ⟨-, removed⟩
    · exact none_ rid (same ▸ stored)
    · rw [removed] at stored
      cases stored
  have gone : ∀ other, contents.Gone s.data other → contents.Gone (B.undo s.data txnId).1 other := fun other gone =>
    ⟨rows other gone.1, fun stored => gone.2.1 (undid.stored other stored), undid.defined ▸ gone.2.2⟩
  unfold abortTxn
  split
  · exact Moves.refl s
  · rename_i txn found
    have runs := TransactionManager.runs_of_get found
    split
    · exact Moves.refl s
    · dsimp only
      split
      · rename_i undone
        refine ⟨⟨Nat.le_refl _, fun poisoned => by simp [releaseLocks, setData, poisoned]⟩,
          fun other _ _ => gone other, fun other _ _ held => ?_,
          fun attributed => ((attributed.setState .aborted).undo ?_ dead undid).finishAbort dead⟩
        · by_cases mine : other = txnId
          · exact .inr (mine ▸ (undid.whole undone).1)
          · refine held.imp (fun running => ?_) (rows other)
            exact TransactionManager.runs_remove.mpr ⟨(TransactionManager.runs_setState .aborted).mpr running, mine⟩
        · exact (TransactionManager.runs_setState .aborted).mpr runs
      · refine ⟨⟨Nat.le_refl _, fun poisoned => by simp [setData, poisoned]⟩, fun other _ _ => gone other,
          fun other _ _ held => held.imp (fun running => ?_) (rows other),
          fun attributed => ((attributed.undo runs dead undid).setState .aborted).setState .growing⟩
        exact (TransactionManager.runs_setState .growing).mpr ((TransactionManager.runs_setState .aborted).mpr running)

theorem runStatement_moves {txnId : Nat} (isLive : live txnId) (query : Query) :
    Moves contents (some txnId) live
      (fun other => live other ∧ ((B.runStatement s txnId query).2 = true ∨ other ≠ txnId)) s
      (B.runStatement s txnId query).1 := by
  have wrote := faithful.execute s.data s.txns txnId query
  obtain ⟨next, active, -⟩ := @TransactionManager.recordInserts_spec s.txns txnId
    (B.execute s.data s.txns txnId query).inserted
  have rows : ∀ other, other ≠ txnId → (∀ rid, contents.row s.data rid ≠ some other) →
      ∀ rid, contents.row (B.execute s.data s.txns txnId query).data rid ≠ some other := by
    intro other different none_ rid stored
    rcases wrote.row rid with same | ⟨-, mine⟩
    · exact none_ rid (same ▸ stored)
    · exact different (Option.some.inj (stored.symm.trans mine))
  have others : ∀ other, some txnId ≠ some other → other ≠ txnId := fun other different same =>
    different (congrArg some same.symm)
  refine ⟨⟨Nat.le_of_eq next.symm, fun poisoned => by simp [runStatement, setData, poisoned]⟩,
    fun other _ different gone => ?_, fun other _ different held => ?_, fun attributed =>
      attributed.execute isLive wrote⟩
  · have different := others other different
    exact ⟨rows other different gone.1, fun stored => gone.2.1 (wrote.stored other different stored),
      fun defined => gone.2.2 (wrote.defined other different defined)⟩
  · refine held.imp (fun runs => ?_) (rows other (others other different))
    rw [TransactionManager.Runs, ← active] at runs
    exact runs

theorem inOwnTxn_moves {work : Data → Nat → Data × Bool}
    (quiet : ∀ data txnId, contents.Quiet data (work data txnId).1) :
    Moves contents own live live s (B.inOwnTxn work s).1 := by
  refine Moves.weaken ?_
  have worked : Moves contents (some s.txns.nextTxnId) live (fun txnId => live txnId ∨ txnId = s.txns.nextTxnId) s
      (B.setData (B.beginTxn s) (work (B.beginTxn s).data s.txns.nextTxnId).1) :=
    (beginTxn_moves faithful).trans (setData_moves (quiet _ _))
  unfold inOwnTxn
  dsimp only
  split
  · have ended := worked.trans (commitTxn_moves faithful (.inr rfl))
    refine (ended.fewer fun attributed txnId isLive => ⟨.inl isLive, fun _ => ?_⟩).new (Nat.le_refl _)
    exact Nat.ne_of_lt (attributed.runs txnId (attributed.liveRuns txnId isLive))
  · exact (worked.fewer fun _ _ => .inl).new (Nat.le_refl _)

theorem reloadCatalog_moves : Moves contents own live live s (B.reloadCatalog s).1 :=
  inOwnTxn_moves faithful fun data txnId => (faithful.reload data txnId).quiet

theorem maybeCheckpoint_moves : Moves contents own live live s (B.maybeCheckpoint s) := by
  have recorded : Moves contents own live live s (B.setData s (B.recordCheckpoint s.data).1) :=
    setData_moves (faithful.recordCheckpoint _).quiet
  unfold maybeCheckpoint
  split
  · exact Moves.refl s
  · dsimp only
    split
    · have headed := recorded.trans (inOwnTxn_moves faithful fun data lsn =>
        (faithful.setLastCheckpointLsn data lsn).quiet)
      split
      · exact headed.trans (setData_moves (faithful.finishCheckpoint _).quiet)
      · exact headed
    · exact recorded

theorem abandon_moves {txnId : Nat} (dead : ¬live txnId) : Moves contents own live live s (B.abandon s txnId) :=
  (abortTxn_moves faithful dead).trans (reloadCatalog_moves faithful)

theorem abortTxn_undone {txnId : Nat} (aborted : succeeded (B.abortTxn s txnId).2 = true) :
    (∀ rid, contents.row (B.abortTxn s txnId).1.data rid ≠ some txnId) ∧
      ¬contents.stored (B.abortTxn s txnId).1.data txnId := by
  revert aborted
  unfold abortTxn
  split
  · exact fun failed => absurd failed Bool.false_ne_true
  · split
    · exact fun failed => absurd failed Bool.false_ne_true
    · dsimp only
      split
      · rename_i undone
        exact fun _ => (faithful.undo s.data txnId).whole undone
      · exact fun failed => absurd failed Bool.false_ne_true

theorem reloadCatalog_gone {txnId : Nat} (begun : txnId < s.txns.nextTxnId)
    (noRows : ∀ rid, contents.row s.data rid ≠ some txnId) (noTables : ¬contents.stored s.data txnId)
    (reloaded : succeeded (B.reloadCatalog s).2 = true) : contents.Gone (B.reloadCatalog s).1.data txnId := by
  have log := faithful.logBegin s.data s.txns.nextTxnId
  have read := faithful.reload (B.beginTxn s).data s.txns.nextTxnId
  revert reloaded
  unfold reloadCatalog inOwnTxn
  dsimp only
  split
  · rename_i worked
    intro _
    have commits : Moves contents (some s.txns.nextTxnId) (fun _ => True) _
        (B.setData (B.beginTxn s) (B.reload (B.beginTxn s).data s.txns.nextTxnId).1) _ :=
      commitTxn_moves faithful trivial
    refine commits.gone txnId (Nat.lt_succ_of_lt begun) (fun same => absurd (Option.some.inj same) (by omega)) ?_
    change contents.Gone (B.reload (B.beginTxn s).data s.txns.nextTxnId).1 txnId
    rw [Contents.Gone, read.row, read.stored, read.defined, if_pos worked]
    change (∀ rid, contents.row (B.logBegin _ _) rid ≠ _) ∧ ¬contents.stored (B.logBegin _ _) _ ∧
      ¬contents.stored (B.logBegin _ _) _
    rw [log.row, log.stored]
    exact ⟨noRows, noTables, noTables⟩
  · exact fun failed => absurd failed Bool.false_ne_true

theorem endByAbort_gone {session txnId : Nat} (begun : txnId < s.txns.nextTxnId)
    (ended : succeeded (B.endByAbort s session txnId).2 = true) :
    contents.Gone (B.endByAbort s session txnId).1.data txnId := by
  unfold endByAbort andThen at ended ⊢
  cases aborted : (B.abortTxn s txnId).2 with
  | error err => simp [aborted, succeeded] at ended
  | ok _ =>
    cases reloaded : (B.reloadCatalog (B.abortTxn s txnId).1).2 with
    | error err => simp [aborted, reloaded, succeeded] at ended
    | ok _ =>
      obtain ⟨noRows, noTables⟩ :=
        abortTxn_undone faithful (show succeeded (B.abortTxn s txnId).2 = true by rw [aborted]; rfl)
      have gone := reloadCatalog_gone faithful (Nat.lt_of_lt_of_le begun (abortTxn_keeps txnId).nextTxn) noRows noTables
        (by rw [reloaded]; rfl)
      have later := Nat.lt_of_lt_of_le begun (abandon_keeps (B := B) (s := s) txnId).nextTxn
      have checkpointed : Moves contents none (fun _ => False) (fun _ => False)
          (setSlot (B.reloadCatalog (B.abortTxn s txnId).1).1 session .none) _ := maybeCheckpoint_moves faithful
      simp only [reloaded]
      exact checkpointed.gone txnId later (by simp) gone

end Backend

def EngineState.Live (s : EngineState Data) (txnId : Nat) : Prop := ∃ session, s.slots session = .active txnId

def EngineState.Alone (s : EngineState Data) (session : Nat) : Prop :=
  ∀ other txnId, (s.slots session).txnId = some txnId → s.slots other = .active txnId → other = session

inductive SlotChange (s s' : EngineState Data) : TxnSlot → TxnSlot → Bool → Prop where
  | same (slot : TxnSlot) (ok : Bool) : SlotChange s s' slot slot ok
  | opened (slot : TxnSlot) (empty : slot.txnId = none) (begun : s.txns.nextTxnId < s'.txns.nextTxnId) :
      SlotChange s s' slot (.active s.txns.nextTxnId) true
  | failed (txnId : Nat) (runs : s.txns.Runs txnId → s'.txns.Runs txnId) :
      SlotChange s s' (.active txnId) (.aborted txnId) false
  | ended (txnId : Nat) (slot slot' : TxnSlot) (old : slot.txnId = some txnId) (empty : slot'.txnId = none) :
      SlotChange s s' slot slot' true
  | woken : SlotChange s s' .timedOut .none false

structure Effect (contents : Contents Data) (session : Nat) (s s' : EngineState Data) (ok : Bool) : Prop where
  others : ∀ other, other ≠ session → s'.slots other = s.slots other
  change : SlotChange s s' (s.slots session) (s'.slots session) ok
  moves : ∃ own, Moves contents own s.Live s'.Live s s' ∧
    ∀ txnId, own = some txnId → s.slots session = .active txnId ∧ s.flushPoisoned = false

section Effect
variable {s s' : EngineState Data} {session : Nat} {ok : Bool} {own : Option Nat}

theorem Effect.keeps (effect : Effect contents session s s' ok) : Keeps s s' := by
  obtain ⟨own, moves, -⟩ := effect.moves
  exact moves.toKeeps

theorem Effect.unchanged (moves : Moves contents own s.Live s.Live s s') (slots : s'.slots = s.slots)
    (mine : ∀ txnId, own = some txnId → s.slots session = .active txnId ∧ s.flushPoisoned = false) :
    Effect contents session s s' ok where
  others other _ := by rw [slots]
  change := slots ▸ .same _ _
  moves := ⟨own, moves.fewer fun _ txnId => by rw [EngineState.Live, slots]; exact id, mine⟩

theorem owns_none (txnId : Nat) (none_ : none = some txnId) :
    s.slots session = .active txnId ∧ s.flushPoisoned = false := by
  cases none_

theorem Effect.refl (s : EngineState Data) : Effect contents session s s ok :=
  .unchanged (.refl s) rfl owns_none

theorem Effect.moved {live : Nat → Prop} (slot : TxnSlot) (slots : s'.slots = update s.slots session slot)
    (moves : Moves contents own s.Live live s s')
    (mine : ∀ txnId, own = some txnId → s.slots session = .active txnId ∧ s.flushPoisoned = false)
    (change : SlotChange s s' (s.slots session) slot ok)
    (here : Attributed contents s.Live s.data s.txns → ∀ txnId, slot = .active txnId → live txnId)
    (there : ∀ other txnId, other ≠ session → s.slots other = .active txnId → live txnId) :
    Effect contents session s s' ok where
  others other different := by rw [slots, Function.update_of_ne different]
  change := by rwa [slots, Function.update_self]
  moves := by
    refine ⟨own, moves.fewer fun attributed txnId => ?_, mine⟩
    rintro ⟨other, active⟩
    rw [slots] at active
    by_cases same : other = session
    · rw [same, Function.update_self] at active
      exact here attributed txnId active
    · rw [Function.update_of_ne same] at active
      exact there other txnId same active

end Effect

namespace Backend
variable {B : Backend Sql Value Query Data} {s : EngineState Data} {session txnId : Nat}

section
variable (faithful : contents.Faithful B)
include faithful

theorem handleBegin_effect (session : Nat) :
    Effect contents session s (B.handleBegin s session).1 (succeeded (B.handleBegin s session).2) := by
  unfold handleBegin
  split
  · exact .refl s
  · rename_i empty
    refine .moved _ rfl (beginTxn_moves faithful).setSlot owns_none
      (.opened _ empty (Nat.lt_succ_self _)) (fun _ txnId active => ?_) fun other txnId _ active => .inl ⟨other, active⟩
    exact .inr (TxnSlot.active.inj active).symm

theorem ending_moves (alone : s.Alone session) (held : (s.slots session).txnId = some txnId) :
    Moves contents none s.Live (fun other => s.Live other ∧ other ≠ txnId) s (B.abandon s txnId) ∧
      ∀ other id, other ≠ session → s.slots other = .active id → s.Live id ∧ id ≠ txnId := by
  refine ⟨?_, fun other id different active => ⟨⟨other, active⟩, fun same => ?_⟩⟩
  · exact (abandon_moves faithful fun isLive => isLive.2 rfl).ofFewer fun _ => And.left
  · exact different (alone other txnId held (same ▸ active))

theorem endByAbort_effect (alone : s.Alone session) (held : (s.slots session).txnId = some txnId)
    (safe : s.slots session = .active txnId → B.canRollBack s txnId = true) :
    Effect contents session s (B.endByAbort s session txnId).1 (succeeded (B.endByAbort s session txnId).2) := by
  obtain ⟨ends, others⟩ := ending_moves faithful alone held
  have failing : B.canRollBack s txnId = false → ∀ id, s.Live id → s.Live id ∧ id ≠ txnId := by
    rintro fails id ⟨other, active⟩
    refine ⟨⟨other, active⟩, fun same => ?_⟩
    rw [same] at active
    have here := alone other txnId held active
    rw [here] at active
    exact absurd (fails.symm.trans (safe active)) Bool.false_ne_true
  rw [← succeeded_endByAbort session] at failing
  unfold endByAbort andThen at failing ⊢
  cases aborted : (B.abortTxn s txnId).2 with
  | error err =>
    simp only [aborted, succeeded, true_implies] at failing
    refine .unchanged ?_ (abortTxn_slots txnId) owns_none
    refine Moves.fewer (Moves.ofFewer (abortTxn_moves faithful ?_) fun _ => And.left) fun _ => failing
    exact fun isLive => isLive.2 rfl
  | ok _ =>
    simp only [aborted] at failing
    cases reloaded : (B.reloadCatalog (B.abortTxn s txnId).1).2 with
    | error err =>
      simp only [reloaded, succeeded, true_implies] at failing
      simp only [reloaded]
      exact .unchanged (ends.fewer fun _ => failing) (abandon_slots txnId) owns_none
    | ok _ =>
      simp only [reloaded]
      refine .moved .none ?_ (ends.setSlot.trans (maybeCheckpoint_moves faithful)) owns_none
        (.ended txnId _ .none held rfl) (fun _ id active => by cases active) others
      rw [maybeCheckpoint_slots]
      exact congrArg (update · session .none) (abandon_slots txnId)

theorem handleRollback_effect (alone : s.Alone session)
    (safe : ∀ txnId, s.slots session = .active txnId → B.canRollBack s txnId = true) :
    Effect contents session s (B.handleRollback s session).1 (succeeded (B.handleRollback s session).2) := by
  unfold handleRollback
  split
  · exact .refl s
  · rename_i txnId held
    exact endByAbort_effect faithful alone held (safe txnId)

theorem handleCommit_effect (alone : s.Alone session) (healthy : s.flushPoisoned = false) :
    Effect contents session s (B.handleCommit s session).1 (succeeded (B.handleCommit s session).2) := by
  unfold handleCommit
  split
  · exact .refl s
  · exact .refl s
  · rename_i txnId slot
    exact endByAbort_effect faithful alone (by rw [slot]; rfl) (by simp [slot])
  · rename_i txnId slot
    have commits : Moves contents (some txnId) s.Live _ s _ := commitTxn_moves faithful ⟨session, slot⟩
    have mine : ∀ id, some txnId = some id → s.slots session = .active id ∧ s.flushPoisoned = false :=
      fun id same => ⟨Option.some.inj same ▸ slot, healthy⟩
    unfold andThen
    cases committed : (B.commitTxn s txnId).2 with
    | error err =>
      refine .unchanged (commits.fewer fun _ id isLive => ⟨isLive, ?_⟩) (commitTxn_slots txnId) mine
      simp [committed, succeeded]
    | ok _ =>
      refine .moved .none ?_ (commits.setSlot.trans (maybeCheckpoint_moves faithful)) mine
        (.ended txnId _ .none (by rw [slot]; rfl) rfl)
          (fun _ id active => by cases active) fun other id different active =>
          ⟨⟨other, active⟩, fun _ same => different (alone other txnId (by rw [slot]; rfl) (same ▸ active))⟩
      dsimp only
      rw [maybeCheckpoint_slots]
      exact congrArg (update · session .none) (commitTxn_slots txnId)

theorem autocommit_effect (query : Query) :
    let run := B.runStatement (B.beginTxn s) s.txns.nextTxnId query
    let outcome : Outcome Data Unit :=
      if run.2 then andThen (B.commitTxn run.1 s.txns.nextTxnId) fun committed => (B.maybeCheckpoint committed, .ok ())
      else ((B.reloadCatalog (B.abortTxn run.1 s.txns.nextTxnId).1).1, .error .statement)
    Effect contents session s outcome.1 (succeeded outcome.2) := by
  have older : Attributed contents s.Live s.data s.txns → ∀ id, s.Live id → id ≠ s.txns.nextTxnId :=
    fun attributed id isLive => Nat.ne_of_lt (attributed.runs id (attributed.liveRuns id isLive))
  have ran : Moves contents (some s.txns.nextTxnId) s.Live _ s
      (B.runStatement (B.beginTxn s) s.txns.nextTxnId query).1 :=
    (beginTxn_moves faithful).trans (runStatement_moves faithful (.inr rfl) query)
  dsimp only
  split
  · rename_i finished
    have ended := ran.trans (commitTxn_moves faithful ⟨.inr rfl, .inl finished⟩)
    have kept := (ended.fewer fun attributed id isLive =>
      ⟨⟨.inl isLive, .inl finished⟩, fun _ => older attributed id isLive⟩).new (Nat.le_refl _)
    unfold andThen
    split
    · exact .unchanged (kept.trans (maybeCheckpoint_moves faithful))
        (maybeCheckpoint_slots.trans (commitTxn_slots _)) owns_none
    · exact .unchanged kept (commitTxn_slots _) owns_none
  · rename_i failed
    have undone := ran.trans (abandon_moves faithful fun isLive => isLive.2.elim failed fun different => different rfl)
    refine .unchanged ?_ (abandon_slots s.txns.nextTxnId) owns_none
    exact (undone.fewer fun attributed id isLive => ⟨.inl isLive, .inr (older attributed id isLive)⟩).new
      (Nat.le_refl _)

theorem executeNonControlStatement_effect (query : Query) (alone : s.Alone session)
    (healthy : s.flushPoisoned = false) :
    Effect contents session s (B.executeNonControlStatement s session query).1
      (succeeded (B.executeNonControlStatement s session query).2) := by
  unfold executeNonControlStatement
  split
  · rename_i txnId slot
    have ran : Moves contents (some txnId) s.Live _ s _ := runStatement_moves faithful ⟨session, slot⟩ query
    have mine : ∀ id, some txnId = some id → s.slots session = .active id ∧ s.flushPoisoned = false :=
      fun id same => ⟨Option.some.inj same ▸ slot, healthy⟩
    dsimp only
    split
    · rename_i finished
      exact .unchanged (ran.fewer fun _ id isLive => ⟨isLive, .inl finished⟩) rfl mine
    · refine .moved (.aborted txnId) rfl ran.setSlot mine ?_ (fun _ id active => by cases active)
        fun other id different active =>
          ⟨⟨other, active⟩, .inr fun same => different (alone other txnId (by rw [slot]; rfl) (same ▸ active))⟩
      rw [slot]
      refine .failed txnId fun runs => ?_
      rw [TransactionManager.Runs, ← (TransactionManager.recordInserts_spec txnId _).2.1] at runs
      exact runs
  · exact .refl s
  · exact autocommit_effect faithful query
  · exact autocommit_effect faithful query

theorem executeWithParams_effect (sql : Sql) (params : List Value) (alone : s.Alone session)
    (safe : s.flushPoisoned = false → B.prepare sql params = .ok .rollback →
      ∀ txnId, s.slots session = .active txnId → B.canRollBack s txnId = true) :
    Effect contents session s (B.executeWithParams s session sql params).1
      (succeeded (B.executeWithParams s session sql params).2) := by
  unfold executeWithParams
  split
  · exact .refl s
  · rename_i healthy
    rw [Bool.not_eq_true] at healthy
    unfold executeImpl
    split
    · rename_i slot
      refine .moved .none rfl (Moves.refl s).setSlot owns_none (slot ▸ .woken) (fun _ id active => by cases active)
        fun other id _ active => ⟨other, active⟩
    · split
      · exact .refl s
      · rename_i statement prepared
        cases statement with
        | begin => exact handleBegin_effect faithful session
        | commit => exact handleCommit_effect faithful alone healthy
        | rollback => exact handleRollback_effect faithful alone (safe healthy prepared)
        | explain query =>
          simp only [dispatch, handleExplain]
          split <;> exact .refl s
        | other query => exact executeNonControlStatement_effect faithful query alone healthy

omit faithful in
theorem setSlot_abandon_slots (slot : TxnSlot) :
    (setSlot (B.abandon s txnId) session slot).slots = update s.slots session slot := by
  rw [setSlot, abandon_slots]

theorem disconnectSession_effect (alone : s.Alone session) :
    Effect contents session s (B.disconnectSession s session) true := by
  unfold disconnectSession
  split
  · exact .refl s
  · rename_i txnId held
    obtain ⟨ends, others⟩ := ending_moves faithful alone held
    exact .moved .none (setSlot_abandon_slots .none) ends.setSlot owns_none
      (.ended txnId _ .none held rfl) (fun _ id active => by cases active) others

theorem expireIdleSession_effect {s' : EngineState Data} (alone : s.Alone session)
    (expired : B.expireIdleSession s session = some s') : Effect contents session s s' true := by
  obtain ⟨txnId, held, rfl⟩ := Option.map_eq_some_iff.mp expired
  obtain ⟨ends, others⟩ := ending_moves faithful alone held
  exact .moved .timedOut (setSlot_abandon_slots .timedOut) ends.setSlot owns_none
    (.ended txnId _ .timedOut held rfl) (fun _ id active => by cases active) others

end

end Backend

end SimpleRdbms.Engine
