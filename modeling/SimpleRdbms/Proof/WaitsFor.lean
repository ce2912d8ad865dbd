import SimpleRdbms.Lib.Acyclic
import SimpleRdbms.Proof.LockTables

namespace SimpleRdbms.Txn
open Function (update)
open Relation (ReflTransGen TransGen)
open Lib (Acyclic)

namespace LockManager
variable {locks : LockManager} {start : Nat} {stack visited : List Nat}

def waitsOn (locks : LockManager) (txnId blocker : Nat) : Prop :=
  ∃ entry, locks.waitingFor.find? (·.1 == txnId) = some entry ∧
    blocker ∈ locks.conflictingHolders entry.2.1 entry.2.2 txnId

theorem wouldDeadlock_sound (found : locks.wouldDeadlock start stack visited = true) :
    ∃ txnId ∈ stack, ReflTransGen locks.waitsOn txnId start := by
  fun_induction wouldDeadlock locks start stack visited with
  | case1 => simp at found
  | case2 => exact ⟨start, List.mem_cons_self, .refl⟩
  | case3 _ _ _ _ _ ih | case4 _ _ _ _ _ _ ih =>
    obtain ⟨other, member, path⟩ := ih found
    exact ⟨other, List.mem_cons_of_mem _ member, path⟩
  | case5 txnId stack visited _ _ _ _ _ waits ih =>
    obtain ⟨other, member, path⟩ := ih found
    rcases List.mem_append.mp member with blocker | later
    · have edge : locks.waitsOn txnId other := ⟨_, waits, List.mem_reverse.mp blocker⟩
      exact ⟨txnId, List.mem_cons_self, .head edge path⟩
    · exact ⟨other, List.mem_cons_of_mem _ later, path⟩

def Explored (locks : LockManager) (start : Nat) (stack visited : List Nat) : Prop :=
  ∀ txnId ∈ visited, txnId ≠ start ∧ ∀ next, locks.waitsOn txnId next → next ∈ visited ∨ next ∈ stack

theorem Explored.skip {txnId : Nat} (explored : locks.Explored start (txnId :: stack) visited)
    (seen : txnId ∈ visited) : locks.Explored start stack visited := by
  intro other member
  refine ⟨(explored other member).1, fun next edge => ?_⟩
  rcases (explored other member).2 next edge with before | later
  · exact .inl before
  · rcases List.mem_cons.mp later with rfl | later
    · exact .inl seen
    · exact .inr later

theorem Explored.visit {txnId : Nat} {more : List Nat} (explored : locks.Explored start (txnId :: stack) visited)
    (differs : txnId ≠ start) (pushed : ∀ next, locks.waitsOn txnId next → next ∈ more) :
    locks.Explored start (more ++ stack) (txnId :: visited) := by
  intro other member
  rcases List.mem_cons.mp member with rfl | member
  · exact ⟨differs, fun next edge => .inr (List.mem_append_left _ (pushed next edge))⟩
  · refine ⟨(explored other member).1, fun next edge => ?_⟩
    rcases (explored other member).2 next edge with before | later
    · exact .inl (List.mem_cons_of_mem _ before)
    · rcases List.mem_cons.mp later with rfl | later
      · exact .inl List.mem_cons_self
      · exact .inr (List.mem_append_right _ later)

theorem wouldDeadlock_complete (notFound : locks.wouldDeadlock start stack visited = false)
    (explored : locks.Explored start stack visited) :
    ∀ txnId, txnId ∈ stack ∨ txnId ∈ visited → ¬ ReflTransGen locks.waitsOn txnId start := by
  fun_induction wouldDeadlock locks start stack visited with
  | case1 visited =>
    -- the visited transactions are closed under the edges and do not contain `start`
    intro txnId member path
    have closed : ∀ node, ReflTransGen locks.waitsOn txnId node → node ∈ visited := by
      intro node path
      induction path with
      | refl => simpa using member
      | tail _ edge ih => simpa using (explored _ ih).2 _ edge
    exact (explored start (closed start path)).1 rfl
  | case2 => simp at notFound
  | case3 txnId stack visited _ seen ih =>
    intro other member
    refine ih notFound (explored.skip seen) other ?_
    rcases member with onStack | before
    · rcases List.mem_cons.mp onStack with rfl | onStack
      · exact .inr seen
      · exact .inl onStack
    · exact .inr before
  | case4 txnId stack visited differs _ silent ih =>
    have pushed : ∀ next, locks.waitsOn txnId next → next ∈ [] := by
      rintro next ⟨entry, waits, _⟩
      simp [silent] at waits
    intro other member
    exact ih notFound (explored.visit differs pushed) other (by grind)
  | case5 txnId stack visited differs _ first resource mode waits ih =>
    have pushed : ∀ next, locks.waitsOn txnId next →
        next ∈ (locks.conflictingHolders resource mode txnId).reverse := by
      rintro next ⟨entry, waits', blocker⟩
      obtain rfl := Option.some.inj (waits.symm.trans waits')
      exact List.mem_reverse.mpr blocker
    intro other member
    exact ih notFound (explored.visit differs pushed) other (by grind)

end LockManager

namespace LockTables
variable {tables after : LockTables} {request : LockRequest} {answer : LockAnswer}

def Blocks (tables : LockTables) (request : LockRequest) (holder : Nat) : Prop :=
  holder ≠ request.txnId ∧
    ∃ mode, (holder, mode) ∈ tables.occupants request.resource ∧ mode.conflictsWith request.mode = true

theorem mem_blockers {holder : Nat} : holder ∈ tables.blockers request ↔ tables.Blocks request holder := by
  simp only [blockers, LockManager.conflictingHolders, Blocks, List.mem_map, List.mem_filter]
  constructor
  · rintro ⟨⟨id, mode⟩, ⟨member, conflict⟩, rfl⟩
    simp only [Bool.and_eq_true, decide_eq_true_eq] at conflict
    exact ⟨conflict.1, mode, member, conflict.2⟩
  · rintro ⟨other, mode, member, conflict⟩
    exact ⟨(holder, mode), ⟨member, by simp [other, conflict]⟩, rfl⟩

theorem waitsOn_iff {txnId holder : Nat} :
    tables.read.waitsOn txnId holder ↔
      ∃ resource mode, tables.waiting txnId = some (resource, mode) ∧ tables.Blocks ⟨txnId, resource, mode⟩ holder := by
  simp only [LockManager.waitsOn, waiting, Option.map_eq_some_iff]
  constructor
  · rintro ⟨⟨id, resource, mode⟩, found, blocker⟩
    exact ⟨resource, mode, ⟨_, found, rfl⟩, mem_blockers.mp blocker⟩
  · rintro ⟨resource, mode, ⟨⟨id, _⟩, found, rfl⟩, blocks⟩
    exact ⟨_, found, mem_blockers.mpr blocks⟩

theorem Blocks.of_grant {call : LockRequest} {holder : Nat} (blocks : (tables.grant request).Blocks call holder) :
    tables.Blocks call holder ∨ holder = request.txnId := by
  obtain ⟨other, mode, member, conflict⟩ := blocks
  rcases mem_occupants_grant.mp member with ⟨_, granted⟩ | ⟨old, _⟩
  · exact .inr (congrArg Prod.fst granted)
  · exact .inl ⟨other, mode, old, conflict⟩

theorem acyclic_stopWaiting (acyclic : Acyclic tables.read.waitsOn) (txnId : Nat) :
    Acyclic (tables.stopWaiting txnId).read.waitsOn := by
  refine acyclic.mono fun a b edge => ?_
  obtain ⟨resource, mode, waits, blocks⟩ := waitsOn_iff.mp edge
  simp only [waiting_stopWaiting] at waits
  split_ifs at waits with same
  exact waitsOn_iff.mpr ⟨resource, mode, waits, blocks⟩

theorem acyclic_grant (acyclic : Acyclic tables.read.waitsOn) :
    Acyclic ((tables.stopWaiting request.txnId).grant request).read.waitsOn := by
  refine (acyclic_stopWaiting acyclic request.txnId).into_sink (a := request.txnId) ?_ fun a b edge => ?_
  · intro holder edge
    obtain ⟨resource, mode, waits, _⟩ := waitsOn_iff.mp edge
    simp at waits
  · obtain ⟨resource, mode, waits, blocks⟩ := waitsOn_iff.mp edge
    exact blocks.of_grant.imp_left fun old => waitsOn_iff.mpr ⟨resource, mode, waits, old⟩

theorem acyclic_startWaiting (acyclic : Acyclic tables.read.waitsOn)
    (apart : tables.read.wouldDeadlock request.txnId (tables.blockers request).reverse [] = false) :
    Acyclic (tables.startWaiting request).read.waitsOn := by
  have unreached := LockManager.wouldDeadlock_complete apart (by simp [LockManager.Explored])
  refine acyclic.out_of (t := tables.Blocks request) (a := request.txnId) ?_ fun a b edge => ?_
  · intro holder blocks
    exact unreached holder (.inl (List.mem_reverse.mpr (mem_blockers.mpr blocks)))
  · obtain ⟨resource, mode, waits, blocks⟩ := waitsOn_iff.mp edge
    simp only [waiting_startWaiting] at waits
    split_ifs at waits with same
    · simp only [Option.some.injEq, Prod.mk.injEq] at waits
      obtain ⟨rfl, rfl⟩ := waits
      subst same
      exact .inr ⟨rfl, blocks⟩
    · exact .inl (waitsOn_iff.mpr ⟨resource, mode, waits, blocks⟩)

theorem Attempts.acyclic (attempts : Attempts tables request after answer)
    (acyclic : Acyclic tables.read.waitsOn) : Acyclic after.read.waitsOn := by
  have stopped := acyclic_stopWaiting acyclic request.txnId
  cases attempts with
  | held _ | deadlock _ => exact stopped
  | grant _ => exact acyclic_grant acyclic
  | timeout =>
    refine stopped.mono fun a b edge => ?_
    obtain ⟨resource, mode, waits, blocks⟩ := waitsOn_iff.mp edge
    refine waitsOn_iff.mpr ⟨resource, mode, ?_, blocks⟩
    simp only [waiting_stopWaiting, waiting_startWaiting] at waits ⊢
    split_ifs at waits ⊢ with same
    exact waits
  | wait apart => exact acyclic_startWaiting stopped apart

theorem Attempts.victim (attempts : Attempts tables request after .deadlockVictim) :
    (tables.stopWaiting request.txnId).read.wouldDeadlock request.txnId (tables.blockers request).reverse
      [] = true := by
  cases attempts with
  | deadlock found => exact found

theorem acyclic_releaseAll (consistent : tables.Consistent) (acyclic : Acyclic tables.read.waitsOn)
    (txnId : Nat) : Acyclic (tables.releaseAll txnId).read.waitsOn := by
  refine acyclic.mono fun a b edge => ?_
  obtain ⟨resource, mode, waits, other, held, member, conflict⟩ := waitsOn_iff.mp edge
  simp only [waiting_releaseAll] at waits
  split_ifs at waits with same
  rw [occupants_releaseAll consistent] at member
  exact waitsOn_iff.mpr ⟨resource, mode, waits, other, held, (List.mem_filter.mp member).1, conflict⟩

def Empty (tables : LockTables) (txnId : Nat) : Prop :=
  ∀ resource mode, (txnId, mode) ∉ tables.occupants resource

theorem Attempts.empty {txnId : Nat} (attempts : Attempts tables request after answer)
    (other : txnId ≠ request.txnId) (empty : tables.Empty txnId) : after.Empty txnId := by
  cases attempts with
  | held _ | deadlock _ | timeout | wait _ => exact empty
  | grant _ =>
    intro resource mode member
    rcases mem_occupants_grant.mp member with ⟨_, granted⟩ | ⟨old, _⟩
    · exact other (congrArg Prod.fst granted)
    · exact empty resource mode old

end LockTables

namespace LockClients
variable {clients after : LockClients} {action : Action} {done : LockSection}

def waitsFor (clients : LockClients) (txnId holder : Nat) : Prop :=
  ∃ thread request, clients.calls thread = some request ∧ request.txnId = txnId ∧
    clients.tables.Blocks request holder

def OneRequest (clients : LockClients) : Action → Prop
  | .acquire _ request _ => ∀ thread call, clients.calls thread = some call → call.txnId ≠ request.txnId
  | .wake _ _ | .releaseAll _ | .pruneFinished _ => True

structure Waiters (clients : LockClients) : Prop where
  invariant : clients.Invariant
  single : ∀ thread thread' call call', clients.calls thread = some call → clients.calls thread' = some call' →
    call.txnId = call'.txnId → thread = thread'
  -- `release_all` drops the entry of a request that is still asleep, and with it every edge into it
  noted : ∀ thread call, clients.calls thread = some call →
    clients.tables.waiting call.txnId = some (call.resource, call.mode) ∨ clients.tables.Empty call.txnId
  acyclic : Acyclic clients.tables.read.waitsOn

theorem Waiters.others_differ (waiters : clients.Waiters) (one : clients.OneRequest action)
    (ran : clients.criticalSection action = some done) {thread : Nat} {call : LockRequest}
    (other : thread ≠ done.thread) (called : clients.calls thread = some call) : call.txnId ≠ done.request.txnId := by
  cases action with
  | acquire caller request expired =>
    obtain ⟨_, rfl⟩ : clients.calls caller = none ∧
        enter caller request (clients.tables.acquire request expired) = done := by
      simpa [criticalSection] using ran
    exact one thread call called
  | wake caller expired =>
    obtain ⟨request, own, rfl⟩ := Option.map_eq_some_iff.mp ran
    exact fun same => other (waiters.single thread caller call request called own same)
  | releaseAll _ | pruneFinished _ => simp [criticalSection] at ran

theorem calls_leave {thread : Nat} {call : LockRequest} (called : (clients.leave done).calls thread = some call) :
    thread = done.thread ∧ call = done.request ∧ done.answer = .waits ∨
      thread ≠ done.thread ∧ clients.calls thread = some call := by
  by_cases same : thread = done.thread
  · subst same
    simp only [leave, Function.update_self] at called
    split_ifs at called with waits
    exact .inl ⟨rfl, (Option.some.inj called).symm, waits⟩
  · exact .inr ⟨same, (calls_leave_of_ne same).symm.trans called⟩

theorem Waiters.leave (waiters : clients.Waiters) (one : clients.OneRequest action)
    (ran : clients.criticalSection action = some done) : (clients.leave done).Waiters where
  invariant := waiters.invariant.leave ran
  single := by
    intro thread thread' call call' called called' same
    rcases calls_leave called with ⟨rfl, rfl, _⟩ | ⟨other, before⟩
    · rcases calls_leave called' with ⟨rfl, _⟩ | ⟨other', before'⟩
      · rfl
      · exact absurd same.symm (waiters.others_differ one ran other' before')
    · rcases calls_leave called' with ⟨rfl, rfl, _⟩ | ⟨_, before'⟩
      · exact absurd same (waiters.others_differ one ran other before)
      · exact waiters.single thread thread' call call' before before' same
  noted := by
    intro thread call called
    rcases criticalSection_cases ran with ⟨tables, answer, _⟩ | attempts
    · rcases calls_leave called with ⟨_, _, waits⟩ | ⟨_, before⟩
      · simp [answer] at waits
      · have kept := waiters.noted thread call before
        rwa [← tables] at kept
    · rcases calls_leave called with ⟨_, rfl, waits⟩ | ⟨other, before⟩
      · exact .inl ((attempts.waiting_eq _).trans (by simp [waits]))
      · have differs := waiters.others_differ one ran other before
        refine (waiters.noted thread call before).imp (fun entry => ?_) (attempts.empty differs)
        exact (attempts.waiting_eq _).trans ((if_neg differs).trans entry)
  acyclic := by
    rcases criticalSection_cases ran with ⟨tables, _⟩ | attempts
    · have kept := waiters.acyclic
      rwa [← tables] at kept
    · exact attempts.acyclic waiters.acyclic

theorem Waiters.releaseAll (waiters : clients.Waiters) (txnId : Nat) :
    Waiters { clients with tables := clients.tables.releaseAll txnId } where
  invariant := waiters.invariant.step (show clients.step (.releaseAll txnId) = some _ from rfl)
  single := waiters.single
  noted := by
    intro thread call called
    have occupants := clients.tables.occupants_releaseAll waiters.invariant.consistent txnId
    by_cases released : call.txnId = txnId
    · refine .inr fun resource mode member => ?_
      rw [occupants] at member
      simp [released] at member
    · refine (waiters.noted thread call called).imp (fun entry => ?_) fun empty resource mode member => ?_
      · exact (LockTables.waiting_releaseAll _ _ _).trans ((if_neg released).trans entry)
      · rw [occupants] at member
        exact empty resource mode (List.mem_filter.mp member).1
  acyclic := LockTables.acyclic_releaseAll waiters.invariant.consistent waiters.acyclic txnId

theorem Waiters.reached (reached : system.ReachableBy OneRequest clients) : clients.Waiters := by
  refine reached.invariant (P := Waiters) ?_ fun clients action after waiters one stepped => ?_
  · rintro _ rfl
    exact {
      invariant := .reached (.start rfl)
      single := by simp
      noted := by simp
      acyclic := .empty fun a b edge => by simp [LockTables.waitsOn_iff, LockTables.new, LockTables.waiting] at edge }
  · rcases step_cases stepped with ⟨txnId, rfl⟩ | ⟨watermark, rfl⟩ | ⟨done, ran, rfl⟩
    · exact waiters.releaseAll txnId
    · exact {
        invariant := waiters.invariant.step (show clients.step (.pruneFinished watermark) = some _ from rfl)
        single := waiters.single
        noted := waiters.noted
        acyclic := waiters.acyclic }
    · exact waiters.leave one ran

theorem Waiters.path (waiters : clients.Waiters) {txnId holder : Nat} (path : TransGen clients.waitsFor txnId holder)
    (holds : ¬ clients.tables.Empty txnId) : TransGen clients.tables.read.waitsOn txnId holder := by
  have edges : ∀ a b, clients.waitsFor a b → ¬ clients.tables.Empty a →
      clients.tables.read.waitsOn a b ∧ ¬ clients.tables.Empty b := by
    rintro a b ⟨thread, request, called, rfl, blocks⟩ holds
    have entry := (waiters.noted thread request called).resolve_right holds
    have ⟨_, mode, member, _⟩ := blocks
    exact ⟨LockTables.waitsOn_iff.mpr ⟨_, _, entry, blocks⟩, fun empty => empty _ mode member⟩
  have all : TransGen clients.tables.read.waitsOn txnId holder ∧ ¬ clients.tables.Empty holder := by
    induction path with
    | single edge => exact ⟨.single (edges _ _ edge holds).1, (edges _ _ edge holds).2⟩
    | tail _ edge ih => exact ⟨ih.1.tail (edges _ _ edge ih.2).1, (edges _ _ edge ih.2).2⟩
  exact all.1

theorem Waiters.no_cycle (waiters : clients.Waiters) : Acyclic clients.waitsFor := by
  intro txnId cycle
  obtain ⟨last, _, thread, request, _, _, _, mode, member, _⟩ := TransGen.tail'_iff.mp cycle
  exact waiters.acyclic txnId (waiters.path cycle fun empty => empty _ mode member)

theorem Waiters.waitsFor_of_stopped (waiters : clients.Waiters) (ran : clients.criticalSection action = some done)
    {a b : Nat} (edge : (clients.tables.stopWaiting done.request.txnId).read.waitsOn a b) :
    { clients with calls := update clients.calls done.thread (some done.request) }.waitsFor a b := by
  obtain ⟨resource, mode, waits, blocks⟩ := LockTables.waitsOn_iff.mp edge
  simp only [LockTables.waiting_stopWaiting] at waits
  split_ifs at waits with own
  obtain ⟨thread, called⟩ := waiters.invariant.called a resource mode waits
  have other : thread ≠ done.thread := by
    rintro rfl
    rcases criticalSection_call ran with idle | same
    · simp [idle] at called
    · rw [same] at called
      exact own (congrArg LockRequest.txnId (Option.some.inj called)).symm
  exact ⟨thread, _, (Function.update_of_ne other _ _).trans called, rfl, blocks⟩

def oneWaits : List Action :=
  [.acquire 0 ⟨1, .table 7, .exclusive⟩ false, .acquire 1 ⟨2, .table 7, .shared⟩ false]

theorem oneWaits_run : ∃ clients, system.run { tables := .new, calls := fun _ => none } oneWaits = some clients ∧
    system.ReachableBy OneRequest clients ∧ clients.waitsFor 2 1 := by
  let held := (LockTables.new.stopWaiting 1).grant ⟨1, .table 7, .exclusive⟩
  have asleep : held.acquire ⟨2, .table 7, .shared⟩ false =
      ((held.stopWaiting 2).startWaiting ⟨2, .table 7, .shared⟩, .waits) := by
    have blockers : (held.stopWaiting 2).blockers ⟨2, .table 7, .shared⟩ = [1] := rfl
    have heldMode : (held.stopWaiting 2).heldMode ⟨2, .table 7, .shared⟩ = none := rfl
    have active : 2 ∉ held.finished := by decide
    have search : (held.stopWaiting 2).read.wouldDeadlock 2 [1] [] = false := by
      rw [Bool.eq_false_iff]
      intro found
      obtain ⟨txnId, member, path⟩ := LockManager.wouldDeadlock_sound found
      obtain rfl := List.mem_singleton.mp member
      rcases path.cases_head with same | ⟨_, ⟨_, waits, _⟩, _⟩
      · simp at same
      · exact absurd waits (by simp [held, LockTables.read, LockTables.stopWaiting, LockTables.grant, LockTables.new])
    simp [LockTables.acquire, LockTables.attempt, active, heldMode, blockers, search]
  have second : ∀ clients : LockClients, clients.tables = held →
      (clients.leave (enter 1 ⟨2, .table 7, .shared⟩ (clients.tables.acquire ⟨2, .table 7, .shared⟩ false))).waitsFor
        2 1 := by
    intro clients tables
    rw [tables, asleep]
    refine ⟨1, ⟨2, .table 7, .shared⟩, by simp [leave, enter], rfl, by decide, .exclusive, ?_, rfl⟩
    exact (List.mem_cons_self : (1, LockMode.exclusive) ∈ [(1, LockMode.exclusive)])
  refine ⟨_, rfl, ?_, second _ rfl⟩
  refine .next (a := .acquire 1 ⟨2, .table 7, .shared⟩ false) (.next (a := .acquire 0 ⟨1, .table 7, .exclusive⟩ false)
    (.start rfl) (by simp [OneRequest]) rfl) (fun thread call called => ?_) rfl
  have idle : (LockClients.leave { tables := .new, calls := fun _ => none }
      ⟨0, ⟨1, .table 7, .exclusive⟩, held, .ok⟩).calls thread = none := by simp [leave]
  exact absurd (idle.symm.trans called) (by simp)

/-- With one request per transaction there is never a cycle, and only a request that would close one is refused. -/
theorem no_lock_cycle (reached : system.ReachableBy OneRequest clients) :
    (∀ txnId, ¬ TransGen clients.waitsFor txnId txnId) ∧
      ∀ action done, clients.OneRequest action → clients.criticalSection action = some done →
        done.answer = .deadlockVictim →
        TransGen { clients with calls := update clients.calls done.thread (some done.request) }.waitsFor
          done.request.txnId done.request.txnId := by
  have waiters := Waiters.reached reached
  refine ⟨waiters.no_cycle, fun action done _ ran victim => ?_⟩
  rcases criticalSection_cases ran with ⟨_, answer, _⟩ | attempts
  · simp [answer] at victim
  obtain ⟨blocker, member, path⟩ := LockManager.wouldDeadlock_sound ((victim ▸ attempts).victim)
  have blocks := LockTables.mem_blockers.mp (List.mem_reverse.mp member)
  refine .head' ⟨done.thread, done.request, Function.update_self _ _ _, rfl, blocks⟩ ?_
  exact ReflTransGen.mono (fun _ _ => waiters.waitsFor_of_stopped ran) _ _ path

theorem no_lock_cycle_waiting :
    ∃ clients, system.run { tables := .new, calls := fun _ => none }
        [.acquire 0 ⟨1, .table 7, .exclusive⟩ false, .acquire 1 ⟨2, .table 7, .shared⟩ false] = some clients ∧
      clients.waitsFor 2 1 ∧ ∀ txnId, ¬ TransGen clients.waitsFor txnId txnId := by
  obtain ⟨clients, executed, reached, waits⟩ := oneWaits_run
  exact ⟨clients, executed, waits, (no_lock_cycle reached).1⟩

theorem Waiters.mem_waitingFor (waiters : clients.Waiters) {first txnId holder : Nat}
    (path : TransGen clients.waitsFor first txnId) (edge : clients.waitsFor txnId holder) :
    txnId ∈ (clients.tables.waitingFor.map Prod.fst).toFinset := by
  obtain ⟨_, _, _, _, _, _, _, mode, member, _⟩ := TransGen.tail'_iff.mp path
  obtain ⟨thread, request, called, rfl, -⟩ := edge
  rcases waiters.noted thread request called with entry | empty
  · obtain ⟨found, search, -⟩ := Option.map_eq_some_iff.mp entry
    have same : found.1 = request.txnId := by simpa using List.find?_some search
    exact List.mem_toFinset.mpr (List.mem_map.mpr ⟨found, List.mem_of_find?_eq_some search, same⟩)
  · exact absurd member (empty _ mode)

/-- Following whom a transaction waits for, one comes to one without a request, or to one that gets its lock when it
wakes. -/
theorem waiting_ends (reached : system.ReachableBy OneRequest clients) (first : Nat) :
    ∃ txnId, ReflTransGen clients.waitsFor first txnId ∧
      ((∀ thread call, clients.calls thread = some call → call.txnId ≠ txnId) ∨
        ∃ thread call, clients.calls thread = some call ∧ call.txnId = txnId ∧
          ∀ expired, ∃ done, clients.criticalSection (.wake thread expired) = some done ∧ done.answer = .ok) := by
  have waiters := Waiters.reached reached
  obtain ⟨txnId, path, sink⟩ := waiters.no_cycle.exists_sink fun _ _ => waiters.mem_waitingFor
  refine ⟨txnId, path, ?_⟩
  by_cases asleep : ∃ thread call, clients.calls thread = some call ∧ call.txnId = txnId
  · obtain ⟨thread, call, called, rfl⟩ := asleep
    refine .inr ⟨thread, call, called, rfl, fun expired => ?_⟩
    have free : (clients.tables.stopWaiting call.txnId).blockers call = [] :=
      List.eq_nil_iff_forall_not_mem.mpr fun holder member =>
        sink holder ⟨thread, call, called, rfl, LockTables.mem_blockers.mp member⟩
    refine ⟨_, by simp only [criticalSection, called]; rfl, ?_⟩
    simp only [enter, LockTables.attempt, free]
    split <;> rfl
  · exact .inl fun thread call called same => asleep ⟨thread, call, called, same⟩

theorem waiting_ends_waiting :
    ∃ clients, system.run { tables := .new, calls := fun _ => none } oneWaits = some clients ∧ clients.waitsFor 2 1 ∧
      ∃ txnId, ReflTransGen clients.waitsFor 2 txnId ∧
        ((∀ thread call, clients.calls thread = some call → call.txnId ≠ txnId) ∨
          ∃ thread call, clients.calls thread = some call ∧ call.txnId = txnId ∧
            ∀ expired, ∃ done, clients.criticalSection (.wake thread expired) = some done ∧ done.answer = .ok) := by
  obtain ⟨clients, executed, reached, waits⟩ := oneWaits_run
  exact ⟨clients, executed, waits, waiting_ends reached 2⟩

end LockClients

end SimpleRdbms.Txn
