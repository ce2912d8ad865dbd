import SimpleRdbms.Proof.Residency

namespace SimpleRdbms.Storage
open Function (update)

def Task.checkpoint : Task → Option (Nat × Option (List (Nat × Nat)))
  | .checkpointBegun beginLsn | .activeRead beginLsn _ => some (beginLsn, none)
  | .dirtyRead beginLsn _ dpt => some (beginLsn, some dpt)
  | .idle | .needFrame _ | .victim _ _ _ | .examined _ _ _ | .ownsFrame _ _ | .loaded _ _ _
  | .finishing _ => none

namespace PoolAction

def ofCheckpoint : PoolAction → Prop
  | .checkpointBegin _ | .activeSnapshot _ | .dirtyPageTable _ | .checkpointEnd _ => True
  | _ => False

def passesDuty : PoolAction → Bool
  | .fetchFrame _ _ | .popFreeFrame _ | .chooseVictim _ _ | .frameTimeout _ | .examineVictim _ | .abortEviction _
  | .readPage _ | .finishFetch _ | .setEvictable _ | .flushPage _ _ | .flushAll _ | .activeSnapshot _
  | .dirtyPageTable _ => true
  | _ => false

def recordsOnly : PoolAction → Bool
  | .beginTxn _ | .endTxn _ | .checkpointBegin _ | .checkpointEnd _ => true
  | _ => false

end PoolAction

namespace BufferPool

variable {s s' : BufferPool} {t : Nat} {a : PoolAction}

structure Fixed (s s' : BufferPool) : Prop where
  frames : s'.frames = s.frames := by rfl
  disk : s'.disk = s.disk := by rfl
  nextPageId : s'.nextPageId = s.nextPageId := by rfl
  log : s'.log = s.log := by rfl
  history : s'.history = s.history := by rfl
  pending : s'.pending = s.pending := by rfl
  lease : s'.lease = s.lease := by rfl
  pageTable : s'.index.pageTable = s.index.pageTable := by rfl
  framePage : s'.index.framePage = s.index.framePage := by rfl

structure Unmoved (a : PoolAction) (s s' : BufferPool) : Prop extends Fixed s s' where
  guards : s.guards ⊆ s'.guards
  creates : ∀ t x, (s'.tasks t).creates = some x → (s.tasks t).creates = some x
  loaded : ∀ t p f image, s'.tasks t = .loaded p f image → s.tasks t = .loaded p f image ∨ image = s.disk p
  checkpoint : ¬ a.ofCheckpoint → s'.checkpoints = s.checkpoints ∧
    ∀ t x, (s'.tasks t).checkpoint = some x → (s.tasks t).checkpoint = some x

variable {tasks : Nat → Task} {task : Task}

theorem creates_update {x : Nat × Nat} (continues : task.creates = none ∨ task.creates = (tasks t).creates) (t' : Nat)
    (created : (update tasks t task t').creates = some x) : (tasks t').creates = some x := by
  by_cases mine : t' = t
  · subst mine
    rw [Function.update_self] at created
    rcases continues with none | same
    · simp [none] at created
    · exact same ▸ created
  · rwa [Function.update_of_ne mine] at created

theorem loaded_update {t' p f : Nat} {image : Image}
    (isLoaded : update tasks t task t' = .loaded p f image) :
    tasks t' = .loaded p f image ∨ task = .loaded p f image := by
  by_cases mine : t' = t
  · rw [mine, Function.update_self] at isLoaded
    exact .inr isLoaded
  · rw [Function.update_of_ne mine] at isLoaded
    exact .inl isLoaded

theorem checkpoint_update {x : Nat × Option (List (Nat × Nat))}
    (none : task.checkpoint = none) (t' : Nat) (taking : (update tasks t task t').checkpoint = some x) :
    (tasks t').checkpoint = some x := by
  by_cases mine : t' = t
  · rw [mine, Function.update_self, none] at taking
    simp at taking
  · rwa [Function.update_of_ne mine] at taking

namespace Unmoved

theorem keep (fixed : Fixed s s') (guards : s.guards ⊆ s'.guards) (tasks : s'.tasks = s.tasks)
    (checkpoints : s'.checkpoints = s.checkpoints) : Unmoved a s s' where
  toFixed := fixed
  guards := guards
  creates := tasks ▸ fun _ _ => id
  loaded := tasks ▸ fun _ _ _ _ => .inl
  checkpoint := fun _ => ⟨checkpoints, tasks ▸ fun _ _ => id⟩

theorem retask {task : Task} (fixed : Fixed s s') (guards : s'.guards = s.guards)
    (tasks : s'.tasks = update s.tasks t task) (creates : task.creates = none ∨ task.creates = (s.tasks t).creates)
    (loaded : ∀ p f image, task = .loaded p f image → image = s.disk p)
    (checkpoint : ¬ a.ofCheckpoint → s'.checkpoints = s.checkpoints ∧ task.checkpoint = none) : Unmoved a s s' where
  toFixed := fixed
  guards := guards ▸ List.Subset.refl _
  creates := by
    rw [tasks]
    exact fun t' x => creates_update creates t'
  loaded := by
    rw [tasks]
    exact fun t' p f image isLoaded => (loaded_update isLoaded).imp_right (loaded p f image)
  checkpoint := fun other => by
    rw [tasks]
    exact ⟨(checkpoint other).1, fun t' x => checkpoint_update (checkpoint other).2 t'⟩

end Unmoved

theorem step_unmoved (action : s.step a = some s') (passes : a.passesDuty = true) : Unmoved a s s' := by
  cases a with
  | fetchFrame =>
    obtain ⟨-, -, -, ⟨frameId, -, rfl⟩ | ⟨-, -, rfl⟩⟩ := fetchFrame_cases action
    · exact .keep {} (List.subset_cons_self _ _) rfl rfl
    · exact .retask {} rfl rfl (.inl rfl) nofun fun _ => ⟨rfl, rfl⟩
  | popFreeFrame =>
    obtain ⟨caller, frameId, rest, task, -, rfl⟩ := popFreeFrame_cases action
    exact .retask {} rfl rfl (.inr (Task.creates_of_caller (by rw [task]; rfl))) nofun fun _ => ⟨rfl, rfl⟩
  | chooseVictim =>
    obtain ⟨caller, task, -, ⟨v, -, rfl⟩ | ⟨-, rfl⟩⟩ := chooseVictim_cases action
    all_goals exact .retask {} rfl rfl (.inr (Task.creates_of_caller (by rw [task]; rfl))) nofun fun _ => ⟨rfl, rfl⟩
  | frameTimeout =>
    obtain ⟨caller, -, rfl⟩ := frameTimeout_cases action
    cases caller <;> exact .retask {} rfl rfl (.inl rfl) nofun fun _ => ⟨rfl, rfl⟩
  | examineVictim =>
    obtain ⟨caller, frameId, v, task, ⟨-, rfl⟩ | ⟨-, rfl⟩⟩ := examineVictim_cases action
    all_goals exact .retask {} rfl rfl (.inr (Task.creates_of_caller (by rw [task]; rfl))) nofun fun _ => ⟨rfl, rfl⟩
  | abortEviction =>
    obtain ⟨caller, frameId, v, -, -, rfl⟩ := abortEviction_cases action
    cases caller <;> exact .retask {} rfl rfl (.inl rfl) nofun fun _ => ⟨rfl, rfl⟩
  | readPage =>
    obtain ⟨pageId, frameId, task, ⟨-, rfl⟩ | ⟨-, rfl⟩⟩ := readPage_cases action
    · refine .retask {} rfl rfl (.inl rfl) ?_ fun _ => ⟨rfl, rfl⟩
      rintro _ _ _ ⟨⟩
      rfl
    · exact .retask {} rfl rfl (.inl rfl) nofun fun _ => ⟨rfl, rfl⟩
  | finishFetch =>
    obtain ⟨pageId, -, rfl⟩ := finishFetch_cases action
    exact .retask {} rfl rfl (.inl rfl) nofun fun _ => ⟨rfl, rfl⟩
  | setEvictable =>
    obtain ⟨unpinning, replacer, rfl, -⟩ := setEvictable_cases action
    exact .keep {} (List.Subset.refl _) rfl rfl
  | flushPage =>
    obtain ⟨-, -, batches, rfl⟩ := flushPage_cases action
    exact .keep {} (List.Subset.refl _) rfl rfl
  | flushAll =>
    obtain ⟨-, -, batches, rfl⟩ := flushAll_cases action
    exact .keep {} (List.Subset.refl _) rfl rfl
  | activeSnapshot =>
    obtain ⟨beginLsn, -, rfl⟩ := activeSnapshot_cases action
    exact .retask {} rfl rfl (.inl rfl) nofun fun other => absurd trivial other
  | dirtyPageTable =>
    obtain ⟨beginLsn, att, -, rfl⟩ := dirtyPageTable_cases action
    exact .retask {} rfl rfl (.inl rfl) nofun fun other => absurd trivial other
  | _ => cases passes

theorem step_recorded (action : s.step a = some s') (records : a.recordsOnly = true) :
    ∃ txnId kind, LogRecordKind.pageChange kind = none ∧ Unmoved a (s.appendLog txnId kind) s' := by
  cases a with
  | beginTxn =>
    obtain ⟨active, rfl⟩ := beginTxn_cases action
    exact ⟨_, _, rfl, .keep {} (List.Subset.refl _) rfl rfl⟩
  | endTxn =>
    obtain ⟨active, rfl⟩ := endTxn_cases action
    exact ⟨_, _, rfl, .keep {} (List.Subset.refl _) rfl rfl⟩
  | checkpointBegin =>
    obtain ⟨-, -, rfl⟩ := checkpointBegin_cases action
    exact ⟨_, _, rfl, .retask {} rfl rfl (.inl rfl) nofun fun other => absurd trivial other⟩
  | checkpointEnd =>
    obtain ⟨beginLsn, att, dpt, -, rfl⟩ := checkpointEnd_cases action
    exact ⟨_, _, rfl, .retask {} rfl rfl (.inl rfl) nofun fun other => absurd trivial other⟩
  | _ => cases records

end BufferPool

end SimpleRdbms.Storage
