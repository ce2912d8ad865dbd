import Mathlib.Data.List.Induction
import Mathlib.Tactic.Common
import SimpleRdbms.Storage.Replacer

namespace SimpleRdbms.Storage
open SimpleRdbms.Lib
open Function (update)

namespace LruKReplacer
variable {r : LruKReplacer} {accept : Nat → Bool} {entries : List (Nat × FrameEntry)}

def Candidate (r : LruKReplacer) (accept : Nat → Bool) (frameId : Nat) (entry : FrameEntry) : Prop :=
  r.frames frameId = some entry ∧ entry.evictable = true ∧ accept frameId = true

def Best (r : LruKReplacer) (accept : Nat → Bool) (entries : List (Nat × FrameEntry)) :
    Option (Nat × (Bool ×ₗ Int)) → Prop
  | none => ∀ frame ∈ entries, (frame.2.evictable && accept frame.1) = false
  | some (victim, metric) => (∃ entry, (victim, entry) ∈ entries ∧ (entry.evictable && accept victim) = true ∧
    metric = r.metric entry) ∧
      ∀ frame ∈ entries, (frame.2.evictable && accept frame.1) = true → r.metric frame.2 ≤ metric

theorem Best.consider {best : Option (Nat × (Bool ×ₗ Int))} {frame : Nat × FrameEntry}
    (isBest : r.Best accept entries best) :
    r.Best accept (entries ++ [frame]) (r.consider accept best frame) := by
  unfold LruKReplacer.consider
  cases isOpen : frame.2.evictable && accept frame.1 with
  | false =>
    rw [if_neg Bool.false_ne_true]
    cases best with
    | none => exact List.forall_mem_append.mpr ⟨isBest, List.forall_mem_singleton.mpr isOpen⟩
    | some old =>
      obtain ⟨⟨entry, member, found⟩, largest⟩ := isBest
      refine ⟨⟨entry, List.mem_append_left _ member, found⟩, List.forall_mem_append.mpr ⟨largest, ?_⟩⟩
      rw [List.forall_mem_singleton, isOpen]
      exact nofun
  | true =>
    rw [if_pos rfl]
    cases best with
    | none =>
      refine ⟨⟨frame.2, by simp, isOpen, rfl⟩, List.forall_mem_append.mpr ⟨fun other member accepted => ?_, by simp⟩⟩
      rw [isBest other member] at accepted
      cases accepted
    | some old =>
      obtain ⟨⟨entry, member, found⟩, largest⟩ := isBest
      dsimp only
      split
      · rename_i larger
        exact ⟨⟨frame.2, by simp, isOpen, rfl⟩, List.forall_mem_append.mpr
          ⟨fun other member accepted => (largest other member accepted).trans larger.le, by simp⟩⟩
      · rename_i notLarger
        refine ⟨⟨entry, List.mem_append_left _ member, found⟩, List.forall_mem_append.mpr ⟨largest, ?_⟩⟩
        rw [List.forall_mem_singleton]
        exact fun _ => not_lt.mp notLarger

theorem best_foldl (r : LruKReplacer) (accept : Nat → Bool) (entries : List (Nat × FrameEntry)) :
    r.Best accept entries (entries.foldl (r.consider accept) none) := by
  induction entries using List.reverseRecOn with
  | nil => simp [Best]
  | append_singleton front frame ih =>
    rw [List.foldl_append]
    exact ih.consider

theorem evictWhere_spec (accept : Nat → Bool) (iterates : Iterates r.frames entries) :
    (r.evictWhere accept entries = (none, r) ∧ ∀ frameId entry, ¬ r.Candidate accept frameId entry) ∨
      ∃ victim entry, r.evictWhere accept entries = (some victim, r.remove victim) ∧ r.Candidate accept victim entry ∧
        ∀ other otherEntry, r.Candidate accept other otherEntry → r.metric otherEntry ≤ r.metric entry := by
  have best := best_foldl r accept entries
  unfold evictWhere
  cases found : entries.foldl (r.consider accept) none with
  | none =>
    rw [found] at best
    refine .inl ⟨rfl, fun frameId entry candidate => ?_⟩
    have closed := best (frameId, entry) ((iterates.mem _ _).mpr candidate.1)
    rw [candidate.2.1, candidate.2.2] at closed
    cases closed
  | some frame =>
    obtain ⟨victim, metric⟩ := frame
    rw [found] at best
    obtain ⟨⟨entry, member, isOpen, rfl⟩, largest⟩ := best
    rw [Bool.and_eq_true] at isOpen
    refine .inr ⟨victim, entry, rfl, ⟨(iterates.mem _ _).mp member, isOpen⟩, fun other otherEntry candidate => ?_⟩
    exact largest (other, otherEntry) ((iterates.mem _ _).mpr candidate.1)
      (Bool.and_eq_true _ _ ▸ candidate.2)

end LruKReplacer

theorem Iterates.update {frames : Nat → Option FrameEntry} {entries : List (Nat × FrameEntry)}
    (iterates : Iterates frames entries)
    (frameId : Nat) (value : Option FrameEntry) : ∃ entries, Iterates (update frames frameId value) entries := by
  have others : ((entries.filter (·.1 ≠ frameId)).map Prod.fst).Nodup :=
    iterates.nodup.sublist (List.filter_sublist.map _)
  cases value with
  | none =>
    refine ⟨entries.filter (·.1 ≠ frameId), others, fun other entry => ?_⟩
    rw [List.mem_filter, iterates.mem]
    by_cases same : other = frameId <;> simp [same]
  | some value =>
    refine ⟨(frameId, value) :: entries.filter (·.1 ≠ frameId), ?_, fun other entry => ?_⟩
    · refine List.nodup_cons.mpr ⟨?_, others⟩
      simp
    · rw [List.mem_cons, List.mem_filter, iterates.mem]
      by_cases same : other = frameId
      · simp [same, eq_comm]
      · simp [same]

namespace TracedReplacer
variable {s : TracedReplacer} {k : Nat}

structure Faithful (k : Nat) (s : TracedReplacer) : Prop where
  size : s.replacer.k = k
  clock : s.replacer.clock = s.accesses
  tracked : ∀ frameId entry, s.replacer.frames frameId = some entry → s.trace frameId ≠ [] ∧
    entry.evictable = s.evictable frameId ∧ entry.history = (s.trace frameId).drop ((s.trace frameId).length - k)
  untracked : ∀ frameId, s.replacer.frames frameId = none → s.trace frameId = [] ∧ s.evictable frameId = false
  past : ∀ frameId, ∀ time ∈ s.trace frameId, time ≤ s.accesses
  apart : ∀ frameId other, ∀ time ∈ s.trace frameId, time ∈ s.trace other → frameId = other
  finite : ∃ entries, Iterates s.replacer.frames entries

theorem pushed_history {trace : List Nat} (positive : 0 < k) (time : Nat) :
    (if (trace.drop (trace.length - k) ++ [time]).length > k then (trace.drop (trace.length - k) ++ [time]).tail
      else trace.drop (trace.length - k) ++ [time]) = (trace ++ [time]).drop ((trace ++ [time]).length - k) := by
  rw [List.length_append, List.length_append, List.length_singleton, List.length_drop]
  split
  · rw [show trace.length + 1 - k = trace.length - k + 1 by omega, ← List.drop_drop,
      List.drop_append_of_le_length (by omega), List.drop_one]
  · rw [show trace.length - k = 0 by omega, show trace.length + 1 - k = 0 by omega, List.drop_zero, List.drop_zero]

theorem Faithful.recordAccess (faithful : Faithful k s) (positive : 0 < k) (frameId : Nat) :
    Faithful k (s.step (.recordAccess frameId)) := by
  have before : ((s.replacer.frames frameId).getD { history := [], evictable := false }).evictable =
    s.evictable frameId ∧ ((s.replacer.frames frameId).getD { history := [], evictable := false }).history =
        (s.trace frameId).drop ((s.trace frameId).length - k) := by
    cases stored : s.replacer.frames frameId with
    | none => simp [faithful.untracked frameId stored]
    | some entry => exact (faithful.tracked frameId entry stored).2
  have fresh (other : Nat) : s.accesses + 1 ∉ s.trace other := fun member =>
    absurd (faithful.past other _ member) (by omega)
  obtain ⟨size, clock, tracked, untracked, past, apart, entries, iterates⟩ := faithful
  refine ⟨size, congrArg (· + 1) clock, fun other entry stored => ?_, ?_, ?_, ?_, iterates.update _ _⟩
  all_goals simp only [TracedReplacer.step, LruKReplacer.recordAccess] at *
  · by_cases same : other = frameId
    · subst same
      rw [Function.update_self] at stored ⊢
      cases stored
      rw [before.2, size, clock]
      exact ⟨by simp, before.1, pushed_history positive _⟩
    · rw [Function.update_of_ne same] at stored ⊢
      exact tracked other entry stored
  all_goals grind [Function.update_apply]

theorem Faithful.remove (faithful : Faithful k s) (frameId : Nat) : Faithful k (s.step (.remove frameId)) := by
  obtain ⟨size, clock, tracked, untracked, past, apart, entries, iterates⟩ := faithful
  refine ⟨size, clock, ?_, ?_, ?_, ?_, iterates.update _ _⟩
  all_goals simp only [TracedReplacer.step, LruKReplacer.remove, forget]
  all_goals grind [Function.update_apply]

theorem Faithful.setEvictable (faithful : Faithful k s) (frameId : Nat) (evictable : Bool) :
    Faithful k (s.step (.setEvictable frameId evictable)) := by
  obtain ⟨size, clock, tracked, untracked, past, apart, entries, iterates⟩ := faithful
  refine ⟨size, clock, ?_, ?_, past, apart, iterates.update _ _⟩
  all_goals simp only [TracedReplacer.step, LruKReplacer.setEvictable]
  all_goals cases stored : s.replacer.frames frameId <;> grind [Function.update_apply]

theorem Faithful.step (faithful : Faithful k s) (positive : 0 < k) {action : ReplacerAction}
    (allowed : s.Allowed action) :
    Faithful k (s.step action) := by
  cases action with
  | recordAccess frameId => exact faithful.recordAccess positive frameId
  | setEvictable frameId evictable => exact faithful.setEvictable frameId evictable
  | remove frameId => exact faithful.remove frameId
  | evictWhere accept entries =>
    rcases LruKReplacer.evictWhere_spec accept allowed with ⟨evicted, -⟩ | ⟨victim, entry, evicted, -⟩
    · simpa only [TracedReplacer.step, evicted, Option.elim] using faithful
    · simpa only [TracedReplacer.step, evicted, Option.elim] using faithful.remove victim

theorem reachable_faithful (positive : 0 < k) (reachable : (system k).ReachableBy Allowed s) : Faithful k s := by
  refine reachable.invariant (P := Faithful k) ?_ ?_
  · rintro _ rfl
    exact ⟨rfl, rfl, nofun, fun _ _ => ⟨rfl, rfl⟩, nofun, nofun, [], by simp, by simp [new, LruKReplacer.new]⟩
  · intro s action s' faithful allowed stepped
    cases stepped
    exact faithful.step positive allowed

def latest (trace : List Nat) : Nat := trace.getLast?.getD 0

def kthLatest (k : Nat) (trace : List Nat) : Nat := trace.getD (trace.length - k) 0

theorem latest_mem {trace : List Nat} (nonempty : trace ≠ []) : latest trace ∈ trace := by
  rw [latest, List.getLast?_eq_some_getLast nonempty]
  exact List.getLast_mem nonempty

theorem kthLatest_mem {trace : List Nat} (positive : 0 < k) (long : k ≤ trace.length) : kthLatest k trace ∈ trace := by
  rw [kthLatest, List.getD_eq_getElem?_getD, List.getElem?_eq_getElem (by omega)]
  exact List.getElem_mem _

theorem Faithful.metric (faithful : Faithful k s) {frameId : Nat} {entry : FrameEntry}
    (stored : s.replacer.frames frameId = some entry) : s.replacer.metric entry =
      if (s.trace frameId).length < k then toLex (true, 18446744073709551615 - (latest (s.trace frameId) : Int))
      else toLex (false, s.replacer.clock - (kthLatest k (s.trace frameId) : Int)) := by
  obtain ⟨nonempty, -, history⟩ := faithful.tracked frameId entry stored
  have length : entry.history.length < k ↔ (s.trace frameId).length < k := by
    rw [history, List.length_drop]
    omega
  rw [LruKReplacer.metric, faithful.size]
  split
  · rename_i short
    rw [if_pos (length.mp short), history, show (s.trace frameId).length - k = 0 by omega, List.drop_zero]
    rfl
  · rename_i long
    rw [if_neg (mt length.mpr long), history, List.head?_drop, kthLatest, List.getD_eq_getElem?_getD]

def Candidate (s : TracedReplacer) (accept : Nat → Bool) (frameId : Nat) : Prop :=
  s.trace frameId ≠ [] ∧ s.evictable frameId = true ∧ accept frameId = true

theorem Faithful.candidate_iff (faithful : Faithful k s) {accept : Nat → Bool} {frameId : Nat} :
    s.Candidate accept frameId ↔ ∃ entry, s.replacer.Candidate accept frameId entry := by
  cases stored : s.replacer.frames frameId with
  | none => simp [Candidate, LruKReplacer.Candidate, stored, faithful.untracked frameId stored]
  | some entry =>
    obtain ⟨nonempty, evictable, -⟩ := faithful.tracked frameId entry stored
    simp [Candidate, LruKReplacer.Candidate, stored, nonempty, evictable]

/-- Frames with fewer than `k` accesses go first, by their latest access; the others by their k-th most recent one. -/
def Precedes (k : Nat) (s : TracedReplacer) (victim other : Nat) : Prop :=
  ((s.trace other).length < k → (s.trace victim).length < k ∧ latest (s.trace victim) < latest (s.trace other)) ∧
    (k ≤ (s.trace other).length → k ≤ (s.trace victim).length →
      kthLatest k (s.trace victim) < kthLatest k (s.trace other))

theorem Faithful.precedes (faithful : Faithful k s) (positive : 0 < k) {victim other : Nat}
    {entry otherEntry : FrameEntry}
    (stored : s.replacer.frames victim = some entry) (otherStored : s.replacer.frames other = some otherEntry)
    (different : other ≠ victim) (least : s.replacer.metric otherEntry ≤ s.replacer.metric entry) :
    Precedes k s victim other := by
  have nonempty := (faithful.tracked victim entry stored).1
  have otherNonempty := (faithful.tracked other otherEntry otherStored).1
  rw [faithful.metric stored, faithful.metric otherStored] at least
  constructor
  · intro short
    rw [if_pos short] at least
    split at least
    · rename_i victimShort
      have latest_ne : latest (s.trace victim) ≠ latest (s.trace other) := fun same =>
        different (faithful.apart other victim _ (latest_mem otherNonempty) (same ▸ latest_mem nonempty))
      rw [Prod.Lex.toLex_le_toLex] at least
      simp only [lt_self_iff_false, false_or, true_and] at least
      exact ⟨victimShort, by omega⟩
    · rw [Prod.Lex.toLex_le_toLex] at least
      rcases least with less | ⟨same, -⟩
      · exact absurd less (show ¬ true < false by decide)
      · cases same
  · intro long victimLong
    rw [if_neg (by omega), if_neg (by omega), Prod.Lex.toLex_le_toLex] at least
    simp only [lt_self_iff_false, false_or, true_and] at least
    have kth_ne : kthLatest k (s.trace victim) ≠ kthLatest k (s.trace other) := fun same =>
      different (faithful.apart other victim _ (kthLatest_mem positive long) (same ▸ kthLatest_mem positive victimLong))
    omega

theorem evictWhere_picks_oldest (positive : 0 < k) (reachable : (system k).ReachableBy Allowed s)
    (accept : Nat → Bool) :
    (∃ entries, Iterates s.replacer.frames entries) ∧
      ∀ entries, Iterates s.replacer.frames entries →
        ((s.replacer.evictWhere accept entries).1 = none ↔ ∀ frameId, ¬ s.Candidate accept frameId) ∧
        (∀ victim, (s.replacer.evictWhere accept entries).1 = some victim → s.Candidate accept victim ∧
          ∀ other, s.Candidate accept other → other ≠ victim → Precedes k s victim other) ∧
        (∀ others, Iterates s.replacer.frames others →
          (s.replacer.evictWhere accept others).1 = (s.replacer.evictWhere accept entries).1) ∧
        ∀ frameId, (s.replacer.evictWhere accept entries).1 ≠ some frameId →
          (s.replacer.evictWhere accept entries).2.frames frameId = s.replacer.frames frameId := by
  have faithful := reachable_faithful positive reachable
  refine ⟨faithful.finite, fun entries iterates => ?_⟩
  rcases LruKReplacer.evictWhere_spec accept iterates with ⟨evicted, none_⟩ | ⟨victim, entry, evicted, candidate, most⟩
  · have absent (frameId : Nat) : ¬ s.Candidate accept frameId := by
      rw [faithful.candidate_iff]
      exact fun ⟨entry, isCandidate⟩ => none_ frameId entry isCandidate
    rw [evicted]
    refine ⟨⟨fun _ => absent, fun _ => rfl⟩, nofun, fun others otherIterates => ?_, fun _ _ => rfl⟩
    rcases LruKReplacer.evictWhere_spec accept otherIterates with ⟨same, -⟩ | ⟨_, _, -, isCandidate, -⟩
    · rw [same]
    · exact absurd isCandidate (none_ _ _)
  · have isVictim : s.Candidate accept victim := faithful.candidate_iff.mpr ⟨entry, candidate⟩
    have oldest (other : Nat) (isCandidate : s.Candidate accept other) (different : other ≠ victim) :
        Precedes k s victim other := by
      obtain ⟨otherEntry, isCandidate⟩ := faithful.candidate_iff.mp isCandidate
      exact faithful.precedes positive candidate.1 isCandidate.1 different (most other otherEntry isCandidate)
    rw [evicted]
    refine ⟨⟨nofun, fun absent => absurd isVictim (absent victim)⟩, ?_, fun others otherIterates => ?_, ?_⟩
    · rintro _ ⟨⟩
      exact ⟨isVictim, oldest⟩
    · rcases LruKReplacer.evictWhere_spec accept otherIterates with ⟨-, absent⟩ |
        ⟨second, secondEntry, same, isCandidate, mostOf⟩
      · exact absurd candidate (absent _ _)
      · rw [same]
        by_contra apart
        have different : second ≠ victim := fun same => apart (by rw [same])
        have forth := oldest second (faithful.candidate_iff.mpr ⟨_, isCandidate⟩) different
        have back := faithful.precedes positive isCandidate.1 candidate.1 different.symm (mostOf victim entry candidate)
        unfold Precedes at forth back
        omega
    · exact fun frameId kept => Function.update_of_ne (fun same => kept (by rw [same])) ..

def twoFrames : TracedReplacer :=
  [.recordAccess 0, .recordAccess 1, .recordAccess 1, .setEvictable 0 true, .setEvictable 1 true].foldl step
    (.new 2)

theorem evictWhere_picks_oldest_twice :
    (twoFrames.replacer.evictWhere (fun _ => true) [(0, ⟨[1], true⟩), (1, ⟨[2, 3], true⟩)]).1 = some 0 ∧
      Precedes 2 twoFrames 0 1 := by
  have reachable : (system 2).ReachableBy Allowed twoFrames :=
    .next (a := .setEvictable 1 true) (.next (a := .setEvictable 0 true) (.next (a := .recordAccess 1)
      (.next (a := .recordAccess 1) (.next (a := .recordAccess 0) (.start rfl) trivial rfl) trivial rfl) trivial rfl)
        trivial rfl) trivial rfl
  have iterates : Iterates twoFrames.replacer.frames [(0, ⟨[1], true⟩), (1, ⟨[2, 3], true⟩)] := by
    have first : twoFrames.replacer.frames 0 = some ⟨[1], true⟩ := rfl
    have second : twoFrames.replacer.frames 1 = some ⟨[2, 3], true⟩ := rfl
    refine ⟨by decide, fun frameId entry => ?_⟩
    match frameId with
    | 0 => simp [first, eq_comm]
    | 1 => simp [second, eq_comm]
    | other + 2 =>
      have absent : twoFrames.replacer.frames (other + 2) = none := rfl
      simp [absent]
  have picked : (twoFrames.replacer.evictWhere (fun _ => true) [(0, ⟨[1], true⟩), (1, ⟨[2, 3], true⟩)]).1 =
    some 0 := rfl
  exact ⟨picked, (((evictWhere_picks_oldest (by decide) reachable _).2 _ iterates).2.1 0 picked).2 1
    ⟨show [2, 3] ≠ [] by decide, rfl, rfl⟩ (by decide)⟩

end TracedReplacer

end SimpleRdbms.Storage
