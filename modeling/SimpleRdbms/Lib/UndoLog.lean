import Mathlib.Data.List.Induction
import Mathlib.Data.Option.Basic
import Mathlib.Tactic.Common

/-!
# Logs of writes and their undo

The entries of a transaction are linked backwards, and a restore links past the write it took back, so that an undo that
was cut off can go on where it stopped. By `Cursor.follow` the walk along the links meets the writes not yet taken back;
by `WellFormed.value_eq` a log in which every loser has taken all its writes back leaves the writes of the winners.
-/

namespace SimpleRdbms.Lib.UndoLog

variable {τ ℓ ν : Type*}

abbrev Patch (ℓ ν : Type*) := ℓ → Option ν

inductive Act (ℓ ν : Type*) where
  | start
  | write (before after : Patch ℓ ν)
  | restore (after : Patch ℓ ν) (next : Nat)
  | commit
  | close
  | note

structure Entry (τ ℓ ν : Type*) where
  pos : Nat
  prev : Option Nat
  txn : τ
  act : Act ℓ ν

abbrev Log (τ ℓ ν : Type*) := List (Entry τ ℓ ν)

def Act.after : Act ℓ ν → Patch ℓ ν
  | .write _ after => after
  | .restore after _ => after
  | .start | .commit | .close | .note => fun _ => none

def value (initial : ℓ → ν) (log : Log τ ℓ ν) (x : ℓ) : ν :=
  log.foldl (fun old entry => (entry.act.after x).getD old) (initial x)

def Entry.writtenBy (winner : τ → Bool) (entry : Entry τ ℓ ν) : Patch ℓ ν :=
  match entry.act with
  | .write _ after => if winner entry.txn then after else fun _ => none
  | .start | .restore _ _ | .commit | .close | .note => fun _ => none

def valueBy (winner : τ → Bool) (initial : ℓ → ν) (log : Log τ ℓ ν) (x : ℓ) : ν :=
  log.foldl (fun old entry => (entry.writtenBy winner x).getD old) (initial x)

def Committed (log : Log τ ℓ ν) (txn : τ) : Prop := ∃ entry ∈ log, entry.txn = txn ∧ entry.act = .commit

def Closed (log : Log τ ℓ ν) (txn : τ) : Prop := ∃ entry ∈ log, entry.txn = txn ∧ entry.act = .close

def Restored (log : Log τ ℓ ν) (txn : τ) : Prop :=
  ∃ entry ∈ log, entry.txn = txn ∧ ∃ after next, entry.act = .restore after next

section Append
variable (log : Log τ ℓ ν) (entry : Entry τ ℓ ν)

@[simp] theorem value_snoc (initial : ℓ → ν) (x : ℓ) :
    value initial (log ++ [entry]) x = (entry.act.after x).getD (value initial log x) := by
  simp [value]

@[simp] theorem valueBy_snoc (winner : τ → Bool) (initial : ℓ → ν) (x : ℓ) :
    valueBy winner initial (log ++ [entry]) x = (entry.writtenBy winner x).getD (valueBy winner initial log x) := by
  simp [valueBy]

theorem committed_snoc (txn : τ) :
    Committed (log ++ [entry]) txn ↔ Committed log txn ∨ entry.txn = txn ∧ entry.act = .commit := by
  simp [Committed, or_and_right, exists_or]

theorem closed_snoc (txn : τ) :
    Closed (log ++ [entry]) txn ↔ Closed log txn ∨ entry.txn = txn ∧ entry.act = .close := by
  simp [Closed, or_and_right, exists_or]

theorem restored_snoc (txn : τ) : Restored (log ++ [entry]) txn ↔
    Restored log txn ∨ entry.txn = txn ∧ ∃ after next, entry.act = .restore after next := by
  simp [Restored, or_and_right, exists_or]

theorem running_of_snoc {log : Log τ ℓ ν} {entry : Entry τ ℓ ν} {txn : τ}
    (running : ¬ Closed (log ++ [entry]) txn) : ¬ Closed log txn := fun closed =>
  running ((closed_snoc log entry txn).mpr (.inl closed))

theorem filter_snoc_of_lt {log : Log τ ℓ ν} {entry : Entry τ ℓ ν} {pos : Nat} (later : pos < entry.pos) :
    (log ++ [entry]).filter (fun e => decide (e.pos ≤ pos)) = log.filter fun e => decide (e.pos ≤ pos) := by
  simp [later]

theorem filter_eq_self_of_later {log : Log τ ℓ ν} {entry : Entry τ ℓ ν} (later : ∀ old ∈ log, old.pos < entry.pos) :
    (log ++ [entry]).filter (fun e => decide (e.pos ≤ entry.pos)) = log ++ [entry] := by
  simp only [List.filter_eq_self, List.mem_append, List.mem_singleton, decide_eq_true_eq]
  rintro old (before | rfl)
  · exact Nat.le_of_lt (later old before)
  · exact Nat.le_refl _

end Append

def bottom : List (Nat × Patch ℓ ν) → ℓ → Option ν
  | [], _ => none
  | write :: deeper, x => (bottom deeper x).or (write.2 x)

theorem bottom_eq_none {writes : List (Nat × Patch ℓ ν)} {x : ℓ} :
    bottom writes x = none ↔ ∀ write ∈ writes, write.2 x = none := by
  induction writes with
  | nil => simp [bottom]
  | cons write deeper ih => simp [bottom, ih, and_comm]

section Demote

def Entry.demote (winner : τ → Bool) (entry : Entry τ ℓ ν) : Entry τ ℓ ν :=
  { entry with
    act :=
      match entry.act with
      | .commit => if winner entry.txn then .commit else .note
      | .start => .start
      | .write before after => .write before after
      | .restore after next => .restore after next
      | .close => .close
      | .note => .note }

def demote (winner : τ → Bool) (log : Log τ ℓ ν) : Log τ ℓ ν := log.map (Entry.demote winner)

variable {winner : τ → Bool} {initial : ℓ → ν} {log : Log τ ℓ ν} {entry : Entry τ ℓ ν} {txn : τ}

theorem Entry.demote_close : (entry.demote winner).act = .close ↔ entry.act = .close := by
  unfold Entry.demote
  cases act : entry.act <;> simp
  split <;> simp

theorem Entry.demote_commit :
    (entry.demote winner).act = .commit ↔ entry.act = .commit ∧ winner entry.txn = true := by
  unfold Entry.demote
  cases act : entry.act <;> simp

theorem Entry.demote_after (entry : Entry τ ℓ ν) : (entry.demote winner).act.after = entry.act.after := by
  unfold Entry.demote
  cases act : entry.act <;> try rfl
  dsimp only
  split <;> rfl

theorem demote_snoc : demote winner (log ++ [entry]) = demote winner log ++ [entry.demote winner] := by
  simp [demote]

theorem demote_all : demote (fun _ => true) log = log := by
  refine (List.map_congr_left fun entry _ => ?_).trans (List.map_id log)
  obtain ⟨pos, prev, txn, act⟩ := entry
  cases act <;> rfl

theorem closed_demote : Closed (demote winner log) txn ↔ Closed log txn := by
  simp only [Closed, demote, List.mem_map]
  constructor
  · rintro ⟨-, ⟨entry, member, rfl⟩, mine, act⟩
    exact ⟨entry, member, mine, Entry.demote_close.mp act⟩
  · rintro ⟨entry, member, mine, act⟩
    exact ⟨_, ⟨entry, member, rfl⟩, mine, Entry.demote_close.mpr act⟩

theorem committed_demote : Committed (demote winner log) txn ↔ Committed log txn ∧ winner txn = true := by
  simp only [Committed, demote, List.mem_map]
  constructor
  · rintro ⟨-, ⟨entry, member, rfl⟩, rfl, act⟩
    obtain ⟨commits, wins⟩ := Entry.demote_commit.mp act
    exact ⟨⟨entry, member, rfl, commits⟩, wins⟩
  · rintro ⟨⟨entry, member, rfl, act⟩, wins⟩
    exact ⟨_, ⟨entry, member, rfl⟩, rfl, Entry.demote_commit.mpr ⟨act, wins⟩⟩

theorem value_demote (winner : τ → Bool) (x : ℓ) : value initial (demote winner log) x = value initial log x := by
  induction log using List.reverseRecOn with
  | nil => rfl
  | append_singleton log entry ih => rw [demote_snoc, value_snoc, value_snoc, ih, Entry.demote_after]

theorem Entry.demote_writtenBy (entry : Entry τ ℓ ν) {chosen : τ → Bool} :
    (entry.demote winner).writtenBy chosen = entry.writtenBy chosen := by
  unfold Entry.demote Entry.writtenBy
  cases act : entry.act <;> try rfl
  cases winner entry.txn <;> rfl

theorem valueBy_demote (winner : τ → Bool) {chosen : τ → Bool} (x : ℓ) :
    valueBy chosen initial (demote winner log) x = valueBy chosen initial log x := by
  induction log using List.reverseRecOn with
  | nil => rfl
  | append_singleton log entry ih => rw [demote_snoc, valueBy_snoc, valueBy_snoc, ih, Entry.demote_writtenBy]

end Demote

variable [DecidableEq τ]

def Entry.stacked (txn : τ) (stack : List (Nat × Patch ℓ ν)) (entry : Entry τ ℓ ν) : List (Nat × Patch ℓ ν) :=
  if entry.txn = txn then
    match entry.act with
    | .write before _ => (entry.pos, before) :: stack
    | .restore _ _ => stack.tail
    | .start | .commit | .close | .note => stack
  else stack

/-- The writes of a transaction that are not taken back, last one first, with what they overwrote. -/
def stack (log : Log τ ℓ ν) (txn : τ) : List (Nat × Patch ℓ ν) :=
  log.foldl (Entry.stacked txn) []

def lastPos (log : Log τ ℓ ν) (txn : τ) : Option Nat :=
  log.foldl (fun last entry => if entry.txn = txn then some entry.pos else last) none

def Cursor (log : Log τ ℓ ν) (txn : τ) (cursor : Option Nat) (rest : List (Nat × Patch ℓ ν)) : Prop :=
  match cursor with
  | none => rest = []
  | some pos => (∃ entry ∈ log, entry.txn = txn ∧ entry.pos = pos) ∧
      rest = stack (log.filter fun entry => decide (entry.pos ≤ pos)) txn

def link (next : Nat) : Option Nat := if next = 0 then none else some next

def Allowed (initial : ℓ → ν) (log : Log τ ℓ ν) (txn : τ) : Act ℓ ν → Prop
  | .start => stack log txn = []
  | .write before after =>
    (∀ x, (before x).isSome = (after x).isSome) ∧
    (∀ x v, before x = some v → v = value initial log x) ∧
    (∀ x, (before x).isSome → ∀ other, other ≠ txn → ¬ Closed log other →
      ∀ write ∈ stack log other, write.2 x = none) ∧
    ¬ Committed log txn
  | .restore after next =>
    (∃ pos rest, stack log txn = (pos, after) :: rest ∧ Cursor log txn (link next) rest) ∧ ¬ Committed log txn
  | .commit => ¬ Restored log txn
  | .close => Committed log txn ∨ stack log txn = []
  | .note => True

structure Legit (initial : ℓ → ν) (log : Log τ ℓ ν) (entry : Entry τ ℓ ν) : Prop where
  positive : 0 < entry.pos
  later : ∀ old ∈ log, old.pos < entry.pos
  linked : entry.prev = lastPos log entry.txn
  running : ¬ Closed log entry.txn
  allowed : Allowed initial log entry.txn entry.act

inductive WellFormed (initial : ℓ → ν) : Log τ ℓ ν → Prop where
  | nil : WellFormed initial []
  | snoc {log : Log τ ℓ ν} {entry : Entry τ ℓ ν} :
      WellFormed initial log → Legit initial log entry → WellFormed initial (log ++ [entry])

section Stack
variable (log : Log τ ℓ ν) (entry : Entry τ ℓ ν) (txn : τ)

@[simp] theorem stack_nil : stack ([] : Log τ ℓ ν) txn = [] := rfl

@[simp] theorem stack_snoc : stack (log ++ [entry]) txn = entry.stacked txn (stack log txn) := by
  simp [stack]

@[simp] theorem lastPos_snoc :
    lastPos (log ++ [entry]) txn = if entry.txn = txn then some entry.pos else lastPos log txn := by
  simp [lastPos]

theorem Entry.stacked_of_ne {entry : Entry τ ℓ ν} {txn : τ} (other : entry.txn ≠ txn)
    (old : List (Nat × Patch ℓ ν)) : entry.stacked txn old = old := by
  simp [Entry.stacked, other]

theorem stack_snoc_of_ne {log : Log τ ℓ ν} {entry : Entry τ ℓ ν} {txn : τ} (other : txn ≠ entry.txn) :
    stack (log ++ [entry]) txn = stack log txn := by
  rw [stack_snoc, Entry.stacked_of_ne (Ne.symm other)]

end Stack

variable {initial : ℓ → ν} {log : Log τ ℓ ν} {entry : Entry τ ℓ ν} {txn : τ}

theorem WellFormed.init (wellFormed : WellFormed initial (log ++ [entry])) :
    WellFormed initial log ∧ Legit initial log entry := by
  generalize whole : log ++ [entry] = appended at wellFormed
  cases wellFormed with
  | nil => simp at whole
  | snoc before legit =>
    obtain ⟨rfl, last⟩ := List.append_inj' whole rfl
    obtain rfl : entry = _ := by simpa using last
    exact ⟨before, legit⟩

theorem WellFormed.of_append {rest : Log τ ℓ ν} (wellFormed : WellFormed initial (log ++ rest)) :
    WellFormed initial log := by
  induction rest using List.reverseRecOn with
  | nil => simpa using wellFormed
  | append_singleton rest entry ih =>
    rw [← List.append_assoc] at wellFormed
    exact ih wellFormed.init.1

theorem WellFormed.write_uncommitted {rest : Log τ ℓ ν} {before after : Patch ℓ ν}
    (wellFormed : WellFormed initial (log ++ rest)) (member : entry ∈ rest) (writes : entry.act = .write before after) :
    ¬ Committed log entry.txn := by
  obtain ⟨front, back, rfl⟩ := List.append_of_mem member
  rw [List.append_cons, ← List.append_assoc, ← List.append_assoc] at wellFormed
  have allowed := wellFormed.of_append.init.2.allowed
  rw [writes] at allowed
  rintro ⟨commit, isCommit, mine⟩
  exact allowed.2.2.2 ⟨commit, List.mem_append_left _ isCommit, mine⟩

theorem WellFormed.positions (wellFormed : WellFormed initial log) :
    log.Pairwise (·.pos < ·.pos) ∧ ∀ entry ∈ log, 0 < entry.pos := by
  induction wellFormed with
  | nil => simp
  | snoc _ legit ih =>
    refine ⟨List.pairwise_append.mpr ⟨ih.1, by simp, ?_⟩, ?_⟩
    · intro old member new last
      obtain rfl : new = _ := by simpa using last
      exact legit.later old member
    · intro old member
      rcases List.mem_append.mp member with before | last
      · exact ih.2 old before
      · obtain rfl : old = _ := by simpa using last
        exact legit.positive

theorem Cursor.snoc {cursor : Option Nat} {rest : List (Nat × Patch ℓ ν)} (here : Cursor log txn cursor rest)
    (later : ∀ old ∈ log, old.pos < entry.pos) : Cursor (log ++ [entry]) txn cursor rest := by
  cases cursor with
  | none => exact here
  | some pos =>
    obtain ⟨⟨old, member, mine, rfl⟩, stacked⟩ := here
    refine ⟨⟨old, List.mem_append_left _ member, mine, rfl⟩, ?_⟩
    rw [filter_snoc_of_lt (later old member)]
    exact stacked

theorem Cursor.last (txn : τ) (wellFormed : WellFormed initial log) :
    Cursor log txn (lastPos log txn) (stack log txn) := by
  induction wellFormed with
  | nil => rfl
  | @snoc log entry before legit ih =>
    by_cases mine : entry.txn = txn
    · simp only [lastPos_snoc, mine, if_true]
      exact ⟨⟨entry, by simp, mine, rfl⟩, by rw [filter_eq_self_of_later legit.later]⟩
    · rw [lastPos_snoc, if_neg mine, stack_snoc, Entry.stacked_of_ne mine]
      exact ih.snoc legit.later

def Follows (log : Log τ ℓ ν) (entry : Entry τ ℓ ν) (rest : List (Nat × Patch ℓ ν)) : Prop :=
  match entry.act with
  | .write before _ => ∃ others, rest = (entry.pos, before) :: others ∧ Cursor log entry.txn entry.prev others
  | .restore _ next => Cursor log entry.txn (link next) rest
  | .start => rest = []
  | .commit | .close | .note => Cursor log entry.txn entry.prev rest

theorem Follows.snoc {new : Entry τ ℓ ν} {rest : List (Nat × Patch ℓ ν)} (follows : Follows log entry rest)
    (later : ∀ old ∈ log, old.pos < new.pos) : Follows (log ++ [new]) entry rest := by
  unfold Follows at follows ⊢
  cases act : entry.act with
  | write before after =>
    rw [act] at follows
    obtain ⟨others, top, cursor⟩ := follows
    exact ⟨others, top, cursor.snoc later⟩
  | start => rwa [act] at follows
  | restore after next => rw [act] at follows; exact follows.snoc later
  | commit => rw [act] at follows; exact follows.snoc later
  | close => rw [act] at follows; exact follows.snoc later
  | note => rw [act] at follows; exact follows.snoc later

theorem Legit.follows (wellFormed : WellFormed initial log) (legit : Legit initial log entry) :
    Follows log entry (entry.stacked entry.txn (stack log entry.txn)) := by
  have previous : Cursor log entry.txn entry.prev (stack log entry.txn) := by
    rw [legit.linked]
    exact Cursor.last _ wellFormed
  have allowed := legit.allowed
  unfold Follows Entry.stacked
  rw [if_pos rfl]
  cases act : entry.act with
  | write before after => exact ⟨_, rfl, previous⟩
  | start => simpa only [act, Allowed] using allowed
  | restore after next =>
    rw [act] at allowed
    obtain ⟨⟨pos, rest, top, cursor⟩, -⟩ := allowed
    rw [top]
    exact cursor
  | commit => exact previous
  | close => exact previous
  | note => exact previous

theorem Cursor.follow (wellFormed : WellFormed initial log) (member : entry ∈ log)
    {rest : List (Nat × Patch ℓ ν)} (here : Cursor log entry.txn (some entry.pos) rest) : Follows log entry rest := by
  obtain ⟨-, rfl⟩ := here
  induction wellFormed with
  | nil => simp at member
  | @snoc log last before legit ih =>
    rcases List.mem_append.mp member with old | new
    · rw [filter_snoc_of_lt (legit.later entry old)]
      exact (ih old).snoc legit.later
    · obtain rfl : entry = last := by simpa using new
      rw [filter_eq_self_of_later legit.later, stack_snoc]
      exact (legit.follows before).snoc legit.later

theorem WellFormed.backwards (wellFormed : WellFormed initial log) (member : entry ∈ log) :
    (∀ pos, entry.prev = some pos → pos < entry.pos) ∧
      ∀ after next, entry.act = .restore after next → next < entry.pos := by
  have below : ∀ {log : Log τ ℓ ν} {entry : Entry τ ℓ ν} {cursor : Option Nat} {rest : List (Nat × Patch ℓ ν)}
      {pos : Nat}, (∀ old ∈ log, old.pos < entry.pos) → Cursor log entry.txn cursor rest → cursor = some pos →
        pos < entry.pos := by
    rintro log entry cursor rest pos later here rfl
    obtain ⟨⟨old, isOld, -, rfl⟩, -⟩ := here
    exact later old isOld
  induction wellFormed with
  | nil => simp at member
  | @snoc log last before legit ih =>
    rcases List.mem_append.mp member with old | new
    · exact ih old
    · obtain rfl : entry = last := by simpa using new
      refine ⟨fun pos linked => ?_, fun after next act => ?_⟩
      · exact below legit.later (Cursor.last _ before) (legit.linked ▸ linked)
      · have allowed := legit.allowed
        rw [act] at allowed
        obtain ⟨⟨pos, rest, -, cursor⟩, -⟩ := allowed
        by_cases none : next = 0
        · subst none
          exact legit.positive
        · exact below legit.later cursor (if_neg none)

section Once
variable {rest : Log τ ℓ ν} {pos : Nat}

theorem stack_member {write : Nat × Patch ℓ ν} (member : write ∈ stack log txn) :
    ∃ entry ∈ log, entry.pos = write.1 ∧ entry.txn = txn ∧ ∃ after, entry.act = .write write.2 after := by
  induction log using List.reverseRecOn with
  | nil => simp at member
  | append_singleton log last ih =>
    have earlier : write ∈ stack log txn → ∃ entry ∈ log ++ [last], entry.pos = write.1 ∧ entry.txn = txn ∧
        ∃ after, entry.act = .write write.2 after := by
      intro old
      obtain ⟨entry, isEntry, same⟩ := ih old
      exact ⟨entry, List.mem_append_left _ isEntry, same⟩
    rw [stack_snoc, Entry.stacked] at member
    split at member
    · rename_i mine
      split at member
      · rename_i act
        rcases List.mem_cons.mp member with rfl | old
        · exact ⟨last, by simp, rfl, mine, _, act⟩
        · exact earlier old
      · exact earlier (List.mem_of_mem_tail member)
      all_goals exact earlier member
    · exact earlier member

theorem WellFormed.stack_ordered (wellFormed : WellFormed initial log) (txn : τ) :
    (stack log txn).Pairwise fun upper lower => lower.1 < upper.1 := by
  induction wellFormed with
  | nil => simp
  | @snoc log last _ legit ih =>
    rw [stack_snoc, Entry.stacked]
    split
    · split
      · refine List.pairwise_cons.mpr ⟨fun write member => ?_, ih⟩
        obtain ⟨entry, isEntry, same, -⟩ := stack_member member
        exact same ▸ legit.later entry isEntry
      · exact ih.tail
      all_goals exact ih
    · exact ih

theorem WellFormed.stack_popped (wellFormed : WellFormed initial (log ++ rest))
    (inside : ∃ entry ∈ log, entry.pos = pos)
    (popped : ∀ write ∈ stack log txn, write.1 ≠ pos) : ∀ write ∈ stack (log ++ rest) txn, write.1 ≠ pos := by
  induction rest using List.reverseRecOn with
  | nil => simpa using popped
  | append_singleton rest last ih =>
    rw [← List.append_assoc] at wellFormed ⊢
    obtain ⟨before, legit⟩ := wellFormed.init
    have older := ih before
    rw [stack_snoc, Entry.stacked]
    split
    · split
      · intro write member
        rcases List.mem_cons.mp member with rfl | old
        · obtain ⟨entry, isEntry, same⟩ := inside
          have := legit.later entry (List.mem_append_left _ isEntry)
          exact fun here => absurd (here.trans same.symm) (by simp; omega)
        · exact older write old
      · exact fun write member => older write (List.mem_of_mem_tail member)
      all_goals exact older
    · exact older

theorem lastPos_ge (ordered : log.Pairwise (·.pos < ·.pos)) (member : entry ∈ log) :
    ∃ last, lastPos log entry.txn = some last ∧ entry.pos ≤ last := by
  induction log using List.reverseRecOn with
  | nil => simp at member
  | append_singleton log new ih =>
    obtain ⟨older, -, before⟩ := List.pairwise_append.mp ordered
    rw [lastPos_snoc]
    rcases List.mem_append.mp member with old | isNew
    · split
      · exact ⟨new.pos, rfl, Nat.le_of_lt (before entry old new (by simp))⟩
      · exact ih older old
    · obtain rfl : entry = new := by simpa using isNew
      exact ⟨entry.pos, if_pos rfl, Nat.le_refl _⟩

theorem WellFormed.prev_lt (wellFormed : WellFormed initial (log ++ entry :: rest)) {later : Entry τ ℓ ν}
    (member : later ∈ rest) (same : later.txn = entry.txn) : entry.prev.getD 0 < later.prev.getD 0 := by
  obtain ⟨middle, tail, rfl⟩ := List.append_of_mem member
  have whole : WellFormed initial (((log ++ entry :: middle) ++ [later]) ++ tail) := by simpa using wellFormed
  obtain ⟨before, legit⟩ := whole.of_append.init
  obtain ⟨last, linked, low⟩ := lastPos_ge before.positions.1 (show entry ∈ log ++ entry :: middle by simp)
  have grown : WellFormed initial ((log ++ [entry]) ++ middle) := by simpa using before
  have first := grown.of_append
  rw [legit.linked, same, linked]
  have back := (first.backwards (show entry ∈ log ++ [entry] by simp)).1
  have positive := first.init.2.positive
  cases link : entry.prev with
  | none => exact Nat.lt_of_lt_of_le positive low
  | some pos => exact Nat.lt_of_lt_of_le (back pos link) low

/-- Every restore takes back the last write that is left, and links to what came before that write. -/
def Exact (log : Log τ ℓ ν) : Prop :=
  ∀ before entry rest, log = before ++ entry :: rest → ∀ after next, entry.act = .restore after next →
    ∃ write ∈ before, write.txn = entry.txn ∧ write.prev.getD 0 = next ∧
      ∃ deeper, stack before entry.txn = (write.pos, after) :: deeper

theorem Exact.of_append (exact_ : Exact (log ++ rest)) : Exact log := by
  intro before entry tail split
  refine exact_ before entry (tail ++ rest) ?_
  rw [split]
  simp

theorem Exact.snoc (exact_ : Exact log) (last : ∀ after next, entry.act = .restore after next →
    ∃ write ∈ log, write.txn = entry.txn ∧ write.prev.getD 0 = next ∧
      ∃ deeper, stack log entry.txn = (write.pos, after) :: deeper) : Exact (log ++ [entry]) := by
  intro before found tail split
  rcases List.eq_nil_or_concat tail with rfl | ⟨middle, final, rfl⟩
  · obtain ⟨rfl, same⟩ := List.append_inj' split rfl
    obtain rfl : entry = found := by simpa using same
    exact last
  · have regroup : log ++ [entry] = (before ++ found :: middle) ++ [final] := by
      rw [split]
      simp
    obtain ⟨rfl, -⟩ := List.append_inj' regroup rfl
    exact exact_ before found middle rfl

theorem Exact.once (exact_ : Exact log) (wellFormed : WellFormed initial log) {first second : Entry τ ℓ ν}
    (isFirst : first ∈ log) (isSecond : second ∈ log) (same : first.txn = second.txn) {next : Nat}
    {after after' : Patch ℓ ν} (takes : first.act = .restore after next) (takes' : second.act = .restore after' next) :
    first = second := by
  have apart : ∀ {first second : Entry τ ℓ ν} {after after' : Patch ℓ ν}, first.txn = second.txn →
      first.act = .restore after next → second.act = .restore after' next → ∀ before rest,
      log = before ++ first :: rest → second ∉ rest := by
    intro first second after after' same takes takes' before rest split isSecond
    obtain ⟨middle, tail, rfl⟩ := List.append_of_mem isSecond
    obtain ⟨write, isWrite, mine, linked, deeper, top⟩ := exact_ before first _ split after next takes
    obtain ⟨write', isWrite', mine', linked', deeper', top'⟩ :=
      exact_ (before ++ first :: middle) second tail (by simp [split]) after' next takes'
    have whole : WellFormed initial ((before ++ first :: middle) ++ second :: tail) := by
      simpa [split] using wellFormed
    have upTo := whole.of_append
    -- both take back the same write
    have unique : write = write' := by
      by_contra different
      have within : write ∈ before ++ first :: middle := List.mem_append_left _ isWrite
      have samePrev : write.prev.getD 0 = write'.prev.getD 0 := linked.trans linked'.symm
      obtain ⟨front, back, cut⟩ := List.append_of_mem within
      rw [cut] at isWrite' upTo
      have sameTxn : write'.txn = write.txn := mine'.trans (same.symm.trans mine.symm)
      rcases List.mem_append.mp isWrite' with earlier | later
      · obtain ⟨front', back', rfl⟩ := List.append_of_mem earlier
        have upTo' : WellFormed initial (front' ++ write' :: (back' ++ write :: back)) := by simpa using upTo
        have := upTo'.prev_lt (show write ∈ back' ++ write :: back by simp) sameTxn.symm
        omega
      · rcases List.mem_cons.mp later with rfl | later
        · exact different rfl
        · have := upTo.prev_lt later sameTxn
          omega
    subst unique
    have popped : ∀ taken ∈ stack (before ++ [first]) second.txn, taken.1 ≠ write.pos := by
      have ordered := upTo.of_append.stack_ordered first.txn
      rw [top] at ordered
      rw [stack_snoc, ← same, top, Entry.stacked, if_pos rfl, takes]
      exact fun taken member => Nat.ne_of_lt ((List.pairwise_cons.mp ordered).1 taken member)
    have regroup : before ++ first :: middle = (before ++ [first]) ++ middle := by simp
    rw [regroup] at upTo top'
    refine upTo.stack_popped ⟨write, List.mem_append_left _ isWrite, rfl⟩ popped (write.pos, after') ?_ rfl
    rw [top']
    exact List.mem_cons_self
  obtain ⟨before, rest, split⟩ := List.append_of_mem isFirst
  rw [split] at isSecond
  rcases List.mem_append.mp isSecond with earlier | later
  · obtain ⟨front, back, rfl⟩ := List.append_of_mem earlier
    exact absurd (by simp) (apart same.symm takes' takes front (back ++ first :: rest) (by simp [split]))
  · rcases List.mem_cons.mp later with rfl | later
    · rfl
    · exact absurd later (apart same takes takes' before rest split)

end Once

theorem WellFormed.committed_not_restored (wellFormed : WellFormed initial log) (committed : Committed log txn) :
    ¬ Restored log txn := by
  induction wellFormed with
  | nil => simp [Committed] at committed
  | @snoc log entry before legit ih =>
    have allowed := legit.allowed
    rw [committed_snoc] at committed
    rw [restored_snoc]
    rintro (restored | ⟨mine, after, next, act⟩)
    · rcases committed with old | ⟨rfl, act⟩
      · exact ih old restored
      · rw [act] at allowed
        exact allowed restored
    · subst mine
      rcases committed with old | ⟨-, commits⟩
      · rw [act] at allowed
        exact allowed.2 old
      · simp [act] at commits

theorem WellFormed.closed_settled (wellFormed : WellFormed initial log) (closed : Closed log txn) :
    Committed log txn ∨ stack log txn = [] := by
  induction wellFormed with
  | nil => exact .inr rfl
  | @snoc log entry before legit ih =>
    rw [committed_snoc, stack_snoc]
    rcases (closed_snoc log entry txn).mp closed with old | ⟨rfl, act⟩
    · have other : entry.txn ≠ txn := fun mine => legit.running (mine ▸ old)
      rw [Entry.stacked_of_ne other]
      exact (ih old).imp_left .inl
    · have allowed := legit.allowed
      rw [act] at allowed
      simpa [Entry.stacked, act, Allowed] using allowed

/-- Taking back what the losers have left gives what the winners wrote. -/
structure Rolled (winner : τ → Bool) (initial : ℓ → ν) (log : Log τ ℓ ν) (x : ℓ) : Prop where
  one : ∀ txn other, txn ≠ other → ¬ Closed log txn → ¬ Closed log other →
    bottom (stack log txn) x = none ∨ bottom (stack log other) x = none
  loser : ∀ txn, winner txn = false → ∀ v, bottom (stack log txn) x = some v → valueBy winner initial log x = v
  clean : (∀ txn, winner txn = false → bottom (stack log txn) x = none) →
    value initial log x = valueBy winner initial log x

section Roll
variable {winner : τ → Bool} {x : ℓ}

theorem Rolled.quiet (rolled : Rolled winner initial log x) (untouched : entry.act.after x = none)
    (unwritten : entry.writtenBy winner x = none)
    (same : bottom (entry.stacked entry.txn (stack log entry.txn)) x = bottom (stack log entry.txn) x) :
    Rolled winner initial (log ++ [entry]) x := by
  have bottoms : ∀ txn, bottom (stack (log ++ [entry]) txn) x = bottom (stack log txn) x := by
    intro txn
    rw [stack_snoc]
    by_cases mine : entry.txn = txn
    · subst mine
      exact same
    · rw [Entry.stacked_of_ne mine]
  constructor
  · intro txn other different first second
    rw [bottoms, bottoms]
    exact rolled.one txn other different (running_of_snoc first) (running_of_snoc second)
  · intro txn loses v
    rw [bottoms, valueBy_snoc, unwritten]
    exact rolled.loser txn loses v
  · intro none
    rw [value_snoc, untouched, valueBy_snoc, unwritten]
    exact rolled.clean fun txn loses => by rw [← bottoms, none txn loses]

theorem Rolled.write {before after : Patch ℓ ν} {old new : ν} (act : entry.act = .write before after)
    (rolled : Rolled winner initial log x) (legit : Legit initial log entry)
    (settled : ∀ txn, winner txn = false → Closed log txn → stack log txn = [])
    (overwrites : before x = some old) (writes : after x = some new) : Rolled winner initial (log ++ [entry]) x := by
  have allowed := legit.allowed
  rw [act] at allowed
  obtain ⟨-, current, free, -⟩ := allowed
  have others : ∀ txn, txn ≠ entry.txn → ¬ Closed log txn → bottom (stack log txn) x = none := by
    intro txn different running
    exact bottom_eq_none.mpr (free x (by simp [overwrites]) txn different running)
  have mine : stack (log ++ [entry]) entry.txn = (entry.pos, before) :: stack log entry.txn := by
    simp [Entry.stacked, act]
  have lost : ∀ txn, txn ≠ entry.txn → winner txn = false → bottom (stack log txn) x = none := by
    intro txn different loses
    by_cases done : Closed log txn
    · rw [settled txn loses done]
      rfl
    · exact others txn different done
  constructor
  · intro txn other different first second
    by_cases here : txn = entry.txn
    · have there : other ≠ entry.txn := fun same => different (here.trans same.symm)
      right
      rw [stack_snoc_of_ne there]
      exact others other there (running_of_snoc second)
    · left
      rw [stack_snoc_of_ne here]
      exact others txn here (running_of_snoc first)
  · intro txn loses v first
    by_cases here : txn = entry.txn
    · subst here
      rw [mine] at first
      rw [valueBy_snoc, Entry.writtenBy, act]
      simp only [loses, Bool.false_eq_true, if_false, Option.getD_none]
      cases deeper : bottom (stack log entry.txn) x with
      | some w =>
        rw [bottom, deeper, Option.some_or] at first
        exact Option.some.inj first ▸ rolled.loser entry.txn loses w deeper
      | none =>
        rw [bottom, deeper, Option.none_or] at first
        obtain rfl : old = v := Option.some.inj (overwrites.symm.trans first)
        rw [current x old overwrites]
        refine (rolled.clean fun txn loses => ?_).symm
        by_cases same : txn = entry.txn
        · rw [same, deeper]
        · exact lost txn same loses
    · rw [stack_snoc_of_ne here, lost txn here loses] at first
      simp at first
  · intro none
    cases wins : winner entry.txn with
    | true => simp [Entry.writtenBy, act, wins, Act.after, writes]
    | false =>
      have covered := none entry.txn wins
      rw [mine, bottom_eq_none] at covered
      simp [overwrites] at covered

theorem Rolled.restore {after : Patch ℓ ν} {next : Nat} {old : ν} (act : entry.act = .restore after next)
    (rolled : Rolled winner initial log x) (legit : Legit initial log entry)
    (loses : winner entry.txn = false) (restores : after x = some old) : Rolled winner initial (log ++ [entry]) x := by
  have allowed := legit.allowed
  rw [act] at allowed
  obtain ⟨⟨pos, rest, top, -⟩, -⟩ := allowed
  have mine : stack (log ++ [entry]) entry.txn = rest := by simp [Entry.stacked, act, top]
  have before : bottom (stack log entry.txn) x = some ((bottom rest x).getD old) := by
    rw [top, bottom]
    cases bottom rest x with
    | none => exact restores
    | some v => rfl
  have others : ∀ txn, txn ≠ entry.txn → ¬ Closed log txn → bottom (stack log txn) x = none := by
    intro txn different running
    refine (rolled.one txn entry.txn different running legit.running).resolve_right ?_
    simp [before]
  have same : valueBy winner initial (log ++ [entry]) x = valueBy winner initial log x := by
    simp [Entry.writtenBy, act]
  constructor
  · intro txn other different first second
    by_cases here : txn = entry.txn
    · have there : other ≠ entry.txn := fun eq => different (here.trans eq.symm)
      right
      rw [stack_snoc_of_ne there]
      exact others other there (running_of_snoc second)
    · left
      rw [stack_snoc_of_ne here]
      exact others txn here (running_of_snoc first)
  · intro txn loses' v first
    rw [same]
    by_cases here : txn = entry.txn
    · subst here
      rw [mine] at first
      refine rolled.loser entry.txn loses v ?_
      rw [before, first]
      rfl
    · rw [stack_snoc_of_ne here] at first
      exact rolled.loser txn loses' v first
  · intro none
    have empty := none entry.txn loses
    rw [mine] at empty
    rw [same, value_snoc, act, Act.after, restores, Option.getD_some]
    refine (rolled.loser entry.txn loses old ?_).symm
    rw [before, empty]
    rfl

theorem WellFormed.rolled (wellFormed : WellFormed initial log)
    (keeps : ∀ txn, winner txn = true → ¬ Restored log txn)
    (settled : ∀ txn, Closed log txn → Committed log txn → winner txn = true) : Rolled winner initial log x := by
  induction wellFormed with
  | nil => exact ⟨by simp [bottom], by simp [bottom], fun _ => rfl⟩
  | @snoc log entry before legit ih =>
    have older : Rolled winner initial log x := by
      refine ih (fun txn wins restored => ?_) (fun txn closed committed => ?_)
      · exact keeps txn wins ((restored_snoc log entry txn).mpr (.inl restored))
      · exact settled txn ((closed_snoc log entry txn).mpr (.inl closed))
          ((committed_snoc log entry txn).mpr (.inl committed))
    have finished : ∀ txn, winner txn = false → Closed log txn → stack log txn = [] := by
      intro txn loses closed
      refine (before.closed_settled closed).resolve_left fun committed => ?_
      have wins := settled txn ((closed_snoc log entry txn).mpr (.inl closed))
        ((committed_snoc log entry txn).mpr (.inl committed))
      simp [loses] at wins
    cases act : entry.act with
    | write overwritten written =>
      have allowed := legit.allowed
      rw [act] at allowed
      have domain := allowed.1 x
      cases overwrites : overwritten x with
      | none =>
        have writes : written x = none := by simpa [overwrites] using domain
        refine older.quiet (by simp [act, Act.after, writes]) ?_ ?_
        · unfold Entry.writtenBy
          rw [act]
          dsimp only
          split <;> simp [writes]
        · simp [Entry.stacked, act, bottom, overwrites]
      | some old =>
        obtain ⟨new, writes⟩ : ∃ new, written x = some new := by
          rw [overwrites] at domain
          exact Option.isSome_iff_exists.mp domain.symm
        exact older.write act legit finished overwrites writes
    | restore restored next =>
      cases restores : restored x with
      | none =>
        have allowed := legit.allowed
        rw [act] at allowed
        obtain ⟨⟨pos, rest, top, -⟩, -⟩ := allowed
        refine older.quiet (by simp [act, Act.after, restores]) (by simp [Entry.writtenBy, act]) ?_
        simp [Entry.stacked, act, top, bottom, restores]
      | some old =>
        have loses : winner entry.txn = false := by
          by_contra wins
          refine keeps entry.txn (by simpa using wins) ?_
          exact (restored_snoc log entry entry.txn).mpr (.inr ⟨rfl, restored, next, act⟩)
        exact older.restore act legit loses restores
    | start | commit | close | note =>
      exact older.quiet (by simp [act, Act.after]) (by simp [Entry.writtenBy, act]) (by simp [Entry.stacked, act])

theorem WellFormed.value_eq (wellFormed : WellFormed initial log)
    (committed : ∀ txn, winner txn = true → Committed log txn)
    (settled : ∀ txn, Closed log txn → Committed log txn → winner txn = true)
    (undone : ∀ txn, winner txn = false → ∀ write ∈ stack log txn, write.2 x = none) :
    value initial log x = valueBy winner initial log x := by
  have rolled : Rolled winner initial log x :=
    wellFormed.rolled (fun txn wins => wellFormed.committed_not_restored (committed txn wins)) settled
  exact rolled.clean fun txn loses => bottom_eq_none.mpr (undone txn loses)

end Roll

section Demote

variable {winner : τ → Bool}

theorem Entry.demote_stacked (entry : Entry τ ℓ ν) (old : List (Nat × Patch ℓ ν)) :
    (entry.demote winner).stacked txn old = entry.stacked txn old := by
  unfold Entry.stacked Entry.demote
  cases act : entry.act <;> try rfl
  cases winner entry.txn <;> simp

theorem stack_demote : stack (demote winner log) txn = stack log txn := by
  induction log using List.reverseRecOn with
  | nil => rfl
  | append_singleton log entry ih => rw [demote_snoc, stack_snoc, stack_snoc, ih, Entry.demote_stacked]

theorem lastPos_demote : lastPos (demote winner log) txn = lastPos log txn := by
  induction log using List.reverseRecOn with
  | nil => rfl
  | append_singleton log entry ih =>
    rw [demote_snoc, lastPos_snoc, lastPos_snoc, ih]
    rfl

end Demote

end SimpleRdbms.Lib.UndoLog
