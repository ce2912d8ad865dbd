import Mathlib.Data.Prod.Lex
import SimpleRdbms.Lib.System

/-!
# The LRU-K replacer

The order of the hash map is left open. Beside the replacer a run keeps what its calls said of each frame since the
frame was last tracked anew: the numbers of its accesses and the last `set_evictable`.
-/

namespace SimpleRdbms.Storage
open Function (update)

structure FrameEntry where
  history : List Nat
  evictable : Bool

structure LruKReplacer where
  k : Nat
  frames : Nat → Option FrameEntry
  clock : Nat

namespace LruKReplacer

def new (k : Nat) : LruKReplacer := { k, frames := fun _ => none, clock := 0 }

def recordAccess (r : LruKReplacer) (frameId : Nat) : LruKReplacer :=
  let timestamp := r.clock + 1
  let entry := (r.frames frameId).getD { history := [], evictable := false }
  let history := entry.history ++ [timestamp]
  { r with
    clock := timestamp
    frames := update r.frames frameId
      (some { entry with history := if history.length > r.k then history.tail else history }) }

def setEvictable (r : LruKReplacer) (frameId : Nat) (evictable : Bool) : LruKReplacer :=
  { r with frames := update r.frames frameId ((r.frames frameId).map ({ · with evictable })) }

def remove (r : LruKReplacer) (frameId : Nat) : LruKReplacer := { r with frames := update r.frames frameId none }

def metric (r : LruKReplacer) (entry : FrameEntry) : Bool ×ₗ Int :=
  if entry.history.length < r.k then toLex (true, 18446744073709551615 - (entry.history.getLast?.getD 0 : Nat))
  else toLex (false, r.clock - (entry.history.head?.getD 0 : Nat))

def consider (r : LruKReplacer) (accept : Nat → Bool) (best : Option (Nat × (Bool ×ₗ Int))) (frame : Nat × FrameEntry) :
    Option (Nat × (Bool ×ₗ Int)) :=
  if frame.2.evictable && accept frame.1 then
    match best with
    | none => some (frame.1, r.metric frame.2)
    | some (_, bestMetric) => if bestMetric < r.metric frame.2 then some (frame.1, r.metric frame.2) else best
  else best

def evictWhere (r : LruKReplacer) (accept : Nat → Bool) (entries : List (Nat × FrameEntry)) :
    Option Nat × LruKReplacer :=
  match entries.foldl (r.consider accept) none with
  | some (victim, _) => (some victim, r.remove victim)
  | none => (none, r)

end LruKReplacer

structure Iterates (frames : Nat → Option FrameEntry) (entries : List (Nat × FrameEntry)) : Prop where
  nodup : (entries.map Prod.fst).Nodup
  mem : ∀ frameId entry, (frameId, entry) ∈ entries ↔ frames frameId = some entry

inductive ReplacerAction where
  | recordAccess (frameId : Nat)
  | setEvictable (frameId : Nat) (evictable : Bool)
  | remove (frameId : Nat)
  | evictWhere (accept : Nat → Bool) (entries : List (Nat × FrameEntry))

structure TracedReplacer where
  replacer : LruKReplacer
  accesses : Nat
  trace : Nat → List Nat
  evictable : Nat → Bool

namespace TracedReplacer

def new (k : Nat) : TracedReplacer :=
  { replacer := .new k, accesses := 0, trace := fun _ => [], evictable := fun _ => false }

def forget (s : TracedReplacer) (frameId : Nat) : TracedReplacer :=
  { s with trace := update s.trace frameId [], evictable := update s.evictable frameId false }

def step (s : TracedReplacer) : ReplacerAction → TracedReplacer
  | .recordAccess frameId =>
    { s with
      replacer := s.replacer.recordAccess frameId
      accesses := s.accesses + 1
      trace := update s.trace frameId (s.trace frameId ++ [s.accesses + 1]) }
  | .setEvictable frameId evictable =>
    { s with
      replacer := s.replacer.setEvictable frameId evictable
      evictable := if s.trace frameId = [] then s.evictable else update s.evictable frameId evictable }
  | .remove frameId => { s.forget frameId with replacer := s.replacer.remove frameId }
  | .evictWhere accept entries =>
    let (victim, replacer) := s.replacer.evictWhere accept entries
    { victim.elim s s.forget with replacer }

def system (k : Nat) : Lib.System TracedReplacer ReplacerAction where
  init s := s = .new k
  step s action := some (s.step action)

def Allowed (s : TracedReplacer) : ReplacerAction → Prop
  | .evictWhere _ entries => Iterates s.replacer.frames entries
  | _ => True

end TracedReplacer

end SimpleRdbms.Storage
