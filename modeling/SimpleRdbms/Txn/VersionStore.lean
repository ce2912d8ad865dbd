import Mathlib.Logic.Function.Basic
import SimpleRdbms.Common.Ids

namespace SimpleRdbms.Txn
open Function (update)

structure VersionEntry where
  creatorTxnId : Nat
  beginTs : Option Nat
  endTs : Option Nat
deriving DecidableEq, Repr

namespace VersionEntry

def isGloballyVisible (entry : VersionEntry) (readTs : Nat) : Bool :=
  match entry.beginTs with
  | some beginTs =>
    if beginTs ≤ readTs then
      match entry.endTs with
      | some endTs => endTs > readTs
      | none => true
    else false
  | none => false

def isVisibleFor (entry : VersionEntry) (readerTxnId readTs : Nat) : Bool :=
  entry.creatorTxnId == readerTxnId || entry.isGloballyVisible readTs

end VersionEntry

abbrev VersionChain := List VersionEntry

namespace VersionChain

def push (chain : VersionChain) (entry : VersionEntry) : VersionChain := entry :: chain

def visibleVersionFor (chain : VersionChain) (readerTxnId readTs : Nat) : Option VersionEntry :=
  List.find? (·.isVisibleFor readerTxnId readTs) chain

def markCommitted (chain : VersionChain) (txnId commitTs : Nat) : VersionChain :=
  chain.map fun entry =>
    if entry.creatorTxnId = txnId then { entry with beginTs := some commitTs } else entry

def removeCreator (chain : VersionChain) (txnId : Nat) : VersionChain :=
  chain.filter (·.creatorTxnId ≠ txnId)

def isPrunable (chain : VersionChain) (watermark : Nat) : Bool :=
  match chain with
  | [] => true
  | newest :: _ =>
    match newest.beginTs, newest.endTs with
    | some beginTs, none => beginTs ≤ watermark
    | _, _ => false

end VersionChain

/-- `pruneCandidates` lists the row ids one by one, each with its timestamp. -/
structure VersionStore where
  chains : Rid → Option VersionChain
  writeSets : Nat → Option (List Rid)
  pruneCandidates : List (Nat × Rid)

namespace VersionStore

def new : VersionStore := { chains := fun _ => none, writeSets := fun _ => none, pruneCandidates := [] }

def recordInsert (store : VersionStore) (txnId : Nat) (rid : Rid) : VersionStore :=
  { store with
    chains := update store.chains rid (some
      (VersionChain.push ((store.chains rid).getD []) { creatorTxnId := txnId, beginTs := none, endTs := none }))
    writeSets := update store.writeSets txnId (some (((store.writeSets txnId).getD []) ++ [rid])) }

def mapChains (chains : Rid → Option VersionChain) (rids : List Rid) (change : VersionChain → VersionChain) :
    Rid → Option VersionChain := fun rid =>
  if rid ∈ rids then (chains rid).map change else chains rid

def commitVersions (store : VersionStore) (txnId commitTs : Nat) : VersionStore :=
  match store.writeSets txnId with
  | none => store
  | some rids =>
    { chains := mapChains store.chains rids (VersionChain.markCommitted · txnId commitTs)
      writeSets := update store.writeSets txnId none
      pruneCandidates := store.pruneCandidates ++ rids.map (commitTs, ·) }

def abortVersions (store : VersionStore) (txnId nextTs : Nat) : VersionStore :=
  match store.writeSets txnId with
  | none => store
  | some rids =>
    let chains := mapChains store.chains rids (VersionChain.removeCreator · txnId)
    let emptied := rids.filter fun rid => chains rid == some []
    { chains
      writeSets := update store.writeSets txnId none
      pruneCandidates := store.pruneCandidates ++ emptied.map (nextTs, ·) }

def prune (store : VersionStore) (watermark : Nat) : VersionStore :=
  let due := (store.pruneCandidates.filter (·.1 ≤ watermark)).map Prod.snd
  { store with
    chains := fun rid =>
      if rid ∈ due ∧ ((store.chains rid).any fun chain => chain.isPrunable watermark) then none
      else store.chains rid
    pruneCandidates := store.pruneCandidates.filter (watermark < ·.1) }

def isVisibleTo (store : VersionStore) (rid : Rid) (readerTxnId readTs : Nat) : Bool :=
  match store.chains rid with
  | some chain => (chain.visibleVersionFor readerTxnId readTs).isSome
  | none => true

end VersionStore

end SimpleRdbms.Txn
