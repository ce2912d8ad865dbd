import Mathlib.Data.Finset.Card
import Mathlib.Data.Finset.Range
import SimpleRdbms.Proof.SlottedPages

namespace SimpleRdbms.Storage
open Function (update)
open Heap Lib

inductive Linked (store : PageStore) : List Nat → Prop where
  | last {page : Nat} (isLast : slottedNextPageId (store.pages page) = none) : Linked store [page]
  | link {page next : Nat} {rest : List Nat} (isNext : slottedNextPageId (store.pages page) = some next)
      (linked : Linked store (next :: rest)) : Linked store (page :: next :: rest)

structure Chain (heap : TableHeap) (store : PageStore) (ids : List Nat) (entries : Nat → List Entry) : Prop where
  first : ids.head? = some heap.firstPageId
  distinct : ids.Nodup
  allocated : ∀ page ∈ ids, 0 < page ∧ page < store.next
  few : store.next < 2 ^ 32
  linked : Linked store ids
  slotted : ∀ page ∈ ids, Slotted (store.pages page) (entries page)
  outside : ∀ page ∉ ids, entries page = []

variable {heap : TableHeap} {store : PageStore} {ids before after : List Nat} {entries : Nat → List Entry} {page : Nat}

theorem Linked.congr {store' : PageStore} (linked : Linked store ids)
    (same : ∀ page ∈ ids, slottedNextPageId (store'.pages page) = slottedNextPageId (store.pages page)) :
    Linked store' ids := by
  induction linked with
  | last isLast => exact .last ((same _ List.mem_cons_self).trans isLast)
  | link isNext _ ih =>
    exact .link ((same _ List.mem_cons_self).trans isNext)
      (ih fun other member => same other (List.mem_cons_of_mem _ member))

theorem Linked.drop (linked : Linked store (before ++ page :: after)) : Linked store (page :: after) := by
  induction before with
  | nil => exact linked
  | cons id before ih =>
    cases before with
    | nil =>
      cases linked with
      | link _ linked => exact linked
    | cons next before =>
      cases linked with
      | link _ linked => exact ih linked

theorem Linked.next (linked : Linked store (page :: after)) : slottedNextPageId (store.pages page) = after.head? := by
  cases linked with
  | last isLast => exact isLast
  | link isNext _ => exact isNext

theorem Linked.append {store' : PageStore} {new : Nat} (linked : Linked store (before ++ [page]))
    (same : ∀ other ∈ before, slottedNextPageId (store'.pages other) = slottedNextPageId (store.pages other))
    (link : slottedNextPageId (store'.pages page) = some new) (isLast : slottedNextPageId (store'.pages new) = none) :
    Linked store' (before ++ [page, new]) := by
  induction before with
  | nil => exact .link link (.last isLast)
  | cons id before ih =>
    have next := linked.next
    rw [← same id List.mem_cons_self] at next
    have rest : Linked store (before ++ [page]) := by
      cases before with
      | nil =>
        cases linked with
        | link _ linked => exact linked
      | cons _ _ =>
        cases linked with
        | link _ linked => exact linked
    have others := ih rest fun other member => same other (List.mem_cons_of_mem _ member)
    cases before with
    | nil => exact .link next others
    | cons _ _ => exact .link next others

def extended (store : PageStore) (after : Nat) : PageStore where
  pages := update (update store.pages store.next (SlottedPage.init zeroData)) after
    (SlottedPage.setNextPageId (store.pages after) store.next)
  next := store.next + 1

theorem appendPageAfter_eq (room : store.next + 1 < 2 ^ 32) (different : page ≠ store.next) :
    TableHeap.appendPageAfter store page = (store.next, extended store page) := by
  simp only [TableHeap.appendPageAfter, PageStore.newPage, PageStore.write, extended, Function.update_self,
    Function.update_idem, Function.update_of_ne different, Nat.mod_eq_of_lt room]

namespace Chain

theorem head_mem (chain : Chain heap store ids entries) : heap.firstPageId ∈ ids := List.mem_of_head? chain.first

theorem set (chain : Chain heap store ids entries) (member : page ∈ ids) {data : PageData} {changed : List Entry}
    (sameLink : slottedNextPageId data = slottedNextPageId (store.pages page)) (slotted : Slotted data changed) :
    Chain heap (store.write page data) ids (update entries page changed) := by
  refine ⟨chain.first, chain.distinct, chain.allocated, chain.few, chain.linked.congr fun other _ => ?_,
    fun other isPage => ?_, fun other notPage => ?_⟩
  · by_cases same : other = page
    · subst same
      simpa [PageStore.write] using sameLink
    · simp [PageStore.write, same]
  · by_cases same : other = page
    · subst same
      simpa [PageStore.write] using slotted
    · simpa [PageStore.write, same] using chain.slotted other isPage
  · have different : other ≠ page := fun same => notPage (same ▸ member)
    rw [Function.update_of_ne different]
    exact chain.outside other notPage

theorem newPage (chain : Chain heap store ids entries) (room : store.next + 1 < 2 ^ 32) :
    Chain heap store.newPage.2 ids entries := by
  have same (other : Nat) (isPage : other ∈ ids) : store.newPage.2.pages other = store.pages other :=
    Function.update_of_ne (chain.allocated other isPage).2.ne _ _
  have next : store.newPage.2.next = store.next + 1 := Nat.mod_eq_of_lt room
  refine ⟨chain.first, chain.distinct, fun other isPage => ?_, next ▸ room, chain.linked.congr fun other isPage => ?_,
    fun other isPage => ?_, chain.outside⟩
  · have := chain.allocated other isPage
    exact ⟨this.1, by omega⟩
  · rw [same other isPage]
  · rw [same other isPage]
    exact chain.slotted other isPage

theorem append (chain : Chain heap store (before ++ [page]) entries) (room : store.next + 1 < 2 ^ 32) :
    ∃ new store', TableHeap.appendPageAfter store page = (new, store') ∧
      Chain heap store' (before ++ [page, new]) entries ∧ entries new = [] := by
  have member : page ∈ before ++ [page] := List.mem_append_right _ List.mem_cons_self
  have fresh : store.next ∉ before ++ [page] := fun isPage => (chain.allocated _ isPage).2.false
  have different : page ≠ store.next := (chain.allocated page member).2.ne
  have positive : 0 < store.next := (chain.allocated page member).1.trans (chain.allocated page member).2
  have link : (extended store page).pages page = SlottedPage.setNextPageId (store.pages page) store.next :=
    Function.update_self _ _ _
  have new : (extended store page).pages store.next = SlottedPage.init zeroData := by
    simp [extended, Ne.symm different]
  have same (other : Nat) (isPage : other ∈ before ++ [page]) (notLast : other ≠ page) :
      (extended store page).pages other = store.pages other := by
    have : other ≠ store.next := fun isNew => fresh (isNew ▸ isPage)
    simp [extended, this, notLast]
  have isOutside := chain.outside store.next fresh
  have split : before ++ [page, store.next] = (before ++ [page]) ++ [store.next] := by simp
  refine ⟨store.next, _, appendPageAfter_eq room different, ⟨?_, ?_, ?_, room, ?_, ?_, ?_⟩, isOutside⟩
  · have first := chain.first
    cases before <;> exact first
  · rw [split]
    exact List.nodup_append.mpr ⟨chain.distinct, List.nodup_singleton _, fun other isPage new isNew => by
      rw [List.mem_singleton.mp isNew]
      exact fun same => fresh (same ▸ isPage)⟩
  · intro other isPage
    rw [split] at isPage
    rcases List.mem_append.mp isPage with old | isNew
    · have := chain.allocated other old
      exact ⟨this.1, by simp only [extended]; omega⟩
    · rw [List.mem_singleton.mp isNew]
      exact ⟨positive, by simp only [extended]; omega⟩
  · refine chain.linked.append (fun other isBefore => ?_) ?_ ?_
    · have notLast : other ≠ page := by
        rintro rfl
        exact (List.nodup_append.mp chain.distinct).2.2 other isBefore other List.mem_cons_self rfl
      rw [same other (List.mem_append_left _ isBefore) notLast]
    · rw [link, nextPageId_set _ positive chain.few]
    · rw [new, nextPageId_init]
  · intro other isPage
    rw [split] at isPage
    rcases List.mem_append.mp isPage with old | isNew
    · by_cases isLast : other = page
      · rw [isLast, link]
        exact (chain.slotted page member).setNextPageId store.next
      · rw [same other old isLast]
        exact chain.slotted other old
    · rw [List.mem_singleton.mp isNew, new, isOutside]
      exact .init _
  · intro other notPage
    rw [split] at notPage
    exact chain.outside other fun old => notPage (List.mem_append_left _ old)

variable {bytes : Bytes}

def Inserted (heap : TableHeap) (entries : Nat → List Entry) (bytes : Bytes) (store : PageStore) (rid : Rid) : Prop :=
  rid.slot = (entries rid.pageId).length ∧ ∃ ids offset,
    Chain heap store ids (update entries rid.pageId (entries rid.pageId ++ [⟨offset, bytes.length, some bytes⟩]))

theorem insert_here (chain : Chain heap store ids entries) (nonempty : bytes ≠ []) (member : page ∈ ids)
    {data : PageData} {slot : Nat} (inserted : SlottedPage.insert (store.pages page) bytes = some (data, slot)) :
    Inserted heap entries bytes (store.write page data) ⟨page, slot⟩ := by
  obtain ⟨isSlot, sameLink, offset, slotted⟩ := (chain.slotted page member).insert_some nonempty inserted
  exact ⟨isSlot, ids, offset, chain.set member sameLink slotted⟩

theorem insertFrom (chain : Chain heap store (before ++ page :: after) entries) (nonempty : bytes ≠ [])
    (fits : bytes.length ≤ MAX_TUPLE_SIZE) (room : store.next + 1 < 2 ^ 32) {fuel : Nat}
    (enough : after.length + 2 ≤ fuel) :
    ∃ store' rid, TableHeap.insertFrom bytes fuel store page = .ok (store', rid) ∧
      Inserted heap entries bytes store' rid := by
  induction after generalizing before page fuel with
  | nil =>
    obtain ⟨fuel, rfl⟩ : ∃ less, fuel = less + 2 := ⟨fuel - 2, by rw [List.length_nil] at enough; omega⟩
    have member : page ∈ before ++ [page] := List.mem_append_right _ List.mem_cons_self
    unfold TableHeap.insertFrom
    split
    · rename_i data slot inserted
      exact ⟨_, _, rfl, chain.insert_here nonempty member inserted⟩
    · rw [chain.linked.drop.next]
      obtain ⟨new, store', appended, longer, empty⟩ := chain.append room
      have isPage : new ∈ before ++ [page, new] := by simp
      have slotted := longer.slotted new isPage
      rw [empty] at slotted
      obtain ⟨⟨data, slot⟩, inserted⟩ := slotted.insert_empty fits
      refine ⟨store'.write new data, ⟨new, slot⟩, ?_, longer.insert_here nonempty isPage inserted⟩
      simp only [List.head?_nil, appended]
      rw [TableHeap.insertFrom, inserted]
  | cons next after ih =>
    obtain ⟨fuel, rfl⟩ : ∃ less, fuel = less + 1 := ⟨fuel - 1, by omega⟩
    unfold TableHeap.insertFrom
    split
    · rename_i data slot inserted
      exact ⟨_, _, rfl, chain.insert_here nonempty (by simp) inserted⟩
    · rw [chain.linked.drop.next]
      rw [show before ++ page :: next :: after = (before ++ [page]) ++ next :: after by simp] at chain
      exact ih chain (by rw [List.length_cons] at enough; omega)

theorem starts (chain : Chain heap store ids entries) : ∃ after, ids = heap.firstPageId :: after := by
  have first := chain.first
  cases ids with
  | nil => cases first
  | cons page after =>
    cases first
    exact ⟨after, rfl⟩

theorem length_lt (chain : Chain heap store ids entries) : ids.length < store.next := by
  have distinct : (0 :: ids).Nodup :=
    List.nodup_cons.mpr ⟨fun isPage => (chain.allocated 0 isPage).1.false, chain.distinct⟩
  have below : (0 :: ids).toFinset ⊆ Finset.range store.next := by
    intro other member
    rw [List.mem_toFinset, List.mem_cons] at member
    rw [Finset.mem_range]
    rcases member with rfl | isPage
    · have := chain.allocated _ chain.head_mem
      omega
    · exact (chain.allocated other isPage).2
  have card := Finset.card_le_card below
  rwa [List.toFinset_card_of_nodup distinct, Finset.card_range] at card

theorem insertTuple (chain : Chain heap store ids entries) (nonempty : bytes ≠ [])
    (fits : bytes.length ≤ MAX_TUPLE_SIZE) (room : store.next + 1 < 2 ^ 32) :
    ∃ store' rid, heap.insertTuple store bytes = .ok (store', rid) ∧ Inserted heap entries bytes store' rid := by
  obtain ⟨after, isIds⟩ := chain.starts
  subst isIds
  rw [TableHeap.insertTuple, if_neg (by omega)]
  have few := chain.length_lt
  rw [List.length_cons] at few
  have before : Chain heap store ([] ++ heap.firstPageId :: after) entries := chain
  exact before.insertFrom nonempty fits room (by omega)

theorem getTuple (chain : Chain heap store ids entries) {rid : Rid} (member : rid.pageId ∈ ids) :
    TableHeap.getTuple store rid = .ok ((entries rid.pageId)[rid.slot]?.bind Entry.bytes) :=
  (chain.slotted rid.pageId member).read rid.slot

end Chain

def rowsFrom (page slot : Nat) (entries : List Entry) : List (Rid × Bytes) :=
  (entries.zipIdx slot).filterMap fun entry => entry.1.bytes.map fun bytes => (⟨page, entry.2⟩, bytes)

theorem rowsFrom_cons (page slot : Nat) (entry : Entry) (rest : List Entry) :
    rowsFrom page slot (entry :: rest) =
      (entry.bytes.map fun bytes => (⟨page, slot⟩, bytes)).toList ++ rowsFrom page (slot + 1) rest := by
  rw [rowsFrom, List.zipIdx_cons, List.filterMap_cons]
  cases entry.bytes <;> rfl

section Scans

variable {data : PageData} {all : List Entry}

theorem drop_cons {slot : Nat} {entry : Entry} {rest : List Entry} (isRest : all.drop slot = entry :: rest) :
    all[slot]? = some entry ∧ all.drop (slot + 1) = rest := by
  constructor
  · rw [← List.head?_drop, isRest]
    rfl
  · rw [← List.tail_drop, isRest]
    rfl

theorem pageTuples_eq (slotted : Slotted data all) {slot : Nat} {rest : List Entry} (isRest : all.drop slot = rest) :
    TableHeap.pageTuples data page rest.length slot = .ok (rowsFrom page slot rest) := by
  induction rest generalizing slot with
  | nil => rfl
  | cons entry rest ih =>
    obtain ⟨found, isRest⟩ := drop_cons isRest
    rw [List.length_cons, TableHeap.pageTuples, slotted.read, found, ok_bind, ih isRest, ok_bind, rowsFrom_cons]
    rfl

theorem scanSlots_eq (slotted : Slotted data all) {slot : Nat} {rest : List Entry} (isRest : all.drop slot = rest) :
    rowsFrom page slot rest = [] ∧
        TableHeap.scanSlots data page rest.length slot = .ok (.endOfPage (slottedNextPageId data)) ∨
      ∃ found bytes others, all.drop (found + 1) = others ∧
        rowsFrom page slot rest = (⟨page, found⟩, bytes) :: rowsFrom page (found + 1) others ∧
        TableHeap.scanSlots data page rest.length slot = .ok (.tuple found bytes) := by
  induction rest generalizing slot with
  | nil => exact .inl ⟨rfl, rfl⟩
  | cons entry rest ih =>
    obtain ⟨found, isRest⟩ := drop_cons isRest
    rw [List.length_cons, TableHeap.scanSlots, slotted.read, found, ok_bind, rowsFrom_cons, Option.bind_some]
    cases entry.bytes with
    | none => exact ih isRest
    | some bytes => exact .inr ⟨slot, bytes, rest, isRest, rfl, rfl⟩

end Scans

def liveRows (ids : List Nat) (entries : Nat → List Entry) : List (Rid × Bytes) :=
  ids.flatMap fun page => rowsFrom page 0 (entries page)

namespace Chain

theorem iterFrom (chain : Chain heap store (before ++ page :: after) entries) {fuel : Nat}
    (enough : after.length < fuel) :
    TableHeap.iterFrom store fuel page = .ok (liveRows (page :: after) entries) := by
  obtain ⟨fuel, rfl⟩ : ∃ less, fuel = less + 1 := ⟨fuel - 1, by omega⟩
  induction after generalizing before page fuel with
  | nil =>
    have slotted := chain.slotted page (by simp)
    rw [TableHeap.iterFrom, slotted.checkedSlotCount, ok_bind, pageTuples_eq slotted List.drop_zero, ok_bind,
      chain.linked.drop.next]
    simp only [liveRows, List.flatMap_cons, List.flatMap_nil, List.append_nil]
    rfl
  | cons next after ih =>
    have slotted := chain.slotted page (by simp)
    rw [TableHeap.iterFrom, slotted.checkedSlotCount, ok_bind, pageTuples_eq slotted List.drop_zero, ok_bind,
      chain.linked.drop.next]
    rw [show before ++ page :: next :: after = (before ++ [page]) ++ next :: after by simp] at chain
    obtain ⟨fuel, rfl⟩ : ∃ less, fuel = less + 1 := ⟨fuel - 1, by rw [List.length_cons] at enough; omega⟩
    have rest := ih chain fuel (by rw [List.length_cons] at enough; omega)
    simp only [List.head?_cons, rest, ok_bind, liveRows, List.flatMap_cons]
    rfl

theorem sweep (chain : Chain heap store (before ++ page :: after) entries) {fuel slot : Nat} {rest : List Entry}
    (isRest : (entries page).drop slot = rest)
    (enough : (rowsFrom page slot rest).length + (liveRows after entries).length + after.length < fuel) :
    TableHeap.sweep store fuel page slot = .ok (rowsFrom page slot rest ++ liveRows after entries) := by
  induction fuel generalizing before page after slot rest with
  | zero => omega
  | succ fuel ih =>
    have slotted := chain.slotted page (by simp)
    have left : (entries page).length - slot = rest.length := by rw [← isRest, List.length_drop]
    rw [TableHeap.sweep, TableHeap.scanPage, slotted.checkedSlotCount, ok_bind, left]
    rcases scanSlots_eq slotted isRest with ⟨none, ended⟩ | ⟨found, bytes, others, isOthers, isRows, scanned⟩
    · rw [ended, ok_bind, none, List.nil_append, chain.linked.drop.next]
      cases after with
      | nil => rfl
      | cons next after =>
        rw [show before ++ page :: next :: after = (before ++ [page]) ++ next :: after by simp] at chain
        simp only [liveRows, List.flatMap_cons, List.length_append, List.length_cons] at enough
        exact ih chain List.drop_zero (by simp only [liveRows]; omega)
    · rw [isRows, List.length_cons] at enough
      rw [scanned, ok_bind, isRows]
      simp only [ih chain isOthers (by omega), ok_bind]
      rfl

end Chain

end SimpleRdbms.Storage
