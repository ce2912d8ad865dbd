import Mathlib.Data.Set.Insert
import SimpleRdbms.Proof.BTreeSizes

/-!
# Insertions that fail

An insertion fails before anything that can be reached from the root is written: the splits above the leaves succeed.
-/

namespace SimpleRdbms.Storage
open Lib BTree

namespace BTree

def Node.links : Node → List Nat
  | .leaf tail _ => tail.toList
  | .internal tail entries => tail.toList ++ entries.map Separator.child

def Node.Proper : Node → Prop
  | .leaf _ entries => ∀ entry ∈ entries, entry.key.length ≤ MAX_KEY_SIZE
  | .internal tail entries =>
    tail ≠ none ∧ ∀ entry ∈ entries, entry.key.length ≤ MAX_KEY_SIZE + RID_TRAILER_SIZE

def Node.isInternal : Node → Bool
  | .leaf _ _ => false
  | .internal _ _ => true

end BTree

namespace NodeStore
variable {store store' : NodeStore} {tree : Set Nat} {pageId : Nat} {node : Node}

structure Closed (store : NodeStore) (tree : Set Nat) : Prop where
  positive : ∀ pageId ∈ tree, pageId ≠ 0
  allocated : ∀ pageId ∈ tree, pageId < store.pages
  fits : ∀ pageId ∈ tree, canRebuild (store.nodes pageId).lens = true
  proper : ∀ pageId ∈ tree, (store.nodes pageId).Proper
  linked : ∀ pageId ∈ tree, ∀ other ∈ (store.nodes pageId).links, other ∈ tree

namespace Closed

theorem write (closed : store.Closed tree) (fits : canRebuild node.lens = true)
    (short : node.Proper) (linked : ∀ other ∈ node.links, other ∈ tree) : (store.write pageId node).Closed tree := by
  have either : ∀ (property : Node → Prop), property node → ∀ other, property (store.nodes other) →
      property ((store.write pageId node).nodes other) := by
    intro property ofNode other ofOther
    by_cases same : other = pageId
    · rw [same, nodes_write_self]
      exact ofNode
    · rw [nodes_write_of_ne _ _ same]
      exact ofOther
  exact ⟨closed.positive, closed.allocated, fun other member =>
    either (canRebuild ·.lens = true) fits other (closed.fits other member),
    fun other member => either Node.Proper short other (closed.proper other member),
    fun other member => either (∀ link ∈ ·.links, link ∈ tree) linked other (closed.linked other member)⟩

theorem grow (closed : store.Closed tree) (fits : canRebuild node.lens = true) (short : node.Proper)
    (linked : ∀ other ∈ node.links, other ∈ tree) :
    (store.newPage.write store.pages node).Closed (insert store.pages tree) := by
  have old : ∀ other ∈ tree, (store.newPage.write store.pages node).nodes other = store.nodes other := by
    intro other member
    rw [nodes_write_of_ne _ _ (closed.allocated other member).ne]
    rfl
  refine ⟨?_, ?_, ?_, ?_, ?_⟩ <;> refine Set.forall_mem_insert.mpr ⟨?_, fun other member => ?_⟩
  · exact store.header.ne'
  · exact closed.positive other member
  · exact Nat.lt_succ_self _
  · exact Nat.lt_succ_of_lt (closed.allocated other member)
  · rw [nodes_write_self]
    exact fits
  · rw [old other member]
    exact closed.fits other member
  · rw [nodes_write_self]
    exact short
  · rw [old other member]
    exact closed.proper other member
  · rw [nodes_write_self]
    exact fun link inNode => Set.mem_insert_of_mem _ (linked link inNode)
  · rw [old other member]
    exact fun link inNode => Set.mem_insert_of_mem _ (closed.linked other member link inNode)

theorem links_insertIdx {good : Nat → Prop} {entries : List Separator} {entry : Separator} {tail : Option Nat}
    {index : Nat} (linked : ∀ other ∈ (Node.internal tail entries).links, good other) (child : good entry.child)
    (inside : index ≤ entries.length) :
    ∀ other ∈ (Node.internal tail (entries.insertIdx index entry)).links, good other := by
  intro other member
  rcases List.mem_append.mp member with inTail | inEntries
  · exact linked other (List.mem_append_left _ inTail)
  · obtain ⟨found, inside', rfl⟩ := List.mem_map.mp inEntries
    rcases (List.mem_insertIdx inside).mp inside' with rfl | old
    · exact child
    · exact linked _ (List.mem_append_right _ (List.mem_map_of_mem old))

end Closed

def SameOn (tree : Set Nat) (store store' : NodeStore) : Prop :=
    ∀ pageId ∈ tree, store'.nodes pageId = store.nodes pageId

theorem Closed.of_sameOn (closed : store.Closed tree) (same : SameOn tree store store')
    (pages : store.pages ≤ store'.pages) :
    store'.Closed tree := by
  refine ⟨closed.positive, fun pageId member => (closed.allocated pageId member).trans_le pages, ?_, ?_, ?_⟩
  all_goals
    intro pageId member
    rw [same pageId member]
  · exact closed.fits pageId member
  · exact closed.proper pageId member
  · exact closed.linked pageId member

theorem Closed.sameOn_grow (closed : store.Closed tree) (node : Node) :
    SameOn tree store (store.newPage.write store.pages node) := by
  intro pageId member
  rw [nodes_write_of_ne _ _ (closed.allocated pageId member).ne]
  rfl

/-- The leaves are `n` levels below the node. -/
def Deep (store : NodeStore) : Nat → Node → Prop
  | 0, node => node.isInternal = false
  | n + 1, node => node.isInternal = true ∧ ∀ child ∈ node.links, store.Deep n (store.nodes child)

namespace Deep
variable {n k : Nat}

theorem of_sameOn (closed : store.Closed tree) (same : SameOn tree store store')
    (linked : ∀ link ∈ node.links, link ∈ tree) (deep : store.Deep n node) : store'.Deep n node := by
  induction n generalizing node with
  | zero => exact deep
  | succ n ih =>
    refine ⟨deep.1, fun child isLink => ?_⟩
    rw [same child (linked child isLink)]
    exact ih (closed.linked child (linked child isLink)) (deep.2 child isLink)

theorem unique (closed : store.Closed tree) (inTree : pageId ∈ tree) (deep : store.Deep n (store.nodes pageId))
    (other : store.Deep k (store.nodes pageId)) : n = k := by
  induction n generalizing k pageId with
  | zero =>
    cases k with
    | zero => rfl
    | succ k => exact absurd (deep.symm.trans other.1) Bool.false_ne_true
  | succ n ih =>
    cases k with
    | zero => exact absurd (other.symm.trans deep.1) Bool.false_ne_true
    | succ k =>
      obtain ⟨child, isLink⟩ : ∃ child, child ∈ (store.nodes pageId).links := by
        have proper := closed.proper pageId inTree
        have internal := deep.1
        cases node : store.nodes pageId with
        | leaf => simp [node, Node.isInternal] at internal
        | internal tail entries =>
          rw [node] at proper
          obtain ⟨first, rfl⟩ := Option.ne_none_iff_exists'.mp proper.1
          exact ⟨first, by simp [Node.links]⟩
      rw [ih (closed.linked pageId inTree child isLink) (deep.2 child isLink) (other.2 child isLink)]

theorem write (closed : store.Closed tree) (inTree : pageId ∈ tree) (old : store.Deep k (store.nodes pageId))
    (new : store.Deep k node) (linkedNew : ∀ link ∈ node.links, link ∈ tree) {other : Node}
    (linked : ∀ link ∈ other.links, link ∈ tree) (deep : store.Deep n other) :
    (store.write pageId node).Deep n other := by
  induction n generalizing other with
  | zero => exact deep
  | succ n ih =>
    refine ⟨deep.1, fun child isLink => ?_⟩
    by_cases same : child = pageId
    · rw [same, nodes_write_self]
      have depth := unique closed inTree (same ▸ deep.2 child isLink) old
      exact ih linkedNew (depth ▸ new)
    · rw [nodes_write_of_ne _ _ same]
      exact ih (closed.linked child (linked child isLink)) (deep.2 child isLink)

end Deep

def Keeps (tree : Set Nat) (store store' : NodeStore) : Prop :=
  ∀ n, ∀ pageId ∈ tree, store.Deep n (store.nodes pageId) → store'.Deep n (store'.nodes pageId)

theorem Closed.keeps_grow (closed : store.Closed tree) (node : Node) :
    Keeps tree store (store.newPage.write store.pages node) := by
  intro n other member deep
  rw [closed.sameOn_grow node other member]
  exact deep.of_sameOn closed (closed.sameOn_grow node) (closed.linked other member)

theorem Closed.keeps_write (closed : store.Closed tree) (inTree : pageId ∈ tree) {k : Nat}
    (old : store.Deep k (store.nodes pageId)) (new : store.Deep k node) (linkedNew : ∀ link ∈ node.links, link ∈ tree) :
    Keeps tree store (store.write pageId node) := by
  intro n other member deep
  by_cases same : other = pageId
  · rw [same, nodes_write_self]
    have depth := Deep.unique closed inTree (same ▸ deep) old
    exact Deep.write closed inTree old new linkedNew linkedNew (depth ▸ new)
  · rw [nodes_write_of_ne _ _ same]
    exact Deep.write closed inTree old new linkedNew (closed.linked other member) deep

def splitPage (store : NodeStore) (pageId : Nat) (left right : Node) : NodeStore :=
  (store.newPage.write store.pages right).write pageId left

theorem Closed.splitPage (closed : store.Closed tree) (inTree : pageId ∈ tree) {k : Nat} {left right : Node}
    (old : store.Deep k (store.nodes pageId)) (rightFits : canRebuild right.lens = true) (rightProper : right.Proper)
    (rightLinks : ∀ link ∈ right.links, link ∈ tree) (rightDeep : store.Deep k right)
    (leftFits : canRebuild left.lens = true) (leftProper : left.Proper)
    (leftLinks : ∀ link ∈ left.links, link ∈ insert store.pages tree)
    (leftDeep : (store.newPage.write store.pages right).Deep k left) :
    (store.splitPage pageId left right).Closed (insert store.pages tree) ∧
      Keeps tree store (store.splitPage pageId left right) ∧
      (store.splitPage pageId left right).Deep k ((store.splitPage pageId left right).nodes pageId) ∧
      (store.splitPage pageId left right).Deep k ((store.splitPage pageId left right).nodes store.pages) := by
  have grown := closed.grow rightFits rightProper rightLinks
  have keeps := closed.keeps_grow right
  have inGrown := Set.mem_insert_of_mem store.pages inTree
  have written := grown.keeps_write inGrown (keeps _ pageId inTree old) leftDeep leftLinks
  refine ⟨grown.write leftFits leftProper leftLinks,
    fun n other member deep => written n other (Set.mem_insert_of_mem _ member) (keeps n other member deep),
    written _ pageId inGrown (keeps _ pageId inTree old), written _ _ (Set.mem_insert _ _) ?_⟩
  rw [nodes_write_self]
  exact rightDeep.of_sameOn closed (closed.sameOn_grow right) rightLinks

theorem upperBound_le (entries : List Separator) (key : Bytes) : upperBound entries key ≤ entries.length :=
  searchSlots_le _ _

theorem upperBoundIn_le (entries : List Separator) (key : Bytes) : upperBoundIn entries key ≤ entries.length :=
  (List.takeWhile_prefix _).length_le

theorem separator_load_le (entry : Separator) (short : entry.key.length ≤ MAX_KEY_SIZE + RID_TRAILER_SIZE) :
    SLOT_SIZE + entry.len ≤ CAPACITY := by
  simp only [Separator.len, CAPACITY, MAX_KEY_SIZE, PAGE_SIZE, HEADER_SIZE, SLOT_SIZE, KEY_LEN_PREFIX, RID_TRAILER_SIZE,
    CHILD_TRAILER_SIZE] at short ⊢
  omega

variable {entries : List Separator} {tail : Option Nat}

theorem Closed.splitInternal (closed : store.Closed tree) {parent tail splitAt k : Nat} {pushed : Separator}
    (inTree : parent ∈ tree) (old : store.Deep (k + 1) (store.nodes parent))
    (short : ∀ entry ∈ entries, entry.key.length ≤ MAX_KEY_SIZE + RID_TRAILER_SIZE)
    (linked : ∀ link ∈ (Node.internal (some tail) entries).links, link ∈ tree ∧ store.Deep k (store.nodes link))
    (inEntries : pushed ∈ entries) (leftFits : load ((entries.take splitAt).map Separator.len) ≤ CAPACITY)
    (rightFits : load ((entries.drop (splitAt + 1)).map Separator.len) ≤ CAPACITY) :
    let store' := store.splitPage parent (.internal (some tail) (entries.take splitAt))
      (.internal (some pushed.child) (entries.drop (splitAt + 1)))
    store'.Closed (insert store.pages tree) ∧ Keeps tree store store' ∧ store'.Deep (k + 1) (store'.nodes parent) ∧
      store'.Deep (k + 1) (store'.nodes store.pages) := by
  have right : ∀ link ∈ (Node.internal (some pushed.child) (entries.drop (splitAt + 1))).links,
      link ∈ tree ∧ store.Deep k (store.nodes link) := by
    intro link member
    refine linked link (List.mem_append_right _ ?_)
    rcases List.mem_append.mp member with first | others
    · exact List.mem_map.mpr ⟨pushed, inEntries, by simpa [eq_comm] using first⟩
    · exact List.map_subset _ (List.drop_subset _ _) others
  have left : ∀ link ∈ (Node.internal (some tail) (entries.take splitAt)).links,
      link ∈ tree ∧ store.Deep k (store.nodes link) := by
    intro link member
    refine linked link (List.mem_append.mpr ((List.mem_append.mp member).imp_right fun others => ?_))
    exact List.map_subset _ (List.take_subset _ _) others
  refine closed.splitPage inTree old (canRebuild_iff.mpr rightFits)
    ⟨by simp, fun entry member => short entry (List.mem_of_mem_drop member)⟩ (fun link member => (right link member).1)
    ⟨rfl, fun link member => (right link member).2⟩ (canRebuild_iff.mpr leftFits)
    ⟨by simp, fun entry member => short entry (List.mem_of_mem_take member)⟩
    (fun link member => Set.mem_insert_of_mem _ (left link member).1) ?_
  exact Deep.of_sameOn closed (closed.sameOn_grow _) (fun link member => (left link member).1)
    ⟨rfl, fun link member => (left link member).2⟩

theorem internal_inserted (closed : store.Closed tree) {parent index : Nat}
    (entry : Separator) (inTree : parent ∈ tree) (node : store.nodes parent = .internal tail entries)
    (child : entry.child ∈ tree) (short : entry.key.length ≤ MAX_KEY_SIZE + RID_TRAILER_SIZE)
    (inside : index ≤ entries.length) :
    (Node.internal tail (entries.insertIdx index entry)).Proper ∧
      (∀ other ∈ (Node.internal tail (entries.insertIdx index entry)).links, other ∈ tree) ∧
      load ((entries.insertIdx index entry).map Separator.len) =
        load (entries.map Separator.len) + (SLOT_SIZE + entry.len) ∧
      load (entries.map Separator.len) ≤ CAPACITY := by
  have shortOld := closed.proper parent inTree
  have linkedOld := closed.linked parent inTree
  have fitsOld := canRebuild_iff.mp (closed.fits parent inTree)
  rw [node] at shortOld linkedOld fitsOld
  refine ⟨⟨shortOld.1, fun other member => ?_⟩, Closed.links_insertIdx linkedOld child inside, ?_, fitsOld⟩
  · rcases (List.mem_insertIdx inside).mp member with rfl | old
    · exact short
    · exact shortOld.2 other old
  · rw [List.map_insertIdx]
    exact load_insertIdx _ (by simpa using inside) _

/-- The ancestors stand one above the other, the first at level `n`. -/
def Climbs (tree : Set Nat) (store : NodeStore) (n : Nat) (ancestors : List Nat) : Prop :=
  ∀ entry ∈ ancestors.zipIdx n, entry.1 ∈ tree ∧ store.Deep entry.2 (store.nodes entry.1)

theorem pushUp_closed (closed : store.Closed tree) {left right k : Nat} {key : Bytes} {ancestors : List Nat}
    (inLeft : left ∈ tree) (inRight : right ∈ tree) (leftDeep : store.Deep k (store.nodes left))
    (rightDeep : store.Deep k (store.nodes right)) (climbs : Climbs tree store (k + 1) ancestors)
    (short : key.length ≤ MAX_KEY_SIZE + RID_TRAILER_SIZE) :
    ∃ store' root tree', store.pushUp left key right ancestors = .ok (store', root) ∧ tree ⊆ tree' ∧
      store'.Closed tree' ∧ (∀ pageId ∈ root, pageId ∈ tree' ∧
        store'.Deep (k + ancestors.length + 1) (store'.nodes pageId)) ∧
      Keeps tree store store' ∧ store.pages ≤ store'.pages := by
  induction ancestors generalizing store tree left right key k with
  | nil =>
    have fits : canRebuild (Node.internal (some left) [⟨key, right⟩]).lens = true := by
      rw [canRebuild_iff]
      simpa [Node.lens] using separator_load_le ⟨key, right⟩ short
    simp only [pushUp, rebuild, fits, if_true, bind, Except.bind, pure, Except.pure]
    have linked : ∀ other ∈ (Node.internal (some left) [⟨key, right⟩]).links, other ∈ tree := by
      simpa [Node.links] using ⟨inLeft, inRight⟩
    refine ⟨_, _, insert store.pages tree, rfl, Set.subset_insert _ _, closed.grow fits ?_ linked, ?_,
      closed.keeps_grow _, Nat.le_succ _⟩
    · simpa [Node.Proper] using short
    · simp only [Option.mem_def, Option.some.injEq, forall_eq', Set.mem_insert_iff, true_or, true_and, nodes_write_self]
      refine Deep.of_sameOn closed (closed.sameOn_grow _) linked ⟨rfl, ?_⟩
      simpa [Node.links] using ⟨leftDeep, rightDeep⟩
  | cons parent ancestors ih =>
    obtain ⟨inTree, parentDeep⟩ := climbs (parent, k + 1) (by simp [List.zipIdx_cons])
    have above : Climbs tree store (k + 1 + 1) ancestors := fun entry member =>
      climbs entry (by rw [List.zipIdx_cons]; exact List.mem_cons_of_mem _ member)
    rw [pushUp]
    cases node : store.nodes parent with
    | leaf tail entries => simp [node, Deep, Node.isInternal] at parentDeep
    | internal tail entries =>
      have linksDeep := parentDeep.2
      rw [node] at linksDeep
      simp only
      split
      · rename_i fits
        have inside := upperBound_le entries key
        obtain ⟨proper, linked', loaded, -⟩ := internal_inserted closed ⟨key, right⟩ inTree node inRight short inside
        have newDeep : store.Deep (k + 1) (.internal tail (entries.insertIdx (upperBound entries key) ⟨key, right⟩)) :=
          ⟨rfl, Closed.links_insertIdx linksDeep rightDeep inside⟩
        refine ⟨_, _, tree, rfl, subset_rfl, closed.write ?_ proper linked', by simp,
          closed.keeps_write inTree parentDeep newDeep linked', le_rfl⟩
        rw [canRebuild_iff]
        exact loaded.trans_le (willFit_iff.mp fits)
      · have inside' := upperBoundIn_le entries key
        obtain ⟨⟨hasTail, short'⟩, linked', loaded, fitsOld⟩ := internal_inserted closed ⟨key, right⟩ inTree node
          inRight short inside'
        obtain ⟨oldTail, rfl⟩ := Option.ne_none_iff_exists'.mp hasTail
        have added := separator_load_le ⟨key, right⟩ short
        have newDeep : ∀ link ∈ (Node.internal (some oldTail) (entries.insertIdx (upperBoundIn entries key)
            ⟨key, right⟩)).links, store.Deep k (store.nodes link) := Closed.links_insertIdx linksDeep rightDeep inside'
        generalize entries.insertIdx (upperBoundIn entries key) ⟨key, right⟩ = entries' at *
        have each : ∀ len ∈ entries'.map Separator.len, SLOT_SIZE + len ≤ CAPACITY := by
          intro len member
          obtain ⟨entry, inEntries, rfl⟩ := List.mem_map.mp member
          exact separator_load_le entry (short' entry inEntries)
        have nonempty : entries'.map Separator.len ≠ [] := by
          intro none
          rw [none, load_nil, SLOT_SIZE] at loaded
          omega
        obtain ⟨inside, leftFits, rightFits⟩ := internalSplitPoint_fits nonempty each (by omega)
        generalize internalSplitPoint (entries'.map Separator.len) = splitAt at *
        rw [List.length_map] at inside
        rw [← List.map_take] at leftFits
        rw [← List.map_drop] at rightFits
        simp only [List.getElem?_eq_getElem inside]
        have inEntries : entries'[splitAt] ∈ entries' := List.getElem_mem inside
        generalize entries'[splitAt] = pushed at *
        obtain ⟨split, keeps, leftDeep', rightDeep'⟩ := closed.splitInternal inTree parentDeep short'
          (fun link member => ⟨linked' link member, newDeep link member⟩) inEntries leftFits rightFits
        simp only [rebuild, Node.lens, canRebuild_iff.mpr rightFits, canRebuild_iff.mpr leftFits, if_true, bind,
          Except.bind]
        obtain ⟨store', root, tree', result, larger, closed', rootIn, keeps', more⟩ := ih split
          (Set.mem_insert_of_mem _ inTree) (Set.mem_insert _ _) leftDeep' rightDeep'
          (fun entry member => ⟨Set.mem_insert_of_mem _ (above entry member).1,
            keeps _ _ (above entry member).1 (above entry member).2⟩) (short' pushed inEntries)
        refine ⟨store', root, tree', result, (Set.subset_insert _ _).trans larger, closed', ?_,
          fun n other member deep => keeps' n other (Set.mem_insert_of_mem _ member) (keeps n other member deep),
          (Nat.le_succ _).trans more⟩
        rwa [List.length_cons, show k + (ancestors.length + 1) + 1 = k + 1 + ancestors.length + 1 by omega]

theorem childForKey_linked {key : Bytes} {child : Nat}
    (chosen : childForKey pageId tail entries key = .ok child) : child ∈ (Node.internal tail entries).links := by
  unfold childForKey at chosen
  split at chosen
  · cases tail with
    | none => cases chosen
    | some first =>
      cases chosen
      simp [Node.links]
  · rename_i slot _
    cases found : entries[slot]? with
    | none => simp [found] at chosen
    | some entry =>
      simp only [found, Option.elim_some, Except.ok.injEq] at chosen
      subst chosen
      exact List.mem_append_right _ (List.mem_map_of_mem (List.mem_of_getElem? found))

theorem childForKey_ok (pageId tail : Nat) (entries : List Separator) (key : Bytes) :
    ∃ child, childForKey pageId (some tail) entries key = .ok child := by
  unfold childForKey
  cases found : upperBound entries key with
  | zero => exact ⟨tail, rfl⟩
  | succ slot =>
    have inside := upperBound_le entries key
    have less : slot < entries.length := by omega
    exact ⟨entries[slot].child, by simp [List.getElem?_eq_getElem less]⟩

theorem descend_closed (closed : store.Closed tree) (key : Bytes) (len : Nat) {fuel n current : Nat} {kept : List Nat}
    (inTree : current ∈ tree) (deep : store.Deep n (store.nodes current)) (enough : n < fuel)
    (climbs : Climbs tree store (n + 1) kept) :
    ∃ ancestors leaf, store.descendForInsert key len fuel current kept = .ok (ancestors, leaf) ∧
      store.descendToLeaf key fuel current = .ok leaf ∧ leaf ∈ tree ∧ store.Deep 0 (store.nodes leaf) ∧
      ancestors.length ≤ kept.length + n ∧ Climbs tree store 1 ancestors := by
  induction fuel generalizing current kept n with
  | zero => cases enough
  | succ fuel ih =>
    rw [descendForInsert, descendToLeaf]
    cases node : store.nodes current with
    | leaf tail entries =>
      obtain rfl : n = 0 := by
        cases n with
        | zero => rfl
        | succ n => simp [node, Deep, Node.isInternal] at deep
      refine ⟨_, current, rfl, rfl, inTree, deep, ?_⟩
      split
      · exact ⟨Nat.zero_le _, by simp [Climbs]⟩
      · exact ⟨le_rfl, climbs⟩
    | internal tail entries =>
      cases n with
      | zero => simp [node, Deep, Node.isInternal] at deep
      | succ n =>
        have proper := closed.proper current inTree
        have links := closed.linked current inTree
        have linksDeep := deep.2
        rw [node] at proper links linksDeep
        obtain ⟨first, rfl⟩ := Option.ne_none_iff_exists'.mp proper.1
        obtain ⟨child, chosen⟩ := childForKey_ok current first entries key
        have isLink := childForKey_linked chosen
        simp only [chosen, bind, Except.bind]
        have longer : Climbs tree store (n + 1) (current ::
            if willFit (Node.internal (some first) entries).lens MAX_INTERNAL_PUSH_UP_SIZE then [] else kept) := by
          rw [Climbs, List.zipIdx_cons]
          refine List.forall_mem_cons.mpr ⟨⟨inTree, deep⟩, ?_⟩
          split
          · simp
          · exact climbs
        obtain ⟨ancestors, leaf, found, read, inLeaf, isLeaf, few, climbs'⟩ := ih (links child isLink)
          (linksDeep child isLink) (by omega) longer
        refine ⟨ancestors, leaf, found, read, inLeaf, isLeaf, few.trans ?_, climbs'⟩
        rw [List.length_cons]
        split
        · simp only [List.length_nil]
          omega
        · omega

def Split (tree : Set Nat) (store : NodeStore) (leaf : Nat) : Except Failure (NodeStore × Bytes) → Prop
  | .ok (store', key) => store'.Closed (insert store.pages tree) ∧ key.length ≤ MAX_KEY_SIZE + RID_TRAILER_SIZE ∧
      Keeps tree store store' ∧ store'.Deep 0 (store'.nodes leaf) ∧ store'.Deep 0 (store'.nodes store.pages) ∧
      store'.pages = store.pages + 1
  | .error failure => (∃ pageId, failure.error = .nodeOverflow pageId) ∧ SameOn tree store failure.store ∧
      store.pages ≤ failure.store.pages

theorem leafSplitPoint_lt (lens : List Nat) (nonempty : lens ≠ []) : leafSplitPoint lens < lens.length := by
  have := List.length_pos_iff.mpr nonempty
  unfold leafSplitPoint
  omega

theorem Closed.splitLeaf (closed : store.Closed tree) {leaf : Nat} (inTree : leaf ∈ tree)
    (isLeaf : store.Deep 0 (store.nodes leaf)) {entries : List LeafEntry}
    (tailIn : ∀ next ∈ tail, next ∈ tree) (short : ∀ entry ∈ entries, entry.key.length ≤ MAX_KEY_SIZE)
    (nonempty : entries ≠ []) : Split tree store leaf (store.splitLeaf leaf tail entries) := by
  have inside := leafSplitPoint_lt (entries.map LeafEntry.len) (by simpa using nonempty)
  rw [List.length_map] at inside
  unfold NodeStore.splitLeaf
  simp only [List.getElem?_eq_getElem inside]
  have inEntries : entries[leafSplitPoint (entries.map LeafEntry.len)] ∈ entries := List.getElem_mem inside
  generalize entries[leafSplitPoint (entries.map LeafEntry.len)] = first at *
  generalize leafSplitPoint (entries.map LeafEntry.len) = mid at *
  cases rightFits : canRebuild (Node.leaf tail (entries.drop mid)).lens with
  | false =>
    simp only [rebuild, rightFits, Bool.false_eq_true, if_false, bind, Except.bind]
    exact ⟨⟨_, rfl⟩, fun _ _ => rfl, Nat.le_succ _⟩
  | true =>
    cases leftFits : canRebuild (Node.leaf (some store.pages) (entries.take mid)).lens with
    | false =>
      simp only [rebuild, rightFits, leftFits, Bool.false_eq_true, if_false, if_true, bind, Except.bind]
      exact ⟨⟨_, rfl⟩, closed.sameOn_grow _, Nat.le_succ _⟩
    | true =>
      simp only [rebuild, rightFits, leftFits, if_true, bind, Except.bind, pure, Except.pure]
      obtain ⟨closed', keeps, leftDeep, rightDeep⟩ := closed.splitPage inTree isLeaf rightFits
        (fun entry member => short entry (List.mem_of_mem_drop member))
        (fun other member => tailIn other (by simpa [Node.links] using member)) rfl leftFits
        (fun entry member => short entry (List.mem_of_mem_take member)) (by simp [Node.links]) rfl
      refine ⟨closed', ?_, keeps, leftDeep, rightDeep, rfl⟩
      rw [LeafEntry.sortKey_length]
      exact Nat.add_le_add_right (short first inEntries) _

end NodeStore

namespace BTreeIndex
variable {index : BTreeIndex} {tree : Set Nat}

structure Holds (index : BTreeIndex) (tree : Set Nat) : Prop where
  root : index.rootPageId ∈ tree
  closed : index.store.Closed tree
  depth : ∃ depth < index.store.pages, index.store.Deep depth (index.store.nodes index.rootPageId)

def Sound (index : BTreeIndex) : Prop := ∃ tree : Set Nat, index.Holds tree

theorem Holds.of_sameOn (holds : index.Holds tree) {store : NodeStore} (same : NodeStore.SameOn tree index.store store)
    (more : index.store.pages ≤ store.pages) : BTreeIndex.Holds { index with store } tree := by
  obtain ⟨inTree, closed, depth, few, deep⟩ := holds
  refine ⟨inTree, closed.of_sameOn same more, depth, few.trans_le more, ?_⟩
  rw [same _ inTree]
  exact deep.of_sameOn closed same (closed.linked _ inTree)

theorem Holds.descend (holds : index.Holds tree) (entry : LeafEntry) :
    ∃ depth ancestors leaf, depth < index.store.pages ∧
      index.store.Deep depth (index.store.nodes index.rootPageId) ∧
      index.store.descendForInsert entry.sortKey entry.len index.store.pages index.rootPageId [] =
        .ok (ancestors, leaf) ∧
      index.store.descendToLeaf entry.sortKey index.store.pages index.rootPageId = .ok leaf ∧ leaf ∈ tree ∧
      index.store.Deep 0 (index.store.nodes leaf) ∧ ancestors.length ≤ depth ∧
      NodeStore.Climbs tree index.store 1 ancestors := by
  obtain ⟨depth, few, deep⟩ := holds.depth
  have start : NodeStore.Climbs tree index.store (depth + 1) [] := nofun
  obtain ⟨ancestors, leaf, found, read, inLeaf, isLeaf, short, climbs⟩ := NodeStore.descend_closed holds.closed
    entry.sortKey entry.len holds.root deep few start
  exact ⟨depth, ancestors, leaf, few, deep, found, read, inLeaf, isLeaf, by simpa using short, climbs⟩

def Inserted (index : BTreeIndex) (tree : Set Nat) : Except NodeStore.Failure BTreeIndex → Prop
  | .ok index' => index'.Sound
  | .error failure => NodeStore.SameOn tree index.store failure.store ∧ index.store.pages ≤ failure.store.pages ∧
      ∀ pageId, failure.error ≠ .corruptPage pageId

theorem insertIdx_short {entries : List LeafEntry} (entry : LeafEntry) {slot : Nat}
    (short : ∀ other ∈ entries, other.key.length ≤ MAX_KEY_SIZE) (added : entry.key.length ≤ MAX_KEY_SIZE)
    (inside : slot ≤ entries.length) : ∀ other ∈ entries.insertIdx slot entry, other.key.length ≤ MAX_KEY_SIZE := by
  intro other member
  rcases (List.mem_insertIdx inside).mp member with rfl | old
  · exact added
  · exact short other old

theorem insertIdx_ne_nil {α : Type} {entries : List α} (entry : α) {slot : Nat} (inside : slot ≤ entries.length) :
    entries.insertIdx slot entry ≠ [] := by
  intro none
  have := List.length_insertIdx_of_le_length inside entry
  rw [none] at this
  cases this

theorem leaf_inserted (holds : index.Holds tree) (entry : LeafEntry) (small : entry.key.length ≤ MAX_KEY_SIZE)
    {leaf : Nat} (inLeaf : leaf ∈ tree) {tail : Option Nat} {entries : List LeafEntry}
    (node : index.store.nodes leaf = .leaf tail entries) :
    NodeStore.Split tree index.store leaf
      (index.store.splitLeaf leaf tail (entries.insertIdx (upperBoundInLeaf entries entry.sortKey) entry)) := by
  have shortOld := holds.closed.proper leaf inLeaf
  have linkedOld := holds.closed.linked leaf inLeaf
  rw [node] at shortOld linkedOld
  have inside : upperBoundInLeaf entries entry.sortKey ≤ entries.length := (List.takeWhile_prefix _).length_le
  exact holds.closed.splitLeaf inLeaf (by rw [node]; rfl)
    (fun next member => linkedOld next (by simpa [Node.links] using member))
    (insertIdx_short entry shortOld small inside) (insertIdx_ne_nil _ inside)

theorem pushUp_after_split (holds : index.Holds tree) {entry : LeafEntry} (small : entry.key.length ≤ MAX_KEY_SIZE)
    {ancestors : List Nat} {leaf : Nat} {tail : Option Nat} {entries : List LeafEntry} {split : NodeStore × Bytes}
    (found : index.store.descendForInsert entry.sortKey entry.len index.store.pages index.rootPageId [] =
      .ok (ancestors, leaf)) (node : index.store.nodes leaf = .leaf tail entries)
    (halves : index.store.splitLeaf leaf tail (entries.insertIdx (upperBoundInLeaf entries entry.sortKey) entry) =
      .ok split) :
    ∃ top, split.1.pushUp leaf split.2 index.store.pages ancestors = .ok top ∧
      BTreeIndex.Sound ⟨top.1, top.2.getD index.rootPageId⟩ := by
  obtain ⟨depth, ancestors', leaf', few, deep, found', -, inLeaf, -, short, climbs⟩ := holds.descend entry
  rw [found'] at found
  cases found
  have written := leaf_inserted holds entry small inLeaf node
  rw [halves] at written
  obtain ⟨closed', shortKey, keeps, leftDeep, rightDeep, pages⟩ := written
  obtain ⟨last, root, tree', pushed, larger, closed'', rootIn, keeps', more⟩ := NodeStore.pushUp_closed closed'
    (Set.mem_insert_of_mem _ inLeaf) (Set.mem_insert _ _) leftDeep rightDeep
    (fun entry member => ⟨Set.mem_insert_of_mem _ (climbs entry member).1,
      keeps _ _ (climbs entry member).1 (climbs entry member).2⟩) shortKey
  refine ⟨_, pushed, tree', ?_⟩
  have inGrown := Set.mem_insert_of_mem index.store.pages holds.root
  cases root with
  | none =>
    have few : depth < last.pages := by omega
    exact ⟨larger inGrown, closed'', depth, few, keeps' _ _ inGrown (keeps _ _ holds.root deep)⟩
  | some newRoot =>
    obtain ⟨inTree', deep'⟩ := rootIn newRoot rfl
    exact ⟨inTree', closed'', _, show 0 + ancestors.length + 1 < last.pages by omega, deep'⟩

theorem insert_closed (holds : index.Holds tree) (key : Bytes) (row : RowId) :
    index.Inserted tree (index.insert key row) := by
  unfold insert
  split
  · exact ⟨fun _ _ => rfl, le_rfl, by simp⟩
  · rename_i small
    simp only
    generalize same : LeafEntry.mk key row = entry
    have added : entry.key.length ≤ MAX_KEY_SIZE := by
      rw [← same]
      exact not_lt.mp small
    obtain ⟨depth, ancestors, leaf, few, deep, found, -, inLeaf, isLeaf, -⟩ := holds.descend entry
    rw [found]
    simp only
    cases node : index.store.nodes leaf with
    | internal tail entries => simp [node, NodeStore.Deep, Node.isInternal] at isLeaf
    | leaf tail entries =>
      have linkedOld := holds.closed.linked leaf inLeaf
      have shortOld := holds.closed.proper leaf inLeaf
      rw [node] at linkedOld shortOld
      simp only
      split
      · rename_i fits
        have inside : upperBoundLeaf entries entry.sortKey ≤ entries.length := searchSlots_le _ _
        have keeps : NodeStore.Keeps tree index.store (index.store.write leaf
            (.leaf tail (entries.insertIdx (upperBoundLeaf entries entry.sortKey) entry))) :=
          holds.closed.keeps_write inLeaf isLeaf rfl linkedOld
        refine ⟨tree, holds.root, holds.closed.write ?_ (insertIdx_short entry shortOld added inside) linkedOld,
          depth, few, keeps _ _ holds.root deep⟩
        rw [canRebuild_iff, Node.lens, List.map_insertIdx]
        refine (load_insertIdx _ ?_ _).trans_le (willFit_iff.mp fits)
        simpa using inside
      · have split := leaf_inserted holds entry added inLeaf node
        cases halves : index.store.splitLeaf leaf tail
            (entries.insertIdx (upperBoundInLeaf entries entry.sortKey) entry) with
        | error failure =>
          rw [halves] at split
          obtain ⟨⟨pageId, kind⟩, same, more⟩ := split
          exact ⟨same, more, by simp [kind]⟩
        | ok halves' =>
          obtain ⟨top, pushed, sound⟩ := pushUp_after_split holds added found node halves
          simp only [bind, Except.bind, pushed]
          exact sound

end BTreeIndex

namespace NodeStore
variable {store store' : NodeStore} {tree : Set Nat}

inductive Under (store : NodeStore) (pageId : Nat) : Nat → Prop
  | self : Under store pageId pageId
  | link {parent child : Nat} : Under store pageId parent → child ∈ (store.nodes parent).links →
    Under store pageId child

theorem Under.inTree (closed : store.Closed tree) {root pageId : Nat} (inTree : root ∈ tree)
    (under : store.Under root pageId) : pageId ∈ tree := by
  induction under with
  | self => exact inTree
  | link _ isLink ih => exact closed.linked _ ih _ isLink

theorem Under.of_sameOn (same : SameOn tree store store') (closed : store.Closed tree) {root pageId : Nat}
    (inTree : root ∈ tree) (under : store.Under root pageId) : store'.Under root pageId := by
  induction under with
  | self => exact .self
  | @link parent child above isLink ih =>
    refine .link ih ?_
    rw [same parent (above.inTree closed inTree)]
    exact isLink

theorem leftmostLeaf_sameOn (same : SameOn tree store store') (closed : store.Closed tree) (fuel : Nat) {current : Nat}
    (inTree : current ∈ tree) : store'.leftmostLeaf fuel current = store.leftmostLeaf fuel current ∧
      ∀ leaf, store.leftmostLeaf fuel current = .ok leaf → leaf ∈ tree := by
  induction fuel generalizing current with
  | zero => exact ⟨rfl, by simp [leftmostLeaf]⟩
  | succ fuel ih =>
    have links := closed.linked current inTree
    rw [leftmostLeaf, leftmostLeaf, same current inTree]
    cases node : store.nodes current with
    | leaf tail entries =>
      refine ⟨rfl, fun leaf found => ?_⟩
      cases found
      exact inTree
    | internal tail entries =>
      cases tail with
      | none => exact ⟨rfl, by simp⟩
      | some first =>
        rw [node] at links
        exact ih (links first (by simp [Node.links]))

end NodeStore

namespace BTreeIndex
variable {store store' : NodeStore} {tree : Set Nat}

theorem viaTail_sameOn (same : NodeStore.SameOn tree store store') (closed : store.Closed tree) (fuel : Nat)
    {current : Nat} (inTree : current ∈ tree) : viaTail store' fuel current = viaTail store fuel current := by
  induction fuel generalizing current with
  | zero => rfl
  | succ fuel ih =>
    have links := closed.linked current inTree
    rw [viaTail, viaTail, same current inTree]
    cases next : (store.nodes current).tail with
    | none => rfl
    | some next' =>
      simp only
      rw [ih (links next' ?_)]
      cases node : store.nodes current with
      | leaf tail entries =>
        rw [node] at next
        simp [Node.links, show tail = some next' from next]
      | internal tail entries =>
        rw [node] at next
        simp [Node.links, show tail = some next' from next]

theorem childBounds_linked {low high : Option Bytes} {first : Nat} {entries : List Separator} :
    ∀ child ∈ childBounds low high first entries, child.1 ∈ (Node.internal (some first) entries).links := by
  induction entries generalizing low first with
  | nil => simp [childBounds, Node.links]
  | cons entry rest ih =>
    intro child member
    rcases List.mem_cons.mp member with rfl | later
    · simp [Node.links]
    · have linked := ih child later
      simp only [Node.links, Option.toList_some, List.cons_append, List.nil_append, List.mem_cons,
        List.map_cons] at linked ⊢
      exact .inr linked

theorem foldlM_congr {σ α ε : Type} {f g : σ → α → Except ε σ} {xs : List α} (same : ∀ x ∈ xs, ∀ s, f s x = g s x)
    (s : σ) :
    xs.foldlM f s = xs.foldlM g s := by
  induction xs generalizing s with
  | nil => rfl
  | cons x rest ih =>
    rw [List.foldlM_cons, List.foldlM_cons, same x (by simp)]
    congr 1
    funext s'
    exact ih (fun y member => same y (by simp [member])) s'

theorem checkNode_sameOn (same : NodeStore.SameOn tree store store') (closed : store.Closed tree) (fuel : Nat)
    {pageId : Nat} (inTree : pageId ∈ tree) (bounds : Option Bytes × Option Bytes) (depth : Nat)
    (state : InvariantState) :
    checkNode store' fuel pageId bounds depth state = checkNode store fuel pageId bounds depth state := by
  induction fuel generalizing pageId bounds depth state with
  | zero => rfl
  | succ fuel ih =>
    have links := closed.linked pageId inTree
    rw [checkNode, checkNode, same pageId inTree]
    cases node : store.nodes pageId with
    | leaf tail entries => rfl
    | internal tail entries =>
      cases tail with
      | none => rfl
      | some first =>
        rw [node] at links
        have children : ∀ child ∈ childBounds bounds.1 bounds.2 first entries, ∀ state,
            checkNode store' fuel child.1 child.2 (depth + 1) state =
              checkNode store fuel child.1 child.2 (depth + 1) state :=
          fun child member state => ih (links _ (childBounds_linked child member)) _ _ _
        simp only [foldlM_congr children]

theorem checkInvariants_sameOn {root : Nat} (same : NodeStore.SameOn tree store store') (closed : store.Closed tree)
    (inTree : root ∈ tree) (fuel : Nat) : checkInvariants fuel ⟨store', root⟩ = checkInvariants fuel ⟨store, root⟩ := by
  obtain ⟨leftmost, leafIn⟩ := NodeStore.leftmostLeaf_sameOn same closed fuel inTree
  unfold checkInvariants
  simp only [checkNode_sameOn same closed fuel inTree, leftmost]
  cases found : store.leftmostLeaf fuel root with
  | error failure => rfl
  | ok leaf => simp only [Except.bind, viaTail_sameOn same closed fuel (leafIn leaf found)]

end BTreeIndex

namespace IndexHistory

theorem sound_start {history : IndexHistory} (start : system.init history) : history.index.Sound := by
  obtain ⟨store, rfl⟩ := start
  have node : (BTreeIndex.create store).store.nodes store.pages = .leaf none [] := NodeStore.nodes_write_self ..
  refine ⟨{store.pages}, rfl, ⟨?_, ?_, ?_, ?_, ?_⟩, 0, Nat.succ_pos _, ?_⟩
  rotate_left 5
  · rw [show (BTreeIndex.create store).rootPageId = store.pages from rfl, node]
    rfl
  all_goals rintro pageId rfl
  · exact store.header.ne'
  · exact Nat.lt_succ_self _
  all_goals rw [node]
  · rfl
  · simp [Node.Proper]
  · simp [Node.links]

theorem step_cases {history history' : IndexHistory} {action : Action}
    (next : system.step history action = some history') {tree : Set Nat} (holds : history.index.Holds tree) :
    (∃ key row index, action = .insert key row ∧ history.index.insert key row = .ok index ∧ index.Sound ∧
      history' = ⟨index, index.rootPageId :: history.roots⟩) ∨
    (∃ store, NodeStore.SameOn tree history.index.store store ∧ history.index.store.pages ≤ store.pages ∧
      history' = { history with index := { history.index with store } }) := by
  cases action with
  | insert key row =>
    have inserted := BTreeIndex.insert_closed holds key row
    simp only [system, step] at next
    cases result : history.index.insert key row with
    | error failure =>
      rw [result] at inserted
      simp only [result, Option.some.injEq] at next
      exact .inr ⟨failure.store, inserted.1, inserted.2.1, next.symm⟩
    | ok index =>
      rw [result] at inserted
      simp only [result, Option.some.injEq] at next
      exact .inl ⟨key, row, index, rfl, result, inserted, next.symm⟩
  | newPage => exact .inr ⟨history.index.store.newPage, fun _ _ => rfl, Nat.le_succ _, (Option.some.inj next).symm⟩

theorem sound_step {history history' : IndexHistory} {action : Action} (sound : history.index.Sound)
    (next : system.step history action = some history') : history'.index.Sound := by
  obtain ⟨tree, holds⟩ := sound
  rcases step_cases next holds with ⟨_, _, index, -, -, sound, rfl⟩ | ⟨store, same, more, rfl⟩
  · exact sound
  · exact ⟨tree, holds.of_sameOn same more⟩

theorem sound {history : IndexHistory} (reached : system.Reachable history) : history.index.Sound :=
  reached.invariant (P := fun history => history.index.Sound) (fun _ => sound_start)
    fun _ _ _ sound _ next => sound_step sound next

theorem tail_ne_zero {history : IndexHistory} (reached : system.Reachable history) {pageId : Nat}
    (under : history.index.store.Under history.index.rootPageId pageId) :
    ∀ id ∈ (history.index.store.nodes pageId).tail, id ≠ 0 := by
  obtain ⟨tree, holds⟩ := sound reached
  have linked := holds.closed.linked pageId (under.inTree holds.closed holds.root)
  refine fun id isTail => holds.closed.positive id (linked id ?_)
  cases node : history.index.store.nodes pageId <;> rw [node] at isTail
  · exact Option.mem_toList.mpr isTail
  · exact List.mem_append_left _ (Option.mem_toList.mpr isTail)

def empty : IndexHistory := ⟨.create ⟨fun _ => .leaf none [], 1, Nat.one_pos⟩, [1]⟩

theorem empty_reached : system.Reachable empty := .start ⟨_, rfl⟩

def after (history : IndexHistory) (action : Action) : IndexHistory := (system.step history action).getD history

theorem after_step (history : IndexHistory) (action : Action) :
    system.step history action = some (after history action) := by
  cases action with
  | insert key row =>
    simp only [after, system, step]
    cases history.index.insert key row <;> rfl
  | newPage => rfl

def longKey (first : UInt8) : Bytes := first :: List.replicate 1349 0

def wideKey : Bytes := 0 :: 1 :: List.replicate 4057 0

def rowAt (slot : Fin 3) : RowId := ⟨⟨0, slot⟩, show 0 < 256 ^ 4 by decide, Nat.lt_trans slot.isLt (by decide)⟩

def two : IndexHistory := after (after empty (.insert (longKey 0) (rowAt 0))) (.insert (longKey 1) (rowAt 1))

theorem two_reached : system.Reachable two :=
  .next (.next empty_reached trivial (after_step _ _)) trivial (after_step _ _)

set_option maxRecDepth 20000 in
theorem wideKey_overflows : ∃ failure, two.index.insert wideKey (rowAt 2) = .error failure ∧
    failure.error = .nodeOverflow 1 ∧ failure.store.pages = two.index.store.pages + 1 := by
  have failed : ((two.index.insert wideKey (rowAt 2)).map fun _ => ()).mapError (fun failure =>
      (failure.error, failure.store.pages)) = .error (.nodeOverflow 1, two.index.store.pages + 1) := by
    decide +kernel
  cases result : two.index.insert wideKey (rowAt 2) with
  | ok index =>
    rw [result] at failed
    cases failed
  | error failure =>
    rw [result] at failed
    exact ⟨failure, rfl, Prod.mk.inj (Except.error.inj failed)⟩

/-- An insertion that fails leaves the root, the pages under it and the verdict on the invariants. -/
theorem failed_insert_invisible {history : IndexHistory} (reached : system.Reachable history) (key : Bytes)
    (row : RowId) :
    (∀ failure history', history.index.insert key row = .error failure →
      (∃ size, failure.error = .keyTooLarge size) ∨ (∃ pageId, failure.error = .nodeOverflow pageId) →
      system.step history (.insert key row) = some history' →
      history'.index.rootPageId = history.index.rootPageId ∧
      (∀ pageId, history'.index.store.Under history'.index.rootPageId pageId ↔
        history.index.store.Under history.index.rootPageId pageId) ∧
      (∀ pageId, history.index.store.Under history.index.rootPageId pageId →
        history'.index.store.nodes pageId = history.index.store.nodes pageId) ∧
      ∀ fuel, history'.index.checkInvariants fuel = history.index.checkInvariants fuel) ∧
    (∀ ancestors leaf tail entries split, key.length ≤ MAX_KEY_SIZE →
      history.index.store.descendForInsert (LeafEntry.mk key row).sortKey (LeafEntry.mk key row).len
        history.index.store.pages history.index.rootPageId [] = .ok (ancestors, leaf) →
      history.index.store.nodes leaf = .leaf tail entries →
      history.index.store.splitLeaf leaf tail
        (entries.insertIdx (upperBoundInLeaf entries (LeafEntry.mk key row).sortKey) ⟨key, row⟩) = .ok split →
      ∀ failure, split.1.pushUp leaf split.2 history.index.store.pages ancestors ≠ .error failure) := by
  obtain ⟨tree, holds⟩ := sound reached
  have inTree := holds.root
  have closed := holds.closed
  refine ⟨?_, ?_⟩
  · intro failure history' failed logical next
    have inserted := BTreeIndex.insert_closed holds key row
    rw [failed] at inserted
    simp only [system, step, failed, Option.some.injEq] at next
    subst next
    obtain ⟨same, -, -⟩ := inserted
    refine ⟨rfl, fun pageId => ⟨fun under => ?_, fun under => ?_⟩, fun pageId under => ?_, fun fuel => ?_⟩
    · induction under with
      | self => exact .self
      | @link parent child _ isLink ih =>
        refine .link ih ?_
        rw [← same parent (ih.inTree closed inTree)]
        exact isLink
    · exact under.of_sameOn same closed inTree
    · exact same pageId (under.inTree closed inTree)
    · exact BTreeIndex.checkInvariants_sameOn same closed inTree fuel
  · intro ancestors leaf tail entries split small found node halves failure failed
    obtain ⟨top, pushed, -⟩ := BTreeIndex.pushUp_after_split holds small found node halves
    rw [failed] at pushed
    cases pushed

set_option maxRecDepth 20000 in
theorem failed_insert_invisible_overflow : ∃ failure, two.index.insert wideKey (rowAt 2) = .error failure ∧
    failure.error = .nodeOverflow 1 ∧ failure.store.pages = two.index.store.pages + 1 ∧
    failure.store.nodes 1 = two.index.store.nodes 1 ∧
    ∀ fuel, BTreeIndex.checkInvariants fuel { two.index with store := failure.store } =
      two.index.checkInvariants fuel := by
  obtain ⟨failure, failed, kind, pages⟩ := wideKey_overflows
  have next : system.step two (.insert wideKey (rowAt 2)) =
      some { two with index := { two.index with store := failure.store } } := by
    simp only [system, step, failed]
  obtain ⟨-, -, nodes, same⟩ :=
    (failed_insert_invisible two_reached wideKey (rowAt 2)).1 failure _ failed (.inr ⟨1, kind⟩) next
  have root : two.index.rootPageId = 1 := by decide +kernel
  exact ⟨failure, failed, kind, pages, nodes 1 (root ▸ .self), same⟩

end IndexHistory

end SimpleRdbms.Storage
