import SimpleRdbms.Proof.History
import SimpleRdbms.Storage.Recovery

namespace SimpleRdbms.Storage.SerialPool.Analysis

section Tables
variable {β : Type} {entries : List (Nat × β)} {key : Nat} {value : β}

theorem lookup_foldl_insert {γ : Type} (f : β → γ) (table : AList fun _ : Nat => γ) (key : Nat)
    (distinct : (entries.map Prod.fst).Nodup) :
    ((entries.foldl (fun table entry => table.insert entry.1 (f entry.2)) table).lookup key =
        table.lookup key ∧ key ∉ entries.map Prod.fst) ∨
      ∃ value, (key, value) ∈ entries ∧
        (entries.foldl (fun table entry => table.insert entry.1 (f entry.2)) table).lookup key = some (f value) := by
  induction entries generalizing table with
  | nil => exact .inl ⟨rfl, by simp⟩
  | cons first rest ih =>
    obtain ⟨fresh, distinct'⟩ := List.nodup_cons.mp distinct
    rw [List.foldl_cons]
    rcases @ih (table.insert first.1 (f first.2)) distinct' with ⟨same, absent⟩ | ⟨value, member, found⟩
    · by_cases here : key = first.1
      · subst here
        exact .inr ⟨first.2, by simp, by rw [same, AList.lookup_insert]⟩
      · rw [AList.lookup_insert_ne here] at same
        exact .inl ⟨same, by simpa [here] using absent⟩
    · exact .inr ⟨value, List.mem_cons_of_mem _ member, found⟩

theorem lookup_table {γ : Type} (f : β → γ) (distinct : (entries.map Prod.fst).Nodup) {result : γ} :
    (entries.foldl (fun table entry => table.insert entry.1 (f entry.2)) (∅ : AList fun _ : Nat => γ)).lookup key =
      some result ↔ ∃ value, (key, value) ∈ entries ∧ f value = result := by
  rcases lookup_foldl_insert f ∅ key distinct with ⟨same, absent⟩ | ⟨value, member, found⟩
  · rw [same]
    constructor
    · intro found
      simp at found
    · rintro ⟨value, member, -⟩
      exact absurd (List.mem_map_of_mem member) absent
  · rw [found]
    constructor
    · intro same
      exact ⟨value, member, Option.some.inj same⟩
    · rintro ⟨other, member', rfl⟩
      have same : (key, other) = (key, value) :=
        List.inj_on_of_nodup_map distinct member' member rfl
      rw [(Prod.mk.inj same).2]

end Tables

def touches (record : LoggedRecord) (pageId : Nat) : Prop :=
  record.changes pageId = true ∨ record.kind = .allocPage pageId

instance (record : LoggedRecord) (pageId : Nat) : Decidable (touches record pageId) :=
  inferInstanceAs (Decidable (_ ∨ _))

section Scan
variable {past scanned : List LoggedRecord} {record : LoggedRecord} {analysis : Analysis} {txnId : Nat}

def Appears (records : List LoggedRecord) (txnId : Nat) : Prop := ∃ record ∈ records, record.txnId = txnId

def Ended (records : List LoggedRecord) (txnId : Nat) : Prop :=
  ∃ record ∈ records, record.txnId = txnId ∧ record.kind = .endTxn

def Commits (records : List LoggedRecord) (txnId : Nat) : Prop :=
  ∃ record ∈ records, record.txnId = txnId ∧ record.kind = .commit

instance (records : List LoggedRecord) (txnId : Nat) : Decidable (Ended records txnId) :=
  inferInstanceAs (Decidable (∃ record ∈ records, _))

instance (records : List LoggedRecord) (txnId : Nat) : Decidable (Commits records txnId) :=
  inferInstanceAs (Decidable (∃ record ∈ records, _))

theorem appears_snoc : Appears (scanned ++ [record]) txnId ↔ Appears scanned txnId ∨ record.txnId = txnId := by
  simp [Appears, or_and_right, exists_or]

theorem ended_snoc :
    Ended (scanned ++ [record]) txnId ↔ Ended scanned txnId ∨ record.txnId = txnId ∧ record.kind = .endTxn := by
  simp [Ended, or_and_right, exists_or]

theorem commits_snoc :
    Commits (scanned ++ [record]) txnId ↔ Commits scanned txnId ∨ record.txnId = txnId ∧ record.kind = .commit := by
  simp [Commits, or_and_right, exists_or]

structure Known (past scanned : List LoggedRecord) (att : AList fun _ : Nat => Nat × Bool) (txnId : Nat) :
    Prop where
  ended : Ended (past ++ scanned) txnId → att.lookup txnId = none
  running : Appears (past ++ scanned) txnId → ¬ Ended (past ++ scanned) txnId → ∃ lsn committed,
    lastLsnOf (past ++ scanned) txnId = some lsn ∧ att.lookup txnId = some (lsn, committed) ∧
      (committed = true ↔ Commits scanned txnId)
  absent : ¬ Appears (past ++ scanned) txnId → ∀ found, att.lookup txnId = some found → found.2 = false

theorem Known.other {att att' : AList fun _ : Nat => Nat × Bool} (known : Known past scanned att txnId)
    (different : record.txnId ≠ txnId) (same : att'.lookup txnId = att.lookup txnId) :
    Known past (scanned ++ [record]) att' txnId := by
  constructor
  · rw [← List.append_assoc, ended_snoc, same]
    rintro (old | ⟨mine, -⟩)
    · exact known.ended old
    · exact absurd mine different
  · rw [← List.append_assoc, ended_snoc, appears_snoc, lastLsnOf_snoc, if_neg different, commits_snoc, same]
    simp only [different, false_and, or_false]
    exact known.running
  · rw [← List.append_assoc, appears_snoc, same]
    exact fun absent => known.absent fun old => absent (.inl old)

theorem Known.mine {att : AList fun _ : Nat => Nat × Bool} {committed : Bool}
    (open_ : ¬ Ended (past ++ scanned) record.txnId) (unended : record.kind ≠ .endTxn)
    (found : att.lookup record.txnId = some (record.lsn, committed))
    (commits : committed = true ↔ Commits scanned record.txnId ∨ record.kind = .commit) :
    Known past (scanned ++ [record]) att record.txnId := by
  constructor
  · rw [← List.append_assoc, ended_snoc]
    rintro (old | ⟨-, kind⟩)
    · exact absurd old open_
    · exact absurd kind unended
  · intro _ _
    refine ⟨record.lsn, committed, ?_, found, ?_⟩
    · rw [← List.append_assoc, lastLsnOf_snoc, if_pos rfl]
    · rw [commits_snoc, commits]
      simp
  · rw [← List.append_assoc, appears_snoc]
    exact fun absent => absurd (.inr rfl) absent

theorem touch_lookup {att : AList fun _ : Nat => Nat × Bool} (known : Known past scanned att record.txnId)
    (open_ : ¬ Ended (past ++ scanned) record.txnId) (unended : record.kind ≠ .endTxn)
    (uncommitted : record.kind ≠ .commit) :
    Known past (scanned ++ [record]) (touch att record.txnId record.lsn) record.txnId := by
  refine Known.mine open_ unended (AList.lookup_insert _) ?_
  simp only [uncommitted, or_false]
  by_cases appears : Appears (past ++ scanned) record.txnId
  · obtain ⟨lsn, committed, -, found, commits⟩ := known.running appears open_
    rw [found]
    exact commits
  · have never : ¬ Commits scanned record.txnId := by
      rintro ⟨old, member, mine, -⟩
      exact appears ⟨old, List.mem_append_right _ member, mine⟩
    simp only [never, iff_false, Bool.not_eq_true]
    cases found : att.lookup record.txnId with
    | none => rfl
    | some value => exact known.absent appears value found

theorem Known.scan {pages : Nat} (known : Known past scanned analysis.att txnId) (user : txnId ≠ CHECKPOINT_TXN)
    (ranged : Ranged pages (past ++ scanned) record) (running : ¬ Ended (past ++ scanned) record.txnId) :
    Known past (scanned ++ [record]) (analysis.scan record).att txnId := by
  unfold Analysis.scan
  by_cases mine : record.txnId = txnId
  · subst mine
    rw [if_neg user]
    cases kind : record.kind with
    | endTxn =>
      refine ⟨fun _ => AList.lookup_erase _ _, fun _ unended => ?_, fun absent => ?_⟩
      · exact absurd ⟨record, by simp, rfl, kind⟩ unended
      · exact absurd ⟨record, by simp, rfl⟩ absent
    | commit => exact Known.mine running (by simp [kind]) (AList.lookup_insert _) (by simp [kind])
    | begin =>
      refine Known.mine running (by simp [kind]) (AList.lookup_insert _) ?_
      have never : ¬ Commits scanned record.txnId := by
        rintro ⟨old, member, same, -⟩
        exact ranged.fresh kind old (List.mem_append_right _ member) same
      simp [kind, never]
    | update _ _ _ _ => exact touch_lookup known running (by simp [kind]) (by simp [kind])
    | clr _ _ _ _ => exact touch_lookup known running (by simp [kind]) (by simp [kind])
    | allocPage _ => exact touch_lookup known running (by simp [kind]) (by simp [kind])
    | abort => exact touch_lookup known running (by simp [kind]) (by simp [kind])
    | checkpointBegin => exact absurd (ranged.owned.mpr (by rw [kind]; rfl)) user
    | checkpointEnd _ _ => exact absurd (ranged.owned.mpr (by rw [kind]; rfl)) user
  · refine known.other mine ?_
    split
    · rfl
    · have inserted : ∀ value, (analysis.att.insert record.txnId value).lookup txnId = analysis.att.lookup txnId :=
        fun value => AList.lookup_insert_ne (Ne.symm mine)
      cases record.kind with
      | endTxn => exact AList.lookup_erase_ne (Ne.symm mine)
      | commit => exact inserted _
      | begin => exact inserted _
      | update _ _ _ _ => exact inserted _
      | clr _ _ _ _ => exact inserted _
      | allocPage _ => exact inserted _
      | abort => exact inserted _
      | checkpointBegin => rfl
      | checkpointEnd _ _ => rfl

end Scan

section Tables
variable {records : List LoggedRecord} {record : LoggedRecord} {analysis : Analysis} {pageId lsn : Nat}

theorem scan_key {txnId : Nat} (found : (analysis.scan record).att.lookup txnId ≠ none) :
    analysis.att.lookup txnId ≠ none ∨ record.txnId = txnId ∧ txnId ≠ CHECKPOINT_TXN := by
  by_cases mine : record.txnId = txnId
  · by_cases checkpoint : record.txnId = CHECKPOINT_TXN
    · rw [Analysis.scan, if_pos checkpoint] at found
      exact .inl found
    · exact .inr ⟨mine, mine ▸ checkpoint⟩
  · left
    have inserted : ∀ value, (analysis.att.insert record.txnId value).lookup txnId = analysis.att.lookup txnId :=
      fun value => AList.lookup_insert_ne (Ne.symm mine)
    unfold Analysis.scan at found
    split at found
    · exact found
    · cases kind : record.kind <;> simp only [kind, touch, inserted] at found <;> try exact found
      rwa [AList.lookup_erase_ne (Ne.symm mine)] at found

theorem foldl_scan_key {txnId : Nat} (found : (records.foldl Analysis.scan analysis).att.lookup txnId ≠ none) :
    analysis.att.lookup txnId ≠ none ∨ Appears records txnId ∧ txnId ≠ CHECKPOINT_TXN := by
  induction records using List.reverseRecOn with
  | nil => exact .inl found
  | append_singleton records record ih =>
    rw [List.foldl_append] at found
    rcases scan_key found with before | ⟨mine, user⟩
    · exact (ih before).imp_right fun ⟨appears, user⟩ => ⟨appears_snoc.mpr (.inl appears), user⟩
    · exact .inr ⟨appears_snoc.mpr (.inr mine), user⟩

theorem scan_dpt : (analysis.scan record).dpt.lookup pageId = (analysis.dpt.lookup pageId).or
    (if record.txnId ≠ CHECKPOINT_TXN ∧ touches record pageId then some record.lsn else none) := by
  have added : ∀ page, (addPage analysis.dpt page record.lsn).lookup pageId =
      (analysis.dpt.lookup pageId).or (if page = pageId then some record.lsn else none) := by
    intro page
    unfold addPage
    by_cases here : page = pageId
    · subst here
      cases present : analysis.dpt.lookup page with
      | some value => simp [present]
      | none => simp
    · cases analysis.dpt.lookup page with
      | some value => simp [here]
      | none => simp [here, AList.lookup_insert_ne (Ne.symm here)]
  unfold Analysis.scan
  by_cases checkpoint : record.txnId = CHECKPOINT_TXN
  · simp [checkpoint]
  · cases kind : record.kind <;>
      simp [checkpoint, touches, LoggedRecord.changes, kind, LogRecordKind.pageChange, added]

theorem foldl_scan_dpt_keep {value : Nat} (present : analysis.dpt.lookup pageId = some value) :
    (records.foldl Analysis.scan analysis).dpt.lookup pageId = some value := by
  induction records generalizing analysis with
  | nil => exact present
  | cons record records ih =>
    refine ih ?_
    rw [scan_dpt, present]
    rfl

theorem foldl_scan_dpt_origin {value : Nat}
    (present : (records.foldl Analysis.scan analysis).dpt.lookup pageId = some value) :
    analysis.dpt.lookup pageId = some value ∨ ∃ record ∈ records, record.lsn = value := by
  induction records generalizing analysis with
  | nil => exact .inl present
  | cons record records ih =>
    rcases ih present with before | ⟨later, member, same⟩
    · rw [scan_dpt] at before
      rcases Option.or_eq_some_iff.mp before with old | ⟨-, new⟩
      · exact .inl old
      · split at new
        · exact .inr ⟨record, by simp, Option.some.inj new⟩
        · simp at new
    · exact .inr ⟨later, List.mem_cons_of_mem _ member, same⟩

theorem foldl_scan_dpt_touch (analysis : Analysis) (sorted : records.Pairwise (·.lsn < ·.lsn))
    (member : record ∈ records) (user : record.txnId ≠ CHECKPOINT_TXN) (touched : touches record pageId) :
    ∃ value, (records.foldl Analysis.scan analysis).dpt.lookup pageId = some value ∧
      (analysis.dpt.lookup pageId = some value ∨ value ≤ record.lsn) := by
  induction records generalizing analysis with
  | nil => simp at member
  | cons first records ih =>
    obtain ⟨later, sorted'⟩ := List.pairwise_cons.mp sorted
    rcases List.mem_cons.mp member with rfl | inRest
    · cases present : analysis.dpt.lookup pageId with
      | some value => exact ⟨value, foldl_scan_dpt_keep present, .inl rfl⟩
      | none =>
        have entered : (analysis.scan record).dpt.lookup pageId = some record.lsn := by
          rw [scan_dpt, present, if_pos ⟨user, touched⟩]
          rfl
        rw [List.foldl_cons]
        exact ⟨record.lsn, foldl_scan_dpt_keep entered, .inr (Nat.le_refl _)⟩
    · obtain ⟨value, found, known⟩ := @ih (analysis.scan first) sorted' inRest
      refine ⟨value, found, ?_⟩
      rcases known with before | low
      · rw [scan_dpt] at before
        rcases Option.or_eq_some_iff.mp before with old | ⟨-, new⟩
        · exact .inl old
        · split at new
          · have same : first.lsn = value := Option.some.inj new
            exact .inr (same ▸ Nat.le_of_lt (later record inRest))
          · simp at new
      · exact .inr low

end Tables

def below (history : List LoggedRecord) (start : Nat) : List LoggedRecord :=
  history.filter fun record => decide (record.lsn < start)

def since (history : List LoggedRecord) (start : Nat) : List LoggedRecord :=
  history.filter fun record => decide (start ≤ record.lsn)

def Settled (disk : DiskManager) (record : LoggedRecord) (pageId : Nat) : Prop :=
  (record.changes pageId = true → record.lsn ≤ (disk.images pageId).lsn) ∧
    (record.kind = .allocPage pageId → pageId < disk.syncedLength)

/-- The tables logged at LSN `stop` describe the state at LSN `start` well enough to recover from there. -/
structure SnapshotOk (disk : DiskManager) (leaked : List Nat) (base start stop : Nat)
    (history : List LoggedRecord) (att dpt : List (Nat × Nat)) : Prop where
  attDistinct : (att.map Prod.fst).Nodup
  dptDistinct : (dpt.map Prod.fst).Nodup
  running : ∀ txnId, txnId ≠ CHECKPOINT_TXN → Appears (below history start) txnId → ∀ lsn,
    (txnId, lsn) ∈ att ↔ ¬ Ended (below history start) txnId ∧ lastLsnOf (below history start) txnId = some lsn
  named : ∀ txnId lsn, (txnId, lsn) ∈ att → txnId ≠ CHECKPOINT_TXN ∧
    ∃ record ∈ history, record.txnId = txnId ∧ record.lsn < stop
  values : ∀ pageId lsn, (pageId, lsn) ∈ dpt → base ≤ lsn ∧ HEADER_LEN ≤ lsn ∧ lsn ≤ stop
  covers : ∀ record ∈ history, record.lsn < stop → ∀ pageId, touches record pageId → pageId ∉ leaked →
    Settled disk record pageId ∨ ∃ lsn, (pageId, lsn) ∈ dpt ∧ lsn ≤ record.lsn

structure First (history : List LoggedRecord) (start : Nat) (record : LoggedRecord) : Prop where
  member : record ∈ history
  low : start ≤ record.lsn
  first : ∀ other ∈ history, start ≤ other.lsn → other.lsn < record.lsn → snapshot? other = none

/-- Recovery may start at `start`: the beginning of the log, or a checkpoint whose tables are found below `limit`. -/
structure Anchored (disk : DiskManager) (leaked : List Nat) (base limit : Nat) (history : List LoggedRecord)
    (start : Nat) : Prop where
  low : base ≤ start
  header : HEADER_LEN ≤ start
  found : start = HEADER_LEN ∨ ∃ record ∈ history, start ≤ record.lsn ∧ record.lsn < limit ∧ snapshot? record ≠ none
  ok : ∀ record att dpt, First history start record → snapshot? record = some (att, dpt) →
    SnapshotOk disk leaked base start record.lsn history att dpt

section Start
variable {history : List LoggedRecord} {start : Nat}

theorem below_append_since (start : Nat) (sorted : history.Pairwise (·.lsn < ·.lsn)) :
    history = below history start ++ since history start := by
  induction history with
  | nil => rfl
  | cons record history ih =>
    obtain ⟨later, sorted'⟩ := List.pairwise_cons.mp sorted
    by_cases low : record.lsn < start
    · have notSince : ¬ start ≤ record.lsn := by omega
      simp only [below, since, List.filter_cons, low, notSince, decide_true, decide_false, if_true]
      exact congrArg _ (ih sorted')
    · have all : since (record :: history) start = record :: history := by
        simp only [since, List.filter_eq_self, decide_eq_true_eq]
        intro other member
        rcases List.mem_cons.mp member with rfl | rest
        · omega
        · have := later other rest
          omega
      have none : below (record :: history) start = [] := by
        simp only [below, List.filter_eq_nil_iff, decide_eq_true_eq]
        intro other member
        rcases List.mem_cons.mp member with rfl | rest
        · exact low
        · have := later other rest
          omega
      rw [all, none, List.nil_append]

theorem first_of_findSome (sorted : history.Pairwise (·.lsn < ·.lsn))
    {tables : List (Nat × Nat) × List (Nat × Nat)} (found : (since history start).findSome? snapshot? = some tables) :
    ∃ record, First history start record ∧ snapshot? record = some tables := by
  obtain ⟨earlier, record, later, split, here, none⟩ := List.findSome?_eq_some_iff.mp found
  have isSince : record ∈ since history start := by simp [split]
  obtain ⟨member, low⟩ := List.mem_filter.mp isSince
  refine ⟨record, ⟨member, by simpa using low, fun other isOther from_ before => ?_⟩, here⟩
  have sorted' : (since history start).Pairwise (·.lsn < ·.lsn) := sorted.filter _
  rw [split] at sorted'
  have among : other ∈ since history start := List.mem_filter.mpr ⟨isOther, by simpa using from_⟩
  rw [split] at among
  rcases List.mem_append.mp among with isEarlier | rest
  · exact none other isEarlier
  · obtain ⟨-, following, -⟩ := List.pairwise_append.mp sorted'
    rcases List.mem_cons.mp rest with rfl | isLater
    · omega
    · have := (List.pairwise_cons.mp following).1 other isLater
      omega

end Start

structure Analysed (disk : DiskManager) (leaked : List Nat) (base : Nat) (history : List LoggedRecord)
    (start : Nat) (analysis : Analysis) : Prop where
  known : ∀ txnId, txnId ≠ CHECKPOINT_TXN → Known (below history start) (since history start) analysis.att txnId
  named : ∀ txnId, analysis.att.lookup txnId ≠ none → txnId ≠ CHECKPOINT_TXN ∧ Appears history txnId
  covers : ∀ record ∈ history, ∀ pageId, touches record pageId → pageId ∉ leaked →
    Settled disk record pageId ∨ ∃ lsn, analysis.dpt.lookup pageId = some lsn ∧ lsn ≤ record.lsn
  values : ∀ pageId lsn, analysis.dpt.lookup pageId = some lsn → base ≤ lsn ∧ HEADER_LEN ≤ lsn

section Analyse
variable {disk : DiskManager} {leaked : List Nat} {base limit known : Nat} {history : List LoggedRecord} {start : Nat}

theorem load_cases (sorted : history.Pairwise (·.lsn < ·.lsn))
    (anchored : Anchored disk leaked base limit history start) :
    (start = HEADER_LEN ∧ load (since history start) = { att := ∅, dpt := ∅ }) ∨
      ∃ record att dpt, First history start record ∧ SnapshotOk disk leaked base start record.lsn history att dpt ∧
        (∀ txnId found, (load (since history start)).att.lookup txnId = some found ↔
          ∃ lsn, (txnId, lsn) ∈ att ∧ (lsn, false) = found) ∧
        ∀ pageId lsn, (load (since history start)).dpt.lookup pageId = some lsn ↔ (pageId, lsn) ∈ dpt := by
  unfold load
  cases found : (since history start).findSome? snapshot? with
  | none =>
    refine .inl ⟨anchored.found.resolve_right ?_, rfl⟩
    rintro ⟨record, member, low, -, carries⟩
    refine carries (List.findSome?_eq_none_iff.mp found record ?_)
    exact List.mem_filter.mpr ⟨member, by simpa using low⟩
  | some tables =>
    obtain ⟨record, first, here⟩ := first_of_findSome sorted found
    have ok := anchored.ok record tables.1 tables.2 first here
    refine .inr ⟨record, tables.1, tables.2, first, ok, fun txnId found => ?_, fun pageId lsn => ?_⟩
    · exact lookup_table (fun lsn => (lsn, false)) ok.attDistinct
    · exact (lookup_table id ok.dptDistinct).trans (by simp)

theorem lastLsnOf_of_appears {records : List LoggedRecord} {txnId : Nat} (appears : Appears records txnId) :
    ∃ lsn, lastLsnOf records txnId = some lsn := by
  obtain ⟨record, member, mine⟩ := appears
  have found : record ∈ records.filter (·.txnId = txnId) := List.mem_filter.mpr ⟨member, by simpa using mine⟩
  unfold lastLsnOf
  cases last : (records.filter (·.txnId = txnId)).getLast? with
  | none => simp [List.getLast?_eq_none_iff.mp last] at found
  | some record => exact ⟨record.lsn, rfl⟩

theorem touches_user (ranges : Ranges known history) {record : LoggedRecord} (member : record ∈ history)
    {pageId : Nat} (touched : touches record pageId) : record.txnId ≠ CHECKPOINT_TXN := by
  obtain ⟨before, after, -, ranged⟩ := ranges.member member
  intro checkpoint
  have isCheckpoint := ranged.owned.mp checkpoint
  rcases touched with changes | allocates
  · cases kind : record.kind <;>
      simp [kind, LogRecordKind.isCheckpoint, LoggedRecord.changes, LogRecordKind.pageChange] at isCheckpoint changes
  · simp [allocates, LogRecordKind.isCheckpoint] at isCheckpoint

theorem foldl_scan_known {past scanned : List LoggedRecord} {analysis : Analysis} {txnId : Nat}
    (user : txnId ≠ CHECKPOINT_TXN) (ranges : Ranges known (past ++ scanned))
    (running : ∀ before record after, past ++ scanned = before ++ record :: after → ¬ Ended before record.txnId)
    (first : Known past [] analysis.att txnId) :
    Known past scanned (scanned.foldl Analysis.scan analysis).att txnId := by
  induction scanned using List.reverseRecOn with
  | nil => exact first
  | append_singleton scanned record ih =>
    rw [← List.append_assoc] at ranges running
    rw [List.foldl_append]
    refine (ih ranges.init.1 ?_).scan user ranges.init.2 (running _ record [] rfl)
    intro before earlier after split
    refine running before earlier (after ++ [record]) ?_
    rw [split]
    simp

theorem analysed (sorted : history.Pairwise (·.lsn < ·.lsn)) (ranges : Ranges known history)
    (header : ∀ record ∈ history, HEADER_LEN ≤ record.lsn)
    (running : ∀ before record after, history = before ++ record :: after → ¬ Ended before record.txnId)
    (anchored : Anchored disk leaked base limit history start) :
    Analysed disk leaked base history start
      ((since history start).foldl Analysis.scan (load (since history start))) := by
  have split := below_append_since start sorted
  have loaded := load_cases sorted anchored
  have beginning : start = HEADER_LEN → below history start = [] := by
    rintro rfl
    simp only [below, List.filter_eq_nil_iff, decide_eq_true_eq, Nat.not_lt]
    exact header
  constructor
  · intro txnId user
    refine foldl_scan_known user (split ▸ ranges) (split ▸ running) ?_
    rcases loaded with ⟨start_, empty⟩ | ⟨record, att, dpt, first, ok, txns, pages⟩
    · rw [beginning start_, empty]
      refine ⟨?_, ?_, ?_⟩ <;> simp [Ended, Appears]
    · constructor
      · intro ended
        rw [List.append_nil] at ended
        have appears : Appears (below history start) txnId := by
          obtain ⟨old, member, mine, -⟩ := ended
          exact ⟨old, member, mine⟩
        rw [Option.eq_none_iff_forall_ne_some]
        intro found present
        obtain ⟨lsn, listed, -⟩ := (txns txnId found).mp present
        exact ((ok.running txnId user appears lsn).mp listed).1 ended
      · rw [List.append_nil]
        intro appears open_
        obtain ⟨lsn, last⟩ := lastLsnOf_of_appears appears
        refine ⟨lsn, false, last, (txns txnId _).mpr ⟨lsn, ?_, rfl⟩, by simp [Commits]⟩
        exact (ok.running txnId user appears lsn).mpr ⟨open_, last⟩
      · intro _ found present
        obtain ⟨lsn, -, rfl⟩ := (txns txnId found).mp present
        rfl
  · intro txnId found
    rcases foldl_scan_key found with before | ⟨⟨record, member, mine⟩, user⟩
    · rcases loaded with ⟨-, empty⟩ | ⟨record, att, dpt, first, ok, txns, pages⟩
      · simp [empty] at before
      · obtain ⟨value, present⟩ := Option.ne_none_iff_exists'.mp before
        obtain ⟨lsn, listed, -⟩ := (txns txnId value).mp present
        obtain ⟨user, old, member, mine, -⟩ := ok.named txnId lsn listed
        exact ⟨user, old, member, mine⟩
    · exact ⟨user, record, (List.mem_filter.mp member).1, mine⟩
  · intro record member pageId touched used
    by_cases early : record.lsn < start
    · rcases loaded with ⟨start_, -⟩ | ⟨snapshot, att, dpt, first, ok, txns, pages⟩
      · have := header record member
        omega
      · refine (ok.covers record member (Nat.lt_of_lt_of_le early first.low) pageId touched used).imp_right ?_
        rintro ⟨lsn, listed, low⟩
        exact ⟨lsn, foldl_scan_dpt_keep ((pages pageId lsn).mpr listed), low⟩
    · have isSince : record ∈ since history start := List.mem_filter.mpr ⟨member, by simpa using early⟩
      obtain ⟨lsn, found, origin⟩ := foldl_scan_dpt_touch (load (since history start))
        (sorted.filter _) isSince (touches_user ranges member touched) touched
      by_cases low : lsn ≤ record.lsn
      · exact .inr ⟨lsn, found, low⟩
      · have before := origin.resolve_right low
        rcases loaded with ⟨-, empty⟩ | ⟨snapshot, att, dpt, first, ok, txns, pages⟩
        · simp [empty] at before
        · have listed := (pages pageId lsn).mp before
          have late := (ok.values pageId lsn listed).2.2
          -- the checkpoint lists the page with one LSN only, and that one is too late
          refine .inl ((ok.covers record member (by omega) pageId touched used).resolve_right ?_)
          rintro ⟨other, listed', low'⟩
          have same : (pageId, other) = (pageId, lsn) :=
            List.inj_on_of_nodup_map ok.dptDistinct listed' listed rfl
          exact low ((Prod.mk.inj same).2 ▸ low')
  · intro pageId lsn found
    rcases foldl_scan_dpt_origin found with before | ⟨record, member, rfl⟩
    · rcases loaded with ⟨-, empty⟩ | ⟨snapshot, att, dpt, first, ok, txns, pages⟩
      · simp [empty] at before
      · have values := ok.values pageId lsn ((pages pageId lsn).mp before)
        exact ⟨values.1, values.2.1⟩
    · obtain ⟨isRecord, late⟩ := List.mem_filter.mp member
      exact ⟨Nat.le_trans anchored.low (by simpa using late), header record isRecord⟩

end Analyse

section Results
variable {analysis : Analysis}

theorem losers_iff {txnId lsn : Nat} :
    (txnId, lsn) ∈ analysis.losers ↔ analysis.att.lookup txnId = some (lsn, false) := by
  have entered : ∀ value, analysis.att.lookup txnId = some value ↔ Sigma.mk txnId value ∈ analysis.att.entries :=
    fun value => AList.mem_lookup_iff
  rw [entered, losers, List.mem_filterMap]
  constructor
  · rintro ⟨⟨key, last, committed⟩, member, loser⟩
    cases committed with
    | true => simp at loser
    | false =>
      obtain ⟨rfl, rfl⟩ : key = txnId ∧ last = lsn := by simpa using loser
      exact member
  · exact fun member => ⟨_, member, rfl⟩

theorem losers_distinct (analysis : Analysis) : (analysis.losers.map Prod.fst).Nodup := by
  have keys : (analysis.losers.map Prod.fst).Sublist analysis.att.keys := by
    rw [losers, AList.keys, List.keys]
    generalize analysis.att.entries = entries
    induction entries with
    | nil => simp
    | cons entry entries ih =>
      rw [List.filterMap_cons]
      cases committed : entry.2.2 with
      | true => simpa [committed] using ih.cons _
      | false => simpa [committed] using ih.cons_cons entry.1
  exact keys.nodup analysis.att.keys_nodup

theorem minRecoveryLsn_none (none : analysis.minRecoveryLsn = none) (pageId : Nat) :
    analysis.dpt.lookup pageId = Option.none := by
  rw [Option.eq_none_iff_forall_ne_some]
  intro lsn present
  have member : Sigma.mk pageId lsn ∈ analysis.dpt.entries := AList.mem_lookup_iff.mp present
  have empty : analysis.dpt.entries.map (·.2) = [] := List.min?_eq_none_iff.mp none
  have listed : lsn ∈ analysis.dpt.entries.map (·.2) := List.mem_map_of_mem member
  rw [empty] at listed
  simp at listed

theorem minRecoveryLsn_some {low : Nat} (least : analysis.minRecoveryLsn = some low) :
    (∃ pageId, analysis.dpt.lookup pageId = some low) ∧
      ∀ pageId lsn, analysis.dpt.lookup pageId = some lsn → low ≤ lsn := by
  obtain ⟨member, smallest⟩ := List.min?_eq_some_iff.mp least
  constructor
  · obtain ⟨⟨pageId, lsn⟩, entered, rfl⟩ := List.mem_map.mp member
    exact ⟨pageId, AList.mem_lookup_iff.mpr entered⟩
  · intro pageId lsn present
    exact smallest lsn (List.mem_map_of_mem (f := (·.2)) (AList.mem_lookup_iff.mp present))

end Results

end SimpleRdbms.Storage.SerialPool.Analysis
