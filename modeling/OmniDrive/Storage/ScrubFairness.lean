import OmniDrive.Crypto.SymbolicChunks
import OmniDrive.Library.Rotation
import OmniDrive.Storage.Scrubber

/-!
# Turns of the scrubber

The shards wait in the order of their last verification. A check that writes nothing leaves its
shard in front, so that the shards whose checks write nothing take up a part of every batch.
-/

namespace OmniDrive

open Tables Rotation

variable {P : Primitives}

namespace Scrubber

variable (C : ChunkPrimitives P)

/-! ## What is asked of the scrubber -/

/-- A shard without the columns that checks write. -/
def bare (s : ScrubShardRecord) : ScrubShardRecord :=
  { s with
    status := .pending
    lastError := none
    lastVerifiedAt := none
    lastVerificationMethod := none
    lastVerificationStatus := none
    lastVerifiedSize := none
    verificationFailures := 0 }

/-- The rows of a table with its two keys. -/
structure ScrubTable where
  rows : List ScrubShardRecord
  key_nodup : (rows.map (·.key)).Nodup
  id_nodup : (rows.map (·.id)).Nodup

/-- The rows before each of a sequence of calls. -/
def tables (answers : ShardKey → ScrubAnswers) (b : ℕ) (modulus : ℕ → ℕ) (clock : ℕ → ℕ → ℤ)
    (rows : List ScrubShardRecord) : ℕ → List ScrubShardRecord
  | 0 => rows
  | t + 1 => (runOneBatch C answers b (modulus t) (clock t)
      (tables answers b modulus clock rows t)).2

/-- Consecutive calls on the shards of a table: what earlier checks have left there, the
configuration, the number of packs at each call, and a clock that is ahead of the table. -/
structure Window (answers : ShardKey → ScrubAnswers) (b : ℕ) (table : ScrubTable) where
  start : List ScrubShardRecord
  same : start.map bare = table.rows.map bare
  deepVerifyModulus : ℕ
  modulus_pos : 0 < deepVerifyModulus
  packCount : ℕ → ℤ
  clock : ℕ → ℕ → ℤ
  forward : ∀ t idx, ∀ s ∈ tables C answers b
      (fun t => effectiveDeepVerifyModulus deepVerifyModulus (packCount t)) clock start t,
    ∀ verifiedAt, s.lastVerifiedAt = some verifiedAt → verifiedAt < clock t idx

variable {C}

/-- The rows before each call of the window. -/
def Window.tables {answers : ShardKey → ScrubAnswers} {b : ℕ} {table : ScrubTable}
    (w : Window C answers b table) : ℕ → List ScrubShardRecord :=
  Scrubber.tables C answers b
    (fun t => effectiveDeepVerifyModulus w.deepVerifyModulus (w.packCount t)) w.clock w.start

/-- The shards that a call of the window attempts. -/
def Window.attempted {answers : ShardKey → ScrubAnswers} {b : ℕ} {table : ScrubTable}
    (w : Window C answers b table) (t : ℕ) : List ShardKey :=
  (getNextShardsForScrub b (w.tables t)).map (·.key)

/-- The number of calls that get through `n` shards, `b` at a time. -/
def callsFor (b n : ℕ) : ℕ := (n + b - 1) / b

variable (C)

/-- Any so many consecutive calls attempt every shard. -/
def Fair (answers : ShardKey → ScrubAnswers) (b : ℕ) (table : ScrubTable) : Prop :=
  ∀ w : Window C answers b table, ∀ s ∈ table.rows,
    ∃ t < callsFor b table.rows.length, s.key ∈ w.attempted t

/-- A deep check of a shard writes nothing. -/
def isStuck (answers : ShardKey → ScrubAnswers) (s : ScrubShardRecord) : Bool :=
  (verdictOf C (answers s.key) s true).isNone

/-- There is room enough beside the shards that are stuck. -/
def HasRoom (answers : ShardKey → ScrubAnswers) (b : ℕ) (table : ScrubTable) : Prop :=
  table.rows.length ≤
    b + (callsFor b table.rows.length - 1) * (b - table.rows.countP (isStuck C answers))

/-! ## One batch -/

variable {C}

/-- A shard whose light check writes nothing is stuck. -/
theorem isStuck_of_verdictOf {answers : ShardKey → ScrubAnswers} {s : ScrubShardRecord}
    {useDeep : Bool} (h : verdictOf C (answers s.key) s useDeep = none) :
    isStuck C answers s = true := by
  cases useDeep with
  | true => rw [isStuck, h]; rfl
  | false =>
    rw [isStuck, Option.isNone_iff_eq_none]
    unfold verdictOf at h ⊢
    split at h
    · rename_i hallowed
      rw [if_pos hallowed]
      cases hhead : (answers s.key).head with
      | found contentLength =>
        rw [hhead, afterHead] at h
        by_cases hsize : contentLength.getD 0 ≠ s.size
        · rw [if_pos hsize] at h
          cases h
        · rw [if_neg hsize] at h
          cases h
      | failed details =>
        rw [hhead, afterHead] at h
        rw [afterHead]
        exact h
      | timedOut => rfl
    · rename_i hallowed
      rw [if_neg hallowed]

/-- Write the verdicts that a batch has come to. -/
def applyVerdicts (verdicts : ShardKey → Option (Verdict × ℤ)) (s : ScrubShardRecord) :
    ScrubShardRecord :=
  match verdicts s.key with
  | some (v, now) => recordVerdict v now s
  | none => s

@[simp] theorem key_applyVerdicts (verdicts : ShardKey → Option (Verdict × ℤ))
    (s : ScrubShardRecord) : (applyVerdicts verdicts s).key = s.key := by
  unfold applyVerdicts
  split <;> rfl

@[simp] theorem id_applyVerdicts (verdicts : ShardKey → Option (Verdict × ℤ))
    (s : ScrubShardRecord) : (applyVerdicts verdicts s).id = s.id := by
  unfold applyVerdicts
  split <;> rfl

@[simp] theorem bare_applyVerdicts (verdicts : ShardKey → Option (Verdict × ℤ))
    (s : ScrubShardRecord) : bare (applyVerdicts verdicts s) = bare s := by
  unfold applyVerdicts
  split <;> rfl

theorem map_applyVerdicts_none (rows : List ScrubShardRecord) :
    rows.map (applyVerdicts fun _ => none) = rows := List.map_id rows

/-- A batch writes at most one verdict to each of its shards, and none only where a check writes
nothing. -/
structure BatchVerdicts (answers : ShardKey → ScrubAnswers) (modulus : ℕ) (clock : ℕ → ℤ)
    (batch : List ScrubShardRecord) (verdicts : ShardKey → Option (Verdict × ℤ)) : Prop where
  mem : ∀ key v now, verdicts key = some (v, now) → key ∈ batch.map (·.key) ∧ ∃ idx, now = clock idx
  stuck : ∀ s ∈ batch, verdicts s.key = none → isStuck C answers s = true
  written : ∀ s ∈ batch, (verdicts s.key).isSome = true → ∃ idx,
    (verdictOf C (answers s.key) s (shouldDeepVerifyWith s idx modulus)).isSome = true

/-- One check writes its verdict, if it comes to one. -/
theorem verifyShard_snd (answers : ScrubAnswers) (now : ℤ) (shard : ScrubShardRecord)
    (useDeep : Bool) (rows : List ScrubShardRecord) :
    (verifyShard C answers now shard useDeep rows).2 =
      rows.map (applyVerdicts fun key =>
        if key = shard.key then (verdictOf C answers shard useDeep).map (·, now) else none) := by
  have hnone : verdictOf C answers shard useDeep = none → rows = rows.map (applyVerdicts fun key =>
      if key = shard.key then (verdictOf C answers shard useDeep).map (·, now) else none) := by
    intro h
    simp only [h, Option.map_none, ite_self, map_applyVerdicts_none]
  unfold verifyShard
  split
  · cases hverdict : verdictOf C answers shard useDeep with
    | none =>
      rw [hverdict] at hnone
      exact hnone rfl
    | some v =>
      change updateRow shard.key (recordVerdict v now) rows = _
      rw [updateRow, updateWhere]
      apply List.map_congr_left
      intro s _
      by_cases hkey : s.key = shard.key
      · simp [applyVerdicts, hkey]
      · simp [applyVerdicts, hkey]
  · rename_i hconfigured
    apply hnone
    simp [verdictOf, hconfigured]

theorem exists_verdicts (answers : ShardKey → ScrubAnswers) (modulus : ℕ) (clock : ℕ → ℤ) (idx : ℕ)
    (batch rows : List ScrubShardRecord) (hnodup : (batch.map (·.key)).Nodup) :
    ∃ verdicts, verifyBatch C answers modulus clock idx batch rows =
        rows.map (applyVerdicts verdicts) ∧
      BatchVerdicts (C := C) answers modulus clock batch verdicts := by
  induction batch generalizing idx rows with
  | nil =>
    refine ⟨fun _ => none, ?_, ⟨fun _ _ _ h => (by cases h), by simp, by simp⟩⟩
    rw [verifyBatch, map_applyVerdicts_none]
  | cons shard rest ih =>
    rw [List.map_cons, List.nodup_cons] at hnodup
    obtain ⟨later, hrows, hlater⟩ := ih (idx + 1) (verifyShard C (answers shard.key) (clock idx)
      shard (shouldDeepVerifyWith shard idx modulus) rows).2 hnodup.2
    have hfresh : later shard.key = none := by
      rw [Option.eq_none_iff_forall_ne_some]
      rintro ⟨v, now⟩ h
      exact hnodup.1 (hlater.mem _ _ _ h).1
    have hshard : ∀ s ∈ shard :: rest, s.key = shard.key → s = shard := by
      intro s hs hkey
      rcases List.mem_cons.mp hs with heq | hrest
      · exact heq
      · exact absurd (hkey ▸ List.mem_map_of_mem hrest) hnodup.1
    have hrest : ∀ s ∈ shard :: rest, s.key ≠ shard.key → s ∈ rest := fun s hs hkey =>
      (List.mem_cons.mp hs).resolve_left fun heq => hkey (by rw [heq])
    refine ⟨fun key => if key = shard.key then (verdictOf C (answers shard.key) shard
      (shouldDeepVerifyWith shard idx modulus)).map (·, clock idx) else later key, ?_, ⟨?_, ?_, ?_⟩⟩
    · rw [verifyBatch, hrows, verifyShard_snd, List.map_map]
      apply List.map_congr_left
      intro s _
      rw [Function.comp_apply]
      by_cases hkey : s.key = shard.key
      · rw [applyVerdicts, key_applyVerdicts, hkey, hfresh]
        simp only [applyVerdicts, hkey, if_pos]
      · simp only [applyVerdicts, hkey, if_false]
    · intro key v now h
      by_cases hkey : key = shard.key
      · rw [if_pos hkey] at h
        obtain ⟨v', -, hpair⟩ := Option.map_eq_some_iff.mp h
        refine ⟨?_, idx, (congrArg Prod.snd hpair).symm⟩
        rw [hkey]
        exact List.mem_map_of_mem List.mem_cons_self
      · rw [if_neg hkey] at h
        obtain ⟨hmem, htime⟩ := hlater.mem key v now h
        exact ⟨List.mem_cons_of_mem _ hmem, htime⟩
    · intro s hs h
      by_cases hkey : s.key = shard.key
      · obtain rfl := hshard s hs hkey
        rw [if_pos rfl, Option.map_eq_none_iff] at h
        exact isStuck_of_verdictOf h
      · rw [if_neg hkey] at h
        exact hlater.stuck s (hrest s hs hkey) h
    · intro s hs h
      by_cases hkey : s.key = shard.key
      · obtain rfl := hshard s hs hkey
        rw [if_pos rfl, Option.isSome_map] at h
        exact ⟨idx, h⟩
      · rw [if_neg hkey] at h
        exact hlater.written s (hrest s hs hkey) h

/-! ## A batch as a turn -/

/-- The shards of a table in the order of the scrubber. -/
def queue (rows : List ScrubShardRecord) : List ShardKey := (orderBy scrubOrder rows).map (·.key)

theorem queue_perm (rows : List ScrubShardRecord) : (queue rows).Perm (rows.map (·.key)) :=
  (orderBy_perm scrubOrder rows).map _

/-- What has not been verified, or earlier than everything of a batch, comes before what the batch
has verified. -/
theorem scrubOrder_le_recordVerdict {s r : ScrubShardRecord} {v : Verdict} {now : ℤ}
    (hs : ∀ verifiedAt, s.lastVerifiedAt = some verifiedAt → verifiedAt < now) :
    scrubOrder s ≤ scrubOrder (recordVerdict v now r) := by
  have hnow : (recordVerdict v now r).lastVerifiedAt = some now := rfl
  rw [scrubOrder, scrubOrder, hnow]
  cases hat : s.lastVerifiedAt with
  | none => exact Prod.Lex.toLex_le_toLex.mpr (.inl Nat.zero_lt_one)
  | some verifiedAt =>
    refine Prod.Lex.toLex_le_toLex.mpr (.inr ⟨rfl, ?_⟩)
    exact Prod.Lex.toLex_le_toLex.mpr (.inl (hs verifiedAt hat))

theorem nodup_scrubOrder {rows : List ScrubShardRecord} (hid : (rows.map (·.id)).Nodup) :
    (rows.map scrubOrder).Nodup := by
  have hproj : rows.map (·.id) =
      (rows.map scrubOrder).map fun x => (ofLex (ofLex (ofLex x).2).2).2 := by
    rw [List.map_map]
    rfl
  rw [hproj] at hid
  exact hid.of_map

section Turns

variable {answers : ShardKey → ScrubAnswers} {modulus : ℕ} {clock : ℕ → ℤ} {b : ℕ}
  {rows : List ScrubShardRecord} {verdicts : ShardKey → Option (Verdict × ℤ)}

theorem map_applyVerdicts_of_none {l : List ScrubShardRecord}
    (h : ∀ s ∈ l, verdicts s.key = none) : l.map (applyVerdicts verdicts) = l := by
  refine (List.map_congr_left fun s hs => ?_).trans (List.map_id l)
  rw [applyVerdicts, h s hs, id]

/-- The order behind a batch: what was not verified keeps its order, and the rest comes last. -/
theorem orderBy_applyVerdicts (hkey : (rows.map (·.key)).Nodup) (hid : (rows.map (·.id)).Nodup)
    (hforward : ∀ idx, ∀ s ∈ rows, ∀ verifiedAt, s.lastVerifiedAt = some verifiedAt →
      verifiedAt < clock idx)
    (hverdicts : BatchVerdicts (C := C) answers modulus clock
      ((orderBy scrubOrder rows).take b) verdicts) :
    orderBy scrubOrder (rows.map (applyVerdicts verdicts)) =
      ((orderBy scrubOrder rows).take b).filter (fun s => (verdicts s.key).isNone) ++
        (orderBy scrubOrder rows).drop b ++
        orderBy scrubOrder ((((orderBy scrubOrder rows).take b).filter fun s =>
          !(verdicts s.key).isNone).map (applyVerdicts verdicts)) := by
  have hsorted := pairwise_orderBy scrubOrder rows
  have hmem := mem_orderBy scrubOrder rows
  have hperm := orderBy_perm scrubOrder rows
  have hkey' : ((orderBy scrubOrder rows).map (·.key)).Nodup := (hperm.map _).nodup_iff.mpr hkey
  generalize orderBy scrubOrder rows = sorted at *
  have hdrop : ∀ s ∈ sorted.drop b, verdicts s.key = none := by
    intro s hs
    rw [Option.eq_none_iff_forall_ne_some]
    rintro ⟨v, now⟩ h
    have hbatch := (hverdicts.mem _ _ _ h).1
    rw [← List.take_append_drop b sorted, List.map_append, List.nodup_append] at hkey'
    exact hkey'.2.2 _ hbatch _ (List.mem_map_of_mem hs) rfl
  apply orderBy_eq_of_perm
  · apply nodup_scrubOrder
    rw [List.map_map]
    have hsame : ((·.id) ∘ applyVerdicts verdicts : ScrubShardRecord → ℤ) = (·.id) :=
      funext fun s => id_applyVerdicts verdicts s
    rw [hsame]
    exact hid
  · rw [List.pairwise_append]
    refine ⟨?_, pairwise_orderBy _ _, ?_⟩
    · refine hsorted.sublist ?_
      conv_rhs => rw [← List.take_append_drop b sorted]
      exact List.filter_sublist.append_right _
    · intro s hs r hr
      rw [mem_orderBy] at hr
      obtain ⟨t, ht, rfl⟩ := List.mem_map.mp hr
      obtain ⟨htake, hsome⟩ := List.mem_filter.mp ht
      cases hverdict : verdicts t.key with
      | none => simp [hverdict] at hsome
      | some pair =>
        obtain ⟨v, now⟩ := pair
        obtain ⟨-, idx, rfl⟩ := hverdicts.mem _ _ _ hverdict
        rw [applyVerdicts, hverdict]
        apply scrubOrder_le_recordVerdict
        apply hforward idx s
        rw [← hmem]
        rcases List.mem_append.mp hs with hs | hs
        · exact List.mem_of_mem_take (List.mem_of_mem_filter hs)
        · exact List.mem_of_mem_drop hs
  · have hkept : ((sorted.take b).filter fun s => (verdicts s.key).isNone).map
        (applyVerdicts verdicts) = (sorted.take b).filter fun s => (verdicts s.key).isNone :=
      map_applyVerdicts_of_none fun s hs => by simpa using (List.mem_filter.mp hs).2
    have hrest : (sorted.drop b).map (applyVerdicts verdicts) = sorted.drop b :=
      map_applyVerdicts_of_none hdrop
    have hsplit := (List.filter_append_perm (fun s : ScrubShardRecord => (verdicts s.key).isNone)
      (sorted.take b)).map (applyVerdicts verdicts)
    rw [List.map_append, hkept] at hsplit
    have hwhole : (sorted.map (applyVerdicts verdicts)).Perm (rows.map (applyVerdicts verdicts)) :=
      hperm.map _
    rw [← List.take_append_drop b sorted, List.map_append, hrest] at hwhole
    refine List.Perm.trans ?_ hwhole
    rw [List.append_assoc]
    refine List.Perm.trans (List.perm_append_comm.append_left _) ?_
    rw [← List.append_assoc]
    refine List.Perm.append_right _ ?_
    exact ((orderBy_perm _ _).append_left _).trans hsplit

/-- Of the shards of a batch, only stuck ones stay in front. -/
theorem turn_runOneBatch (hkey : (rows.map (·.key)).Nodup)
    (hid : (rows.map (·.id)).Nodup)
    (hforward : ∀ idx, ∀ s ∈ rows, ∀ verifiedAt, s.lastVerifiedAt = some verifiedAt →
      verifiedAt < clock idx) {mayStay : ShardKey → Bool}
    (hstuck : ∀ s ∈ rows, isStuck C answers s = true → mayStay s.key = true) :
    Turn b mayStay (queue rows) (queue (runOneBatch C answers b modulus clock rows).2) := by
  have hbatch : getNextShardsForScrub b rows = (orderBy scrubOrder rows).take b := by
    rw [getNextShardsForScrub, limit, if_neg (by omega), Int.toNat_natCast]
  have hnodup : (((orderBy scrubOrder rows).take b).map (·.key)).Nodup :=
    (((orderBy_perm _ _).map _).nodup_iff.mpr hkey).sublist ((List.take_sublist _ _).map _)
  obtain ⟨verdicts, hrows, hverdicts⟩ := exists_verdicts (C := C) answers modulus clock 0 _ rows
    hnodup
  have hrun : (runOneBatch C answers b modulus clock rows).2 =
      rows.map (applyVerdicts verdicts) := by
    rw [← hrows, ← hbatch]
    rfl
  refine ⟨fun key => (verdicts key).isNone, (orderBy scrubOrder
    ((((orderBy scrubOrder rows).take b).filter fun s => !(verdicts s.key).isNone).map
      (applyVerdicts verdicts))).map (·.key), ?_, ?_, ?_⟩
  · rw [hrun, queue, orderBy_applyVerdicts hkey hid hforward hverdicts, List.map_append,
      List.map_append, queue, ← List.map_take, ← List.map_drop, List.filter_map]
    rfl
  · refine ((orderBy_perm _ _).map _).trans ?_
    rw [List.map_map, queue, ← List.map_take, List.filter_map]
    have hsame : ((·.key) ∘ applyVerdicts verdicts : ScrubShardRecord → ShardKey) = (·.key) :=
      funext fun s => key_applyVerdicts verdicts s
    rw [hsame]
    exact .refl _
  · intro key hmem hnone
    rw [queue, ← List.map_take] at hmem
    obtain ⟨s, hs, rfl⟩ := List.mem_map.mp hmem
    exact hstuck s ((mem_orderBy _ _ s).mp (List.mem_of_mem_take hs))
      (hverdicts.stuck s hs (by simpa using hnone))

/-- A batch changes only what checks write. -/
theorem bare_runOneBatch (hkey : (rows.map (·.key)).Nodup) :
    (runOneBatch C answers b modulus clock rows).2.map bare = rows.map bare := by
  have hnodup : ((getNextShardsForScrub b rows).map (·.key)).Nodup := by
    rw [getNextShardsForScrub, limit, if_neg (by omega)]
    exact (((orderBy_perm _ _).map _).nodup_iff.mpr hkey).sublist ((List.take_sublist _ _).map _)
  obtain ⟨verdicts, hrows, -⟩ := exists_verdicts (C := C) answers modulus clock 0 _ rows hnodup
  rw [runOneBatch]
  dsimp only
  rw [hrows, List.map_map]
  exact List.map_congr_left fun s _ => bare_applyVerdicts verdicts s

end Turns

/-! ## Windows -/

section Windows

variable {answers : ShardKey → ScrubAnswers} {b : ℕ} {table : ScrubTable}

/-- Where the rows are those of the table but for what checks write, the keys are the same. -/
theorem keys_of_same {rows : List ScrubShardRecord} (h : rows.map bare = table.rows.map bare) :
    rows.map (·.key) = table.rows.map (·.key) ∧ rows.map (·.id) = table.rows.map (·.id) := by
  have hkey := congrArg (List.map (·.key)) h
  have hid := congrArg (List.map (·.id)) h
  rw [List.map_map, List.map_map] at hkey hid
  exact ⟨hkey, hid⟩

/-- So are the shards that are stuck. -/
theorem isStuck_bare (s : ScrubShardRecord) : isStuck C answers (bare s) = isStuck C answers s := rfl

/-- The keys of the stuck shards. -/
def stuckKeys (C : ChunkPrimitives P) (answers : ShardKey → ScrubAnswers) (table : ScrubTable) :
    List ShardKey :=
  (table.rows.filter (isStuck C answers)).map (·.key)

theorem mem_stuckKeys_of_same {rows : List ScrubShardRecord}
    (h : rows.map bare = table.rows.map bare) {s : ScrubShardRecord} (hs : s ∈ rows) :
    s.key ∈ stuckKeys C answers table ↔ isStuck C answers s = true := by
  have hmem : bare s ∈ table.rows.map bare := h ▸ List.mem_map_of_mem hs
  obtain ⟨t, ht, hbare⟩ := List.mem_map.mp hmem
  have hstuck : isStuck C answers t = isStuck C answers s := by
    rw [← isStuck_bare, hbare, isStuck_bare]
  have hkey : (bare t).key = (bare s).key := congrArg ScrubShardRecord.key hbare
  change t.key = s.key at hkey
  rw [stuckKeys, List.mem_map]
  constructor
  · rintro ⟨u, hu, hukey⟩
    obtain ⟨humem, hustuck⟩ := List.mem_filter.mp hu
    obtain rfl := List.inj_on_of_nodup_map table.key_nodup humem ht (hukey.trans hkey.symm)
    exact hstuck ▸ hustuck
  · intro hs
    exact ⟨t, List.mem_filter.mpr ⟨ht, hstuck.trans hs⟩, hkey⟩

theorem Window.same_tables (w : Window C answers b table) (t : ℕ) :
    (w.tables t).map bare = table.rows.map bare := by
  induction t with
  | zero => exact w.same
  | succ t ih =>
    rw [← ih]
    exact bare_runOneBatch ((keys_of_same ih).1 ▸ table.key_nodup)

theorem Window.attempted_eq (w : Window C answers b table) (t : ℕ) :
    w.attempted t = (queue (w.tables t)).take b := by
  rw [Window.attempted, getNextShardsForScrub, limit, if_neg (by omega), Int.toNat_natCast,
    List.map_take]
  rfl

/-- Where there is room enough, the calls get through. -/
theorem fair_of_hasRoom (hb : 1 ≤ b) (h : HasRoom C answers b table) : Fair C answers b table := by
  intro w s hs
  have hkeys := fun t => keys_of_same (w.same_tables t)
  have hturns : ∀ t, Turn b (fun key => decide (key ∈ stuckKeys C answers table))
      (queue (w.tables t)) (queue (w.tables (t + 1))) := by
    intro t
    apply turn_runOneBatch ((hkeys t).1 ▸ table.key_nodup) ((hkeys t).2 ▸ table.id_nodup)
      (w.forward t)
    intro r hr hstuck
    exact decide_eq_true ((mem_stuckKeys_of_same (w.same_tables t) hr).mpr hstuck)
  have hperm : (queue (w.tables 0)).Perm (table.rows.map (·.key)) := by
    rw [← (hkeys 0).1]
    exact queue_perm _
  have hlength : (queue (w.tables 0)).length = table.rows.length := by
    rw [hperm.length_eq, List.length_map]
  have hcount : (queue (w.tables 0)).countP (fun key => decide (key ∈ stuckKeys C answers table)) =
      table.rows.countP (isStuck C answers) := by
    rw [hperm.countP_eq, List.countP_map]
    apply List.countP_congr
    intro r hr
    rw [Function.comp_apply, decide_eq_true_eq]
    exact mem_stuckKeys_of_same rfl hr
  have hpos : 0 < callsFor b table.rows.length := by
    have hn := List.length_pos_of_mem hs
    exact Nat.div_pos (by omega) hb
  obtain ⟨n, hn⟩ := Nat.exists_eq_succ_of_ne_zero hpos.ne'
  have hserved := served_of_length_le (fun t => queue (w.tables t)) n
    (hperm.nodup_iff.mpr table.key_nodup) (fun t _ => hturns t) (by
      rw [hlength, hcount]
      rw [HasRoom, hn, Nat.succ_sub_one] at h
      exact h)
  obtain ⟨t, ht, hmem⟩ := mem_served.mp (hserved s.key
    (hperm.mem_iff.mpr (List.mem_map_of_mem hs)))
  rw [hn]
  exact ⟨t, ht, by rw [w.attempted_eq]; exact hmem⟩

/-! ## A window that keeps the stuck shards in front -/

/-- The stuck shards have never been verified, and the others have been by a time. -/
def Behind (C : ChunkPrimitives P) (answers : ShardKey → ScrubAnswers) (now : ℤ)
    (rows : List ScrubShardRecord) : Prop :=
  ∀ s ∈ rows, if isStuck C answers s then s.lastVerifiedAt = none
    else ∃ verifiedAt, s.lastVerifiedAt = some verifiedAt ∧ verifiedAt ≤ now

theorem Behind.lt {now : ℤ} {rows : List ScrubShardRecord} (h : Behind C answers now rows)
    {s : ScrubShardRecord} (hs : s ∈ rows) {verifiedAt : ℤ}
    (hat : s.lastVerifiedAt = some verifiedAt) : verifiedAt < now + 1 := by
  have hrow := h s hs
  split at hrow
  · rw [hat] at hrow
    cases hrow
  · obtain ⟨v, hv, hle⟩ := hrow
    rw [hat] at hv
    obtain rfl := Option.some.inj hv
    omega

/-- A batch whose checks are all deep verifies none of the stuck shards. -/
theorem behind_runOneBatch {now : ℤ} {rows : List ScrubShardRecord}
    (hkey : (rows.map (·.key)).Nodup) (h : Behind C answers now rows) :
    Behind C answers (now + 1) (runOneBatch C answers b 1 (fun _ => now + 1) rows).2 ∧
      (runOneBatch C answers b 1 (fun _ => now + 1) rows).2.filter (isStuck C answers) =
        rows.filter (isStuck C answers) := by
  have hsub : ∀ s ∈ getNextShardsForScrub b rows, s ∈ rows := fun s hs =>
    (mem_orderBy scrubOrder rows s).mp (mem_of_mem_limit hs)
  have hnodup : ((getNextShardsForScrub b rows).map (·.key)).Nodup := by
    rw [getNextShardsForScrub, limit, if_neg (by omega)]
    exact (((orderBy_perm _ _).map _).nodup_iff.mpr hkey).sublist ((List.take_sublist _ _).map _)
  obtain ⟨verdicts, hrows, hverdicts⟩ := exists_verdicts (C := C) answers 1 (fun _ => now + 1) 0
    (getNextShardsForScrub b rows) rows hnodup
  have hkept : ∀ s ∈ rows, isStuck C answers s = true → verdicts s.key = none := by
    intro s hs hstuck
    rw [Option.eq_none_iff_forall_ne_some]
    rintro ⟨v, time⟩ hverdict
    obtain ⟨r, hr, hrkey⟩ := List.mem_map.mp (hverdicts.mem _ _ _ hverdict).1
    obtain rfl := List.inj_on_of_nodup_map hkey (hsub r hr) hs hrkey
    obtain ⟨idx, hdeep⟩ := hverdicts.written r hr (by rw [hverdict]; rfl)
    have hshould : shouldDeepVerifyWith r idx 1 = true := by
      simp [shouldDeepVerifyWith, Nat.mod_one]
    rw [hshould] at hdeep
    rw [isStuck, Option.isNone_iff_eq_none] at hstuck
    rw [hstuck] at hdeep
    cases hdeep
  have hrun : (runOneBatch C answers b 1 (fun _ => now + 1) rows).2 =
      rows.map (applyVerdicts verdicts) := hrows
  rw [hrun]
  have hsame : ∀ s, isStuck C answers (applyVerdicts verdicts s) = isStuck C answers s := by
    intro s
    rw [← isStuck_bare, bare_applyVerdicts, isStuck_bare]
  constructor
  · intro r hr
    obtain ⟨s, hs, rfl⟩ := List.mem_map.mp hr
    have hrow := h s hs
    rw [hsame]
    split
    · rename_i hstuck
      rw [if_pos hstuck] at hrow
      rw [applyVerdicts, hkept s hs hstuck]
      exact hrow
    · rename_i hstuck
      rw [if_neg hstuck] at hrow
      obtain ⟨verifiedAt, hat, hle⟩ := hrow
      cases hverdict : verdicts s.key with
      | none =>
        rw [applyVerdicts, hverdict]
        exact ⟨verifiedAt, hat, by omega⟩
      | some pair =>
        obtain ⟨v, time⟩ := pair
        obtain ⟨-, idx, rfl⟩ := hverdicts.mem _ _ _ hverdict
        rw [applyVerdicts, hverdict]
        exact ⟨now + 1, rfl, le_rfl⟩
  · rw [List.filter_map]
    have hfilter : rows.filter (isStuck C answers ∘ applyVerdicts verdicts) =
        rows.filter (isStuck C answers) := List.filter_congr fun s _ => hsame s
    rw [hfilter]
    exact map_applyVerdicts_of_none fun s hs =>
      hkept s (List.mem_of_mem_filter hs) (List.mem_filter.mp hs).2

/-- The stuck shards come first. -/
theorem queue_of_behind {now : ℤ} {rows : List ScrubShardRecord} (hid : (rows.map (·.id)).Nodup)
    (h : Behind C answers now rows) :
    queue (rows.filter (isStuck C answers)) <+: queue rows := by
  have horder : orderBy scrubOrder rows = orderBy scrubOrder (rows.filter (isStuck C answers)) ++
      orderBy scrubOrder (rows.filter fun s => !isStuck C answers s) := by
    apply orderBy_eq_of_perm (nodup_scrubOrder hid)
    · rw [List.pairwise_append]
      refine ⟨pairwise_orderBy _ _, pairwise_orderBy _ _, ?_⟩
      intro s hs r hr
      rw [mem_orderBy, List.mem_filter] at hs hr
      have hfirst := h s hs.1
      rw [if_pos hs.2] at hfirst
      have hlast := h r hr.1
      rw [if_neg (by simpa using hr.2)] at hlast
      obtain ⟨verifiedAt, hat, -⟩ := hlast
      rw [scrubOrder, scrubOrder, hfirst, hat]
      exact Prod.Lex.toLex_le_toLex.mpr (.inl Nat.zero_lt_one)
    · exact ((orderBy_perm _ _).append (orderBy_perm _ _)).trans (List.filter_append_perm _ _)
  rw [queue, queue, horder, List.map_append]
  exact List.prefix_append _ _

/-- The shards that have a verdict have it from the start, the stuck ones have none. -/
def stamped (C : ChunkPrimitives P) (answers : ShardKey → ScrubAnswers)
    (s : ScrubShardRecord) : ScrubShardRecord :=
  if isStuck C answers s then { s with lastVerifiedAt := none }
  else { s with lastVerifiedAt := some 0 }

theorem bare_stamped (s : ScrubShardRecord) : bare (stamped C answers s) = bare s := by
  unfold stamped
  split <;> rfl

theorem key_stamped (s : ScrubShardRecord) : (stamped C answers s).key = s.key := by
  unfold stamped
  split <;> rfl

theorem isStuck_stamped (s : ScrubShardRecord) :
    isStuck C answers (stamped C answers s) = isStuck C answers s := by
  rw [← isStuck_bare, bare_stamped, isStuck_bare]

theorem behind_stamped (rows : List ScrubShardRecord) :
    Behind C answers 0 (rows.map (stamped C answers)) := by
  intro r hr
  obtain ⟨s, -, rfl⟩ := List.mem_map.mp hr
  rw [isStuck_stamped]
  split
  · rename_i hstuck
    rw [stamped, if_pos hstuck]
  · rename_i hstuck
    rw [stamped, if_neg hstuck]
    exact ⟨0, rfl, le_rfl⟩

/-- All checks are deep, and each batch has one time. -/
theorem behind_tables (C : ChunkPrimitives P) (answers : ShardKey → ScrubAnswers) (b : ℕ)
    {start : List ScrubShardRecord} (hkey : (start.map (·.key)).Nodup)
    (hbehind : Behind C answers 0 start) (t : ℕ) :
    Behind C answers t (tables C answers b (fun _ => 1) (fun t _ => t + 1) start t) ∧
      (tables C answers b (fun _ => 1) (fun t _ => t + 1) start t).filter (isStuck C answers) =
        start.filter (isStuck C answers) ∧
      (tables C answers b (fun _ => 1) (fun t _ => t + 1) start t).map bare = start.map bare := by
  induction t with
  | zero => exact ⟨hbehind, rfl, rfl⟩
  | succ t ih =>
    obtain ⟨hnow, hfilter, hbare⟩ := ih
    have hkeys : ((tables C answers b (fun _ => 1) (fun t _ => t + 1) start t).map (·.key)).Nodup := by
      have hsame := congrArg (List.map (·.key)) hbare
      rw [List.map_map, List.map_map] at hsame
      change _ = start.map (·.key) at hsame
      exact hsame ▸ hkey
    obtain ⟨hnext, hfilter'⟩ := behind_runOneBatch (b := b) hkeys hnow
    refine ⟨?_, hfilter'.trans hfilter, (bare_runOneBatch hkeys).trans hbare⟩
    rw [Int.natCast_succ]
    exact hnext

/-- The window in which all checks are deep. -/
def deepWindow (C : ChunkPrimitives P) (answers : ShardKey → ScrubAnswers) (b : ℕ)
    (table : ScrubTable) : Window C answers b table where
  start := table.rows.map (stamped C answers)
  same := by
    rw [List.map_map]
    exact List.map_congr_left fun s _ => bare_stamped s
  deepVerifyModulus := 1
  modulus_pos := Nat.one_pos
  packCount := fun _ => 100
  clock := fun t _ => t + 1
  forward := by
    intro t idx s hs verifiedAt hat
    have hkey : ((table.rows.map (stamped C answers)).map (·.key)).Nodup := by
      rw [List.map_map]
      have hsame : ((·.key) ∘ stamped C answers : ScrubShardRecord → ShardKey) = (·.key) :=
        funext fun s => key_stamped s
      rw [hsame]
      exact table.key_nodup
    exact (behind_tables C answers b hkey (behind_stamped table.rows) t).1.lt hs hat

/-- Where the calls get through that window, there was room enough. -/
theorem hasRoom_of_fair (hb : 1 ≤ b) (h : Fair C answers b table) : HasRoom C answers b table := by
  have hkeys := fun t => keys_of_same ((deepWindow C answers b table).same_tables t)
  have hbehind := behind_tables C answers b ((hkeys 0).1 ▸ table.key_nodup)
    (behind_stamped table.rows)
  have hperm : (queue ((deepWindow C answers b table).tables 0)).Perm (table.rows.map (·.key)) := by
    rw [← (hkeys 0).1]
    exact queue_perm _
  have hlength : (queue ((deepWindow C answers b table).tables 0)).length = table.rows.length := by
    rw [hperm.length_eq, List.length_map]
  have hfront : (queue (((deepWindow C answers b table).tables 0).filter
      (isStuck C answers))).length = table.rows.countP (isStuck C answers) := by
    rw [(queue_perm _).length_eq, List.length_map, ← List.countP_eq_length_filter]
    change List.countP _ (table.rows.map (stamped C answers)) = _
    rw [List.countP_map]
    exact List.countP_congr fun s _ => by rw [Function.comp_apply, isStuck_stamped]
  have hle := length_le_of_front (fun t => queue ((deepWindow C answers b table).tables t))
    (queue (((deepWindow C answers b table).tables 0).filter (isStuck C answers)))
    (callsFor b table.rows.length) (hperm.nodup_iff.mpr table.key_nodup)
    (by
      intro t _
      have hinitial := queue_of_behind ((hkeys t).2 ▸ table.id_nodup) (hbehind t).1
      rw [(hbehind t).2.1] at hinitial
      exact hinitial)
    (by
      intro key hkey
      obtain ⟨s, hs, rfl⟩ := List.mem_map.mp (hperm.mem_iff.mp hkey)
      obtain ⟨t, ht, hattempted⟩ := h (deepWindow C answers b table) s hs
      rw [Window.attempted_eq] at hattempted
      exact mem_served.mpr ⟨t, ht, hattempted⟩)
  rw [hlength, hfront] at hle
  rw [HasRoom]
  rcases Nat.eq_zero_or_pos table.rows.length with hzero | hpos
  · omega
  · have hcalls : 0 < callsFor b table.rows.length := Nat.div_pos (by omega) hb
    obtain ⟨n, hn⟩ := Nat.exists_eq_succ_of_ne_zero hcalls.ne'
    rw [hn, Nat.succ_sub_one]
    rw [hn, Nat.succ_mul] at hle
    omega

/-- Any so many consecutive calls attempt every shard just if there is room enough beside the shards
whose checks write nothing. -/
theorem fair_iff (answers : ShardKey → ScrubAnswers) (hb : 1 ≤ b) (table : ScrubTable) :
    Fair C answers b table ↔ HasRoom C answers b table := by
  constructor
  · intro h
    exact hasRoom_of_fair hb h
  · intro h
    exact fair_of_hasRoom hb h

end Windows

/-- A shard of the pack `"p"` at a provider. -/
def shardAt (shardIndex : ℤ) (provider : String) : ScrubShardRecord where
  packId := "p"
  shardIndex := shardIndex
  shardRole := .data
  provider := provider
  objectKey := ⟨"p", shardIndex.toNat⟩
  size := 0
  checksum := ""
  status := .completed
  id := shardIndex

/-- Two shards, of which the provider of the first is not configured. -/
def twoShards : ScrubTable where
  rows := [shardAt 0 "a", shardAt 1 "b"]
  key_nodup := by decide
  id_nodup := by decide

def firstNotConfigured (key : ShardKey) : ScrubAnswers where
  configured := decide (key ≠ ("p", 0))
  headAllowed := true
  head := .found (some 0)
  getAllowed := true
  get := .body []

/-- Two at a time, both are attempted. -/
theorem fair_iff_twoShards : Fair symbolicChunks firstNotConfigured 2 twoShards :=
  (fair_iff firstNotConfigured (by decide) twoShards).mpr (by rw [HasRoom]; decide)

/-- One at a time, the second is never attempted. -/
theorem twoShards_not_fair : ¬ Fair symbolicChunks firstNotConfigured 1 twoShards := by
  intro h
  have hroom := hasRoom_of_fair (by decide) h
  rw [HasRoom] at hroom
  revert hroom
  decide

end Scrubber

end OmniDrive
