import OmniDrive.Crypto.SymbolicChunks
import OmniDrive.Library.Slots
import OmniDrive.Storage.RoundTrip

/-!
# Reads of a sharded pack

A pack in three shards is read from the first two that are answered, the fastest first. Their
checksums are not looked at, and what they give is kept in the spool for all later reads. So a read
succeeds as long as the first two answers are right, and one pair of wrong ones spoils the pack.
-/

namespace OmniDrive

open StatementProgram Tables ByteFields Packer Downloader Slots

variable {P : Primitives} {C : ChunkPrimitives P}

/-- What wrong bytes lead to: decryption accepts a ciphertext only if encryption makes it, and any
two shards of one length belong to two data shards of that length. -/
structure ChunkPrimitives.Exact (C : ChunkPrimitives P) : Prop where
  gcmEncrypt_of_gcmDecrypt : ∀ {k n aad ciphertext tag m},
    C.gcmDecrypt k n aad ciphertext tag = some m → C.gcmEncrypt k n aad m = (ciphertext, tag)
  exists_codeword : ∀ {len : ℕ} {slots : List (Option Bytes)}, slots.length = totalShards →
    slots.countP Option.isSome = dataShards → (∀ b, some b ∈ slots → b.length = len) →
    ∃ x y : Bytes, x.length = len ∧ y.length = len ∧ SlotsHold [x, y, C.rsEncode x y] slots

/-! ## The answers of the providers -/

/-- The bytes that a provider answers with. -/
def answer (net : Network) (objects : String → ObjectKey → Option Bytes) (s : PackShardRecord) :
    Option Bytes :=
  if net.delivers s.provider s.objectKey then objects s.provider s.objectKey else none

/-- The answers to the requests for these shards, with the numbers of the shards. -/
def answered (net : Network) (objects : String → ObjectKey → Option Bytes)
    (shards : List PackShardRecord) : List (ℕ × Bytes) :=
  shards.filterMap fun s => (answer net objects s).map fun b => (s.shardIndex.toNat, b)

section Fetch

variable {net : Network} {w : FileWorld P} {ε : Type}

theorem run_downloadShard_eq (s : PackShardRecord) :
    (downloadShard net s : FileProg P ε _).run w =
      (.ok ((answer net w.objects s).elim (.error (net.message s.provider s.objectKey)) .ok), w) := by
  rw [downloadShard, Prog.run_query_bind, answer]
  rcases hobject : w.objects s.provider s.objectKey with _ | bytes
  · simp
  · by_cases hdelivers : net.delivers s.provider s.objectKey = true
    · simp [hdelivers]
    · simp [hdelivers]

/-- The loop fills the empty slots from the first answers, as many as are required. -/
theorem run_fetchShards_fill {required : ℕ} {rest : List PackShardRecord}
    (hnodup : (rest.map (·.shardIndex)).Nodup) {fetched : FetchedShards}
    (hfree : ∀ s ∈ rest, ∃ i : ℕ, s.shardIndex = i ∧ fetched.slots[i]? = some none)
    (hmore : fetched.slots.countP Option.isSome < required) : ∃ fetched',
      (fetchShards net required fetched rest).run w = (.ok fetched', w) ∧
        fetched'.slots = fill fetched.slots ((answered net w.objects rest).take
          (required - fetched.slots.countP Option.isSome)) := by
  induction rest generalizing fetched with
  | nil => exact ⟨fetched, rfl, by simp [answered]⟩
  | cons shard rest ih =>
    rw [List.map_cons, List.nodup_cons] at hnodup
    obtain ⟨i, hindex, hempty⟩ := hfree shard List.mem_cons_self
    have hlt : i < fetched.slots.length := (List.getElem?_eq_some_iff.mp hempty).1
    have hskip : ¬ (fetched.slots.length ≤ i ∨ (fetched.slots.getD i none).isSome = true) := by
      rw [List.getD_eq_getElem?_getD, hempty]
      simp [hlt]
    have hanswer : (downloadShard net shard : FileProg P DownloaderError _).run w = (.ok
        ((answer net w.objects shard).elim
          (.error (net.message shard.provider shard.objectKey)) .ok), w) :=
      run_downloadShard_eq shard
    rw [fetchShards, hindex, toUsize_natCast, Prog.ofExcept_ok, Prog.ret_bind, if_neg hskip,
      Prog.run_bind_of_ok hanswer]
    have hrest : ∀ s ∈ rest, ∃ j : ℕ, s.shardIndex = j ∧ j ≠ i ∧ fetched.slots[j]? = some none := by
      intro s hs
      obtain ⟨j, hj, hfreej⟩ := hfree s (List.mem_cons_of_mem _ hs)
      refine ⟨j, hj, ?_, hfreej⟩
      rintro rfl
      apply hnodup.1
      rw [hindex, ← hj]
      exact List.mem_map_of_mem hs
    rcases hbytes : answer net w.objects shard with _ | bytes
    · have hsame : answered net w.objects (shard :: rest) = answered net w.objects rest := by
        simp [answered, hbytes]
      have hfree' : ∀ s ∈ rest, ∃ j : ℕ, s.shardIndex = j ∧
          (fetched.addError shard (net.message shard.provider shard.objectKey)).slots[j]? =
            some none := by
        intro s hs
        obtain ⟨j, hj, _, hfreej⟩ := hrest s hs
        exact ⟨j, hj, hfreej⟩
      rw [hsame]
      exact ih hnodup.2 hfree' hmore
    · have hcons : answered net w.objects (shard :: rest) =
          (i, bytes) :: answered net w.objects rest := by
        simp [answered, hbytes, hindex]
      have hcount : (fetched.add shard i bytes).slots.countP Option.isSome =
          fetched.slots.countP Option.isSome + 1 := countP_set_of_empty hempty bytes
      rw [hcons]
      dsimp only [Option.elim]
      by_cases henough : required ≤ (fetched.add shard i bytes).slots.countP Option.isSome
      · rw [if_pos henough]
        have hone : required - fetched.slots.countP Option.isSome = 1 := by omega
        refine ⟨_, rfl, ?_⟩
        rw [hone, List.take_succ_cons, List.take_zero]
        rfl
      · rw [if_neg henough]
        have hfree' : ∀ s ∈ rest, ∃ j : ℕ, s.shardIndex = j ∧
            (fetched.add shard i bytes).slots[j]? = some none := by
          intro s hs
          obtain ⟨j, hj, hne, hfreej⟩ := hrest s hs
          exact ⟨j, hj, (List.getElem?_set_ne hne.symm).trans hfreej⟩
        obtain ⟨final, hrun, hslots⟩ := ih hnodup.2 hfree' (by omega)
        refine ⟨final, hrun, ?_⟩
        have htake : required - fetched.slots.countP Option.isSome =
            required - (fetched.add shard i bytes).slots.countP Option.isSome + 1 := by omega
        rw [hslots, htake, List.take_succ_cons]
        rfl

end Fetch

/-! ## Attempts -/

/-- What the network and the objects are like when a pack is read, and the statuses of its
shards. -/
structure Attempt where
  net : Network
  objects : String → ObjectKey → Option Bytes
  status : ℤ → ShardStatus

namespace Attempt

/-- The row of a shard with its status. -/
def withStatus (a : Attempt) (s : PackShardRecord) : PackShardRecord :=
  { s with status := a.status s.shardIndex }

/-- The world at the time of the attempt. -/
def before (a : Attempt) (packId : String) (w : FileWorld P) : FileWorld P :=
  { w with
    objects := a.objects
    db := { w.db with
      packShards := updateWhere (·.packId = packId) a.withStatus w.db.packShards } }

variable (C) (c : StoredChunk) (a : Attempt)

/-- The shards of the pack as they were registered, with their statuses. -/
def rows : List PackShardRecord := (c.shardRecords C).map a.withStatus

/-- The answers in the order of the requests, by latency and then by status. -/
def answers : List (ℕ × Bytes) := answered a.net a.objects (candidates a.net (a.rows C c))

/-- The provider of the shard returns bytes with the registered checksum. -/
def good (s : PackShardRecord) : Bool :=
  a.net.configured s.provider && (answer a.net a.objects s).any fun b => C.sha256Hex b = s.checksum

/-- At least two providers do. -/
def TwoGood : Prop := 2 ≤ (c.shardRecords C).countP (a.good C)

/-- All shards have been repaired. -/
def AllGood : Prop := ∀ s ∈ c.shardRecords C, a.good C s = true

/-- The length of a shard of the chunk. -/
def shardLength : ℕ := shardLen (c.encrypted C).ciphertext

/-- The first two answers are shards of the ciphertext, whatever bytes fill it up. -/
def Served : Prop :=
  2 ≤ (a.answers C c).length ∧ ∃ x y : Bytes, x.length = shardLength C c ∧
    y.length = shardLength C c ∧
    (x ++ y).take (c.encrypted C).ciphertext.length = (c.encrypted C).ciphertext ∧
    ∀ p ∈ (a.answers C c).take 2, [x, y, C.rsEncode x y][p.1]? = some p.2

/-- There are no two answers, or one of the first two has a wrong length and there are no two
good shards. -/
def Fails : Prop :=
  (a.answers C c).length < 2 ∨
    ¬ a.TwoGood C c ∧ ∃ p ∈ (a.answers C c).take 2, p.2.length ≠ shardLength C c

/-- Download the pack of the chunk and decrypt its record. -/
def read (vaultKey : P.Key) (w : FileWorld P) : Except DownloaderError Bytes × FileWorld P :=
  (do
    let source ← downloadPack C a.net (c.packId C)
    let packBytes ← readSpoolFile source.localPath
    Prog.ofExcept (decryptChunkRecord C packBytes (c.locationAt C 0 0) vaultKey
      (some (P.randomKey c.keyDraw)))).run (a.before (c.packId C) w)

end Attempt

/-- The world after the attempts. -/
def afterAttempts (C : ChunkPrimitives P) (c : StoredChunk) (vaultKey : P.Key) (w : FileWorld P)
    (attempts : List Attempt) : FileWorld P :=
  attempts.foldl (fun w a => (a.read C c vaultKey w).2) w

/-- Every attempt with two good shards reads the plaintext, and so does every attempt once the
shards have been repaired. -/
def ReadableThroughout (C : ChunkPrimitives P) (c : StoredChunk) (vaultKey : P.Key)
    (w : FileWorld P) (attempts : List Attempt) : Prop :=
  (∀ front a, front ++ [a] <+: attempts → a.TwoGood C c →
    (a.read C c vaultKey (afterAttempts C c vaultKey w front)).1 = .ok c.plaintext) ∧
  ∀ a : Attempt, a.AllGood C c →
    (a.read C c vaultKey (afterAttempts C c vaultKey w attempts)).1 = .ok c.plaintext

/-- All attempts up to the first one that is served fail without a trace. -/
def Unspoiled (C : ChunkPrimitives P) (c : StoredChunk) : List Attempt → Prop
  | [] => True
  | a :: rest => a.Served C c ∨ (a.Fails C c ∧ Unspoiled C c rest)

/-- The tables have the rows of a chunk in a pack of three shards. -/
structure Sharded (C : ChunkPrimitives P) (c : StoredChunk) (w : FileWorld P) : Prop where
  mode : c.storageMode = .ec21
  pack : ∃ pack, Db.packOf (c.packId C) w.db = some pack ∧ pack.core = (c.record C).core
  shards : (Db.shardsOf (c.packId C) w.db).map PackShardRecord.core =
    (c.shardRecords C).map PackShardRecord.core
  fits : c.plaintext.length + 96 < 2 ^ 63

/-! ## The registered rows -/

section Rows

variable {c : StoredChunk} {w : FileWorld P} {a : Attempt}

/-- The file of a registered shard. -/
theorem shardRecord_cases (s : PackShardRecord) (hs : s ∈ c.shardRecords C) :
    ∃ (i : ℕ) (file : Bytes), (c.shardFiles C)[i]? = some file ∧ s.shardIndex = i ∧
      s.objectKey = ⟨c.packId C, i⟩ ∧ s.checksum = C.sha256Hex file := by
  obtain ⟨shard, hshard, rfl⟩ := List.mem_map.mp hs
  obtain ⟨i, hi⟩ := List.mem_iff_getElem?.mp hshard
  rw [StoredChunk.shards, getElem?_preparedShardsFrom, Nat.zero_add] at hi
  obtain ⟨file, hfile, rfl⟩ := Option.map_eq_some_iff.mp hi
  exact ⟨i, file, hfile, rfl, rfl, rfl⟩

theorem shardFiles_eq (hmode : c.storageMode = .ec21) :
    c.shardFiles C = splitCiphertextIntoShards C (c.encrypted C).ciphertext := by
  rw [StoredChunk.shardFiles, hmode, shardBytes]

/-- The shards of a pack are numbered from zero to two. -/
theorem map_shardIndex_shardRecords (hmode : c.storageMode = .ec21) :
    (c.shardRecords C).map (·.shardIndex) = [0, 1, 2] := by
  rw [StoredChunk.shardRecords, StoredChunk.shards, shardFiles_eq hmode]
  rfl

/-- A shard row without its log of uploads. -/
def PackShardRecord.quiet (s : PackShardRecord) : PackShardRecord :=
  { s with attempts := 0, lastError := none }

/-- The rows of the pack at an attempt have their statuses from it. -/
theorem shardsOf_before (a : Attempt) (packId : String) (w : FileWorld P) :
    Db.shardsOf packId (a.before packId w).db = (Db.shardsOf packId w.db).map a.withStatus := by
  have hfilter : (updateWhere (·.packId = packId) a.withStatus w.db.packShards).filter
      (·.packId = packId) = (w.db.packShards.filter (·.packId = packId)).map a.withStatus := by
    apply filter_updateWhere_self
    intro s
    rfl
  rw [Db.shardsOf, Db.shardsOf, Attempt.before, hfilter,
    map_orderBy PackShardRecord.shardIndex PackShardRecord.shardIndex a.withStatus fun _ => rfl]

/-- They are the registered rows, apart from the log of uploads. -/
theorem Sharded.map_quiet (h : Sharded C c w) (a : Attempt) :
    (Db.shardsOf (c.packId C) (a.before (c.packId C) w).db).map PackShardRecord.quiet =
      (a.rows C c).map PackShardRecord.quiet := by
  have hquiet : ∀ rows : List PackShardRecord, (rows.map a.withStatus).map PackShardRecord.quiet =
      (rows.map PackShardRecord.core).map a.withStatus := by
    intro rows
    rw [List.map_map, List.map_map]
    rfl
  rw [shardsOf_before, Attempt.rows, hquiet, hquiet, h.shards]

/-- What the requests are ordered by. -/
def requestKey (net : Network) (s : PackShardRecord) : Bool ×ₗ (ℕ ×ₗ ℕ) :=
  toLex ((net.latency s.provider s.objectKey).isNone,
    toLex ((net.latency s.provider s.objectKey).getD 0, if s.status = .completed then 0 else 1))

theorem candidates_eq (net : Network) (shards : List PackShardRecord) : candidates net shards =
    orderBy (requestKey net) (shards.filter fun s => net.configured s.provider) := rfl

/-- What the requests get does not depend on the log of uploads. -/
theorem answered_candidates_quiet (net : Network)
    (objects : String → ObjectKey → Option Bytes) (rows : List PackShardRecord) :
    answered net objects (candidates net (rows.map PackShardRecord.quiet)) =
      answered net objects (candidates net rows) := by
  have hcandidates : candidates net (rows.map PackShardRecord.quiet) =
      (candidates net rows).map PackShardRecord.quiet := by
    rw [candidates_eq, candidates_eq, List.filter_map]
    symm
    exact map_orderBy (requestKey net) (requestKey net) PackShardRecord.quiet (fun _ => rfl) _
  rw [hcandidates, answered, answered, List.filterMap_map]
  rfl

theorem Sharded.answered_eq (h : Sharded C c w) (a : Attempt) :
    answered a.net a.objects
      (candidates a.net (Db.shardsOf (c.packId C) (a.before (c.packId C) w).db)) =
      a.answers C c := by
  rw [← answered_candidates_quiet, h.map_quiet, answered_candidates_quiet, Attempt.answers]

/-- The candidates among three numbered shards have distinct numbers below three. -/
theorem candidates_index {rows : List PackShardRecord} (h : rows.map (·.shardIndex) = [0, 1, 2])
    (net : Network) : ((candidates net rows).map (·.shardIndex)).Nodup ∧
      ∀ s ∈ candidates net rows, ∃ i : ℕ, s.shardIndex = i ∧ i < totalShards := by
  constructor
  · rw [candidates_eq]
    apply ((orderBy_perm _ _).map _).nodup_iff.mpr
    apply List.Nodup.sublist (List.Sublist.map _ List.filter_sublist)
    rw [h]
    decide
  · intro s hs
    rw [candidates, mem_orderBy, List.mem_filter] at hs
    have hmem := List.mem_map_of_mem (f := (·.shardIndex)) hs.1
    rw [h] at hmem
    simp only [List.mem_cons, List.not_mem_nil, or_false] at hmem
    rcases hmem with h0 | h1 | h2
    · exact ⟨0, h0, by decide⟩
    · exact ⟨1, h1, by decide⟩
    · exact ⟨2, h2, by decide⟩

theorem Sharded.map_shardIndex (h : Sharded C c w) (a : Attempt) :
    (Db.shardsOf (c.packId C) (a.before (c.packId C) w).db).map (·.shardIndex) = [0, 1, 2] := by
  have hcore := congrArg (List.map (·.shardIndex)) h.shards
  rw [List.map_map, List.map_map] at hcore
  rw [shardsOf_before, List.map_map]
  exact hcore.trans (map_shardIndex_shardRecords h.mode)

theorem map_shardIndex_rows (hmode : c.storageMode = .ec21) (a : Attempt) :
    (a.rows C c).map (·.shardIndex) = [0, 1, 2] := by
  rw [Attempt.rows, List.map_map]
  exact map_shardIndex_shardRecords hmode

theorem mem_answered {net : Network} {objects : String → ObjectKey → Option Bytes}
    {shards : List PackShardRecord} {p : ℕ × Bytes} (hp : p ∈ answered net objects shards) :
    ∃ s ∈ shards, p.1 = s.shardIndex.toNat ∧ answer net objects s = some p.2 := by
  obtain ⟨s, hs, hmap⟩ := List.mem_filterMap.mp hp
  obtain ⟨b, hb, rfl⟩ := Option.map_eq_some_iff.mp hmap
  exact ⟨s, hs, rfl, hb⟩

/-- The answers have distinct numbers below three. -/
theorem answers_index (hmode : c.storageMode = .ec21) (a : Attempt) :
    ((a.answers C c).map Prod.fst).Nodup ∧ ∀ p ∈ a.answers C c, p.1 < totalShards := by
  obtain ⟨hnodup, hbound⟩ := candidates_index (map_shardIndex_rows (C := C) hmode a) a.net
  have hnumbers : ((candidates a.net (a.rows C c)).map fun s => s.shardIndex.toNat).Nodup := by
    apply List.Nodup.of_map (fun n : ℕ => (n : ℤ))
    rw [List.map_map]
    have hsame : (candidates a.net (a.rows C c)).map
        ((fun n : ℕ => (n : ℤ)) ∘ fun s => s.shardIndex.toNat) =
        (candidates a.net (a.rows C c)).map (·.shardIndex) := by
      apply List.map_congr_left
      intro s hs
      obtain ⟨i, hi, -⟩ := hbound s hs
      simp [hi]
    rw [hsame]
    exact hnodup
  constructor
  · have hsub : List.Sublist ((a.answers C c).map Prod.fst)
        ((candidates a.net (a.rows C c)).map fun s => s.shardIndex.toNat) := by
      rw [Attempt.answers, answered]
      clear hnodup hbound hnumbers
      induction candidates a.net (a.rows C c) with
      | nil => exact List.Sublist.refl _
      | cons s rest ih =>
        cases hb : answer a.net a.objects s with
        | none =>
          simp only [List.filterMap_cons, hb, Option.map_none, List.map_cons]
          exact ih.cons _
        | some b =>
          simp only [List.filterMap_cons, hb, Option.map_some, List.map_cons]
          exact ih.cons_cons _
    exact hnumbers.sublist hsub
  · intro p hp
    obtain ⟨s, hs, hindex, -⟩ := mem_answered hp
    obtain ⟨i, hi, hlt⟩ := hbound s hs
    rw [hindex, hi, Int.toNat_natCast]
    exact hlt

/-- There is an answer for every registered shard whose configured provider gives one. -/
theorem length_answers (a : Attempt) : (a.answers C c).length = (c.shardRecords C).countP
    fun s => a.net.configured s.provider && (answer a.net a.objects s).isSome := by
  have hlength : ∀ shards : List PackShardRecord, (answered a.net a.objects shards).length =
      shards.countP fun s => (answer a.net a.objects s).isSome := by
    intro shards
    rw [answered, List.length_filterMap_eq_countP]
    simp only [Option.isSome_map]
  rw [Attempt.answers, hlength, candidates_eq, (orderBy_perm _ _).countP_eq, List.countP_filter,
    Attempt.rows, List.countP_map]
  apply List.countP_congr
  intro s _
  rw [Function.comp_apply, Bool.and_comm]
  rfl

/-- Two good shards are answered. -/
theorem Attempt.TwoGood.two_le (h : a.TwoGood C c) : 2 ≤ (a.answers C c).length := by
  rw [length_answers]
  refine Nat.le_trans h (List.countP_mono_left fun s _ hs => ?_)
  rw [Attempt.good, Bool.and_eq_true] at hs
  rw [Bool.and_eq_true]
  refine ⟨hs.1, ?_⟩
  cases hb : answer a.net a.objects s with
  | none =>
    rw [hb] at hs
    cases hs.2
  | some b => rfl

/-- A good answer is the file of its shard. -/
theorem file_of_good (ideal : C.Ideal) {s : PackShardRecord} (hs : s ∈ c.shardRecords C)
    (hgood : a.good C s = true) {b : Bytes} (hb : answer a.net a.objects s = some b) :
    (c.shardFiles C)[s.shardIndex.toNat]? = some b := by
  obtain ⟨i, file, hfile, hindex, -, hchecksum⟩ := shardRecord_cases s hs
  rw [Attempt.good, Bool.and_eq_true, hb, Option.any_some, decide_eq_true_eq, hchecksum] at hgood
  rw [hindex, Int.toNat_natCast, hfile, ideal.sha256Hex_inj hgood.2]

/-- Repaired shards are answered with their files. -/
theorem Attempt.AllGood.served (ideal : C.Ideal) (hmode : c.storageMode = .ec21)
    (h : a.AllGood C c) : a.Served C c := by
  have hanswers : ∀ p ∈ a.answers C c, (c.shardFiles C)[p.1]? = some p.2 := by
    intro p hp
    obtain ⟨s, hs, hindex, hb⟩ := mem_answered hp
    rw [candidates, mem_orderBy, List.mem_filter] at hs
    obtain ⟨s₀, hs₀, rfl⟩ := List.mem_map.mp hs.1
    rw [hindex]
    exact file_of_good ideal hs₀ (h s₀ hs₀) hb
  have htwo : a.TwoGood C c := by
    have hall : (c.shardRecords C).countP (a.good C) = (c.shardRecords C).length :=
      List.countP_eq_length.mpr h
    have hlength := congrArg List.length (map_shardIndex_shardRecords (C := C) hmode)
    rw [List.length_map] at hlength
    rw [Attempt.TwoGood, hall, hlength]
    decide
  refine ⟨htwo.two_le, _, _, length_dataShard _ 0 (c.encrypted C).ciphertext,
    length_dataShard _ 1 (c.encrypted C).ciphertext,
    take_dataShards (length_le_two_shardLen _), fun p hp => ?_⟩
  have hfile := hanswers p (List.mem_of_mem_take hp)
  rw [shardFiles_eq hmode] at hfile
  exact hfile

end Rows

/-! ## The outcome of an attempt -/

section Outcome

variable {c : StoredChunk} {w : FileWorld P} {vaultKey : P.Key}

/-- The slots that an attempt reconstructs from. -/
def Attempt.slots (C : ChunkPrimitives P) (c : StoredChunk) (a : Attempt) : List (Option Bytes) :=
  fill (List.replicate totalShards none) ((a.answers C c).take 2)

/-- The world with a downloaded record of the chunk's pack. -/
def FileWorld.withRecord (C : ChunkPrimitives P) (c : StoredChunk) (w : FileWorld P)
    (record : Bytes) : FileWorld P :=
  { w with downloads := Function.update w.downloads (c.packId C) (some record) }

/-- The loop of an attempt ends with its slots. -/
theorem Sharded.run_fetchShards (h : Sharded C c w) (a : Attempt) : ∃ fetched,
    (fetchShards a.net 2 { slots := List.replicate totalShards none }
      (candidates a.net (Db.shardsOf (c.packId C) (a.before (c.packId C) w).db))).run
        (a.before (c.packId C) w) = (.ok fetched, a.before (c.packId C) w) ∧
      fetched.slots = a.slots C c := by
  obtain ⟨hnodup, hbound⟩ := candidates_index (h.map_shardIndex a) a.net
  have hfree : ∀ s ∈ candidates a.net (Db.shardsOf (c.packId C) (a.before (c.packId C) w).db),
      ∃ i : ℕ, s.shardIndex = i ∧
        ({ slots := List.replicate totalShards none } : FetchedShards).slots[i]? = some none := by
    intro s hs
    obtain ⟨i, hi, hlt⟩ := hbound s hs
    refine ⟨i, hi, ?_⟩
    rw [List.getElem?_replicate, if_pos hlt]
  obtain ⟨fetched, hrun, hslots⟩ := run_fetchShards_fill (w := a.before (c.packId C) w) hnodup hfree
    (by decide : _ < 2)
  refine ⟨fetched, hrun, ?_⟩
  rw [hslots]
  exact congrArg (fun answers => fill _ (List.take 2 answers)) (h.answered_eq a)

/-- As many slots are full as there are answers, up to two. -/
theorem Sharded.countP_slots (h : Sharded C c w) (a : Attempt) :
    (a.slots C c).countP Option.isSome = min 2 (a.answers C c).length := by
  obtain ⟨hnodup, hbound⟩ := answers_index (C := C) h.mode a
  have hsub : (((a.answers C c).take 2).map Prod.fst).Nodup :=
    hnodup.sublist ((List.take_sublist _ _).map _)
  rw [Attempt.slots, countP_fill hsub, List.length_take]
  · simp
  · intro p hp
    rw [List.getElem?_replicate, if_pos (hbound p (List.mem_of_mem_take hp))]

/-- A pack without a file in the spool is fetched from its providers. -/
theorem run_downloadPack_fresh (hnone : w.downloads (c.packId C) = none) (a : Attempt)
    {pack : PackRecord} (hpack : Db.packOf (c.packId C) w.db = some pack)
    (hmode : pack.storageMode = .ec21) :
    (downloadPack C a.net (c.packId C)).run (a.before (c.packId C) w) =
      (downloadRemotePack C a.net pack).run (a.before (c.packId C) w) := by
  have hsame : Db.packOf (c.packId C) (a.before (c.packId C) w).db = some pack := hpack
  have hfile : (a.before (c.packId C) w).downloads (c.packId C) = none := hnone
  rw [downloadPack, Db.getPack, run_selectFiles_bind, hsame, Prog.ofOption_some, Prog.ret_bind,
    hmode, if_neg (by decide), Prog.run_query_bind, hfile]
  rfl

/-- Without two answers, a fresh download fails and leaves nothing. -/
theorem Sharded.run_downloadPack_few (h : Sharded C c w) (hnone : w.downloads (c.packId C) = none)
    {a : Attempt} (hfew : (a.answers C c).length < 2) : ∃ e,
      (downloadPack C a.net (c.packId C)).run (a.before (c.packId C) w) =
        (.error e, a.before (c.packId C) w) := by
  obtain ⟨pack, hpack, hcore⟩ := h.pack
  have hmode : pack.storageMode = .ec21 := (congrArg (·.storageMode) hcore).trans h.mode
  have hid : pack.packId = c.packId C := congrArg (·.packId) hcore
  obtain ⟨fetched, hfetch, hslots⟩ := h.run_fetchShards a
  have hcount : fetched.slots.countP Option.isSome < requiredShards .ec21 := by
    rw [hslots, h.countP_slots]
    show min 2 _ < 2
    omega
  rw [run_downloadPack_fresh hnone a hpack hmode, downloadRemotePack, hid, Db.getPackShards,
    run_selectFiles_bind]
  split
  · exact ⟨_, rfl⟩
  · split
    · exact ⟨_, rfl⟩
    · rw [hmode]
      refine ⟨.shardDownloadFailed (c.packId C) fetched.errors,
        (Prog.run_bind_of_ok hfetch).trans ?_⟩
      rw [if_pos hcount]
      rfl

/-- With two answers, a fresh download goes by what they are reconstructed to. -/
theorem Sharded.run_downloadPack (h : Sharded C c w) (hnone : w.downloads (c.packId C) = none)
    {a : Attempt} (htwo : 2 ≤ (a.answers C c).length) {pack : PackRecord}
    (hpack : Db.packOf (c.packId C) w.db = some pack) (hcore : pack.core = (c.record C).core) :
    ∃ providers, (downloadPack C a.net (c.packId C)).run (a.before (c.packId C) w) =
      (do
        let ciphertext ← Prog.ofExcept (reconstructCiphertext C pack (a.slots C c))
        let record ← Prog.ofExcept (buildManifestBytes pack ciphertext)
        writeDownload (c.packId C) record
        pure ({ packId := c.packId C, providers, localPath := .download (c.packId C) } :
          RestoredPackSource)).run (a.before (c.packId C) w) := by
  have hmode : pack.storageMode = .ec21 := (congrArg (·.storageMode) hcore).trans h.mode
  have hid : pack.packId = c.packId C := congrArg (·.packId) hcore
  obtain ⟨fetched, hfetch, hslots⟩ := h.run_fetchShards a
  have hcount : ¬ fetched.slots.countP Option.isSome < requiredShards .ec21 := by
    rw [hslots, h.countP_slots]
    show ¬ min 2 _ < 2
    omega
  have hcandidates : candidates a.net
      (Db.shardsOf (c.packId C) (a.before (c.packId C) w).db) ≠ [] := by
    intro hnil
    rw [← h.answered_eq a, hnil] at htwo
    exact absurd htwo (Nat.not_le.mpr Nat.zero_lt_two)
  have hshards : Db.shardsOf (c.packId C) (a.before (c.packId C) w).db ≠ [] := by
    intro hnil
    rw [hnil] at hcandidates
    exact hcandidates rfl
  refine ⟨fetched.downloadedFrom, ?_⟩
  rw [run_downloadPack_fresh hnone a hpack hmode, downloadRemotePack, hid, Db.getPackShards,
    run_selectFiles_bind, if_neg (by rwa [List.isEmpty_iff]), if_neg (by rwa [List.isEmpty_iff]),
    hmode]
  refine (Prog.run_bind_of_ok hfetch).trans ?_
  rw [if_neg hcount, ciphertextOf, hmode, hslots]

/-- Two answers of the right length belong to two data shards. -/
theorem exists_codeword_of_lengths (exact : C.Exact) (h : Sharded C c w) {a : Attempt}
    (htwo : 2 ≤ (a.answers C c).length)
    (hlengths : ∀ p ∈ (a.answers C c).take 2, p.2.length = Attempt.shardLength C c) :
    ∃ x y : Bytes, x.length = Attempt.shardLength C c ∧ y.length = Attempt.shardLength C c ∧
      ∀ p ∈ (a.answers C c).take 2, [x, y, C.rsEncode x y][p.1]? = some p.2 := by
  have hcount : (a.slots C c).countP Option.isSome = 2 := by
    rw [h.countP_slots]
    omega
  have hslots : ∀ b, some b ∈ a.slots C c → b.length = Attempt.shardLength C c := by
    intro b hb
    rcases mem_fill hb with hempty | ⟨p, hp, rfl⟩
    · cases List.eq_of_mem_replicate hempty
    · exact hlengths p hp
  obtain ⟨x, y, hx, hy, hhold⟩ := exact.exists_codeword
    (by rw [Attempt.slots, length_fill, List.length_replicate]) hcount hslots
  obtain ⟨hnodup, hbound⟩ := answers_index (C := C) h.mode a
  have hlt : ∀ p ∈ (a.answers C c).take 2, p.1 < [x, y, C.rsEncode x y].length :=
    fun p hp => hbound p (List.mem_of_mem_take hp)
  exact ⟨x, y, hx, hy,
    (forall₂_fill_iff (hnodup.sublist ((List.take_sublist _ _).map _)) hlt).mp hhold⟩

section Sizes

variable {pack : PackRecord} (hcore : pack.core = (c.record C).core)
include hcore

theorem shardSize_eq (hmode : c.storageMode = .ec21) :
    pack.shardSize = Attempt.shardLength C c := by
  have hrow : pack.shardSize = c.shardSize C := congrArg (·.shardSize) hcore
  rw [hrow]
  simp [StoredChunk.shardSize, hmode, shardFiles_eq hmode, splitCiphertextIntoShards,
    Attempt.shardLength]

theorem cipherSize_eq : pack.cipherSize = (c.encrypted C).ciphertext.length :=
  congrArg (·.cipherSize) hcore

/-- Two answers that belong to two data shards are reconstructed to the front of these. -/
theorem reconstruct_of_codeword (ideal : C.Ideal) (h : Sharded C c w) {a : Attempt}
    (htwo : 2 ≤ (a.answers C c).length) {x y : Bytes} (hx : x.length = Attempt.shardLength C c)
    (hy : y.length = Attempt.shardLength C c)
    (hanswers : ∀ p ∈ (a.answers C c).take 2, [x, y, C.rsEncode x y][p.1]? = some p.2) :
    reconstructCiphertext C pack (a.slots C c) =
      .ok ((x ++ y).take (c.encrypted C).ciphertext.length) := by
  obtain ⟨hnodup, hbound⟩ := answers_index (C := C) h.mode a
  have hlt : ∀ p ∈ (a.answers C c).take 2, p.1 < [x, y, C.rsEncode x y].length :=
    fun p hp => hbound p (List.mem_of_mem_take hp)
  have hcount : 2 ≤ (a.slots C c).countP Option.isSome := by
    rw [h.countP_slots]
    omega
  apply reconstructCiphertext_codeword ideal hx hy (shardLen_pos _) (shardSize_eq hcore h.mode)
    (cipherSize_eq hcore) (length_le_two_shardLen _) _ hcount
  exact (forall₂_fill_iff (hnodup.sublist ((List.take_sublist _ _).map _)) hlt).mpr hanswers

/-- An answer of a wrong length stops the reconstruction. -/
theorem reconstruct_of_wrong_length (h : Sharded C c w) {a : Attempt}
    {p : ℕ × Bytes} (hp : p ∈ (a.answers C c).take 2)
    (hlength : p.2.length ≠ Attempt.shardLength C c) : ∃ e,
    reconstructCiphertext C pack (a.slots C c) = .error e := by
  obtain ⟨hnodup, hbound⟩ := answers_index (C := C) h.mode a
  have hslot : (a.slots C c)[p.1]? = some (some p.2) := by
    apply getElem?_fill_of_mem (hnodup.sublist ((List.take_sublist _ _).map _)) hp
    rw [List.length_replicate]
    exact hbound p (List.mem_of_mem_take hp)
  have hany : ((a.slots C c).any fun shard => shard.any fun bytes =>
      bytes.length ≠ Attempt.shardLength C c) = true := by
    rw [List.any_eq_true]
    exact ⟨some p.2, List.mem_of_getElem? hslot, by simpa using hlength⟩
  refine ⟨.invalidPackRecord "shard size mismatch", ?_⟩
  rw [reconstructCiphertext, if_neg, shardSize_eq hcore h.mode, toUsize_natCast,
    Prog.except_ok_bind, if_pos hany]
  rw [Attempt.slots, length_fill, List.length_replicate]
  exact fun hne => hne rfl

end Sizes

/-- A downloaded record decrypts to the plaintext exactly when it has the chunk's ciphertext. -/
theorem decrypt_downloaded_iff (ideal : C.Ideal) (exact : C.Exact)
    (hfits : c.plaintext.length + 96 < 2 ^ 63) {p : ChunkRecordPrefix} {ciphertext : Bytes}
    (hlength : ciphertext.length = (c.encrypted C).ciphertext.length)
    (hversion : p.recordVersion = 2) (hid : p.chunkId = c.chunkId C)
    (hnonce : p.nonce = (c.encrypted C).nonce) (hplain : p.plainLen = c.plaintext.length)
    (hcipher : p.cipherLen = ciphertext.length) :
    decryptChunkRecord C (chunkRecord p ciphertext (c.encrypted C).gcmTag) (c.locationAt C 0 0)
      vaultKey (some (P.randomKey c.keyDraw)) = .ok c.plaintext ↔
      ciphertext = (c.encrypted C).ciphertext := by
  constructor
  · intro hdecrypt
    have hcipherLength : (c.encrypted C).ciphertext.length = c.plaintext.length :=
      ideal.length_gcmEncrypt _ _ _ _
    have hpoints : PointsAt (c.locationAt C 0 0)
        (chunkRecord p ciphertext (c.encrypted C).gcmTag) := by
      refine ⟨rfl, ?_⟩
      show ((c.manifest C).length : ℤ) = _
      rw [length_chunkRecord, c.length_manifest, hlength]
      rfl
    have hparse := parseRecord_chunkRecord hcipher (by omega) (by omega) hpoints (by rw [hid]; rfl)
    rw [decryptChunkRecord, hparse, Prog.except_ok_bind, decryptParsed, if_pos hversion] at hdecrypt
    simp only at hdecrypt
    rcases hverified : decryptChunkV2Verified C (P.randomKey c.keyDraw) p.chunkId p.nonce []
      ciphertext (c.encrypted C).gcmTag with e | opened
    · rw [hverified] at hdecrypt
      cases hdecrypt
    rw [hverified] at hdecrypt
    simp only [Except.mapError, Prog.except_ok_bind] at hdecrypt
    split at hdecrypt
    · cases hdecrypt
    · have hopened : opened = c.plaintext := Except.ok.inj hdecrypt
      rw [hopened] at hverified
      have hencrypt := exact.gcmEncrypt_of_gcmDecrypt
        (gcmDecrypt_of_decryptChunkV2Verified hverified)
      have hsame : (c.encrypted C).ciphertext =
          (C.gcmEncrypt (P.randomKey c.keyDraw) p.nonce [] c.plaintext).1 := by
        rw [hnonce]
        rfl
      rw [hsame, hencrypt]
  · rintro rfl
    have hrecord : c.IsRecord C (chunkRecord p (c.encrypted C).ciphertext (c.encrypted C).gcmTag) :=
      ⟨p, rfl, hversion, hid, hnonce, hplain, hcipher⟩
    exact hrecord.decrypt ideal hfits rfl rfl rfl rfl vaultKey

/-! ### Reads -/

variable (vaultKey) in
/-- What a record in the spool is decrypted to. -/
def Attempt.decrypted (C : ChunkPrimitives P) (c : StoredChunk) (record : Bytes) :
    Except DownloaderError Bytes :=
  decryptChunkRecord C record (c.locationAt C 0 0) vaultKey (some (P.randomKey c.keyDraw))

theorem Sharded.before (h : Sharded C c w) (a : Attempt) :
    Sharded C c (a.before (c.packId C) w) where
  mode := h.mode
  pack := h.pack
  shards := by
    have hcore : ∀ rows : List PackShardRecord,
        (rows.map a.withStatus).map PackShardRecord.core = rows.map PackShardRecord.core := by
      intro rows
      rw [List.map_map]
      rfl
    rw [shardsOf_before, hcore]
    exact h.shards
  fits := h.fits

theorem Sharded.withRecord (h : Sharded C c w) (record : Bytes) :
    Sharded C c (w.withRecord C c record) := ⟨h.mode, h.pack, h.shards, h.fits⟩

/-- Decrypting the record in the spool. -/
theorem run_decryptDownloaded {record : Bytes} (hfile : w.downloads (c.packId C) = some record) :
    (do
      let packBytes ← readSpoolFile (.download (c.packId C))
      Prog.ofExcept (decryptChunkRecord C packBytes (c.locationAt C 0 0) vaultKey
        (some (P.randomKey c.keyDraw))) : FileProg P DownloaderError Bytes).run w =
      (Attempt.decrypted vaultKey C c record, w) := by
  have hbytes : spoolFile (.download (c.packId C)) w = some record := hfile
  rw [readSpoolFile, Prog.bind_assoc, Prog.run_query_bind, hbytes, Prog.ofOption_some,
    Prog.ret_bind, Attempt.decrypted]
  rcases decryptChunkRecord C record (c.locationAt C 0 0) vaultKey
    (some (P.randomKey c.keyDraw)) with e | plaintext
  · rfl
  · rfl

/-- A pack in the spool is read from there, whatever the providers say. -/
theorem Sharded.read_cached (h : Sharded C c w) {record : Bytes}
    (hfile : w.downloads (c.packId C) = some record) (a : Attempt) :
    a.read C c vaultKey w =
      (Attempt.decrypted vaultKey C c record, a.before (c.packId C) w) := by
  obtain ⟨pack, hpack, hcore⟩ := h.pack
  have hmode : pack.storageMode = .ec21 := (congrArg (·.storageMode) hcore).trans h.mode
  have hsame : Db.packOf (c.packId C) (a.before (c.packId C) w).db = some pack := hpack
  have hfile' : (a.before (c.packId C) w).downloads (c.packId C) = some record := hfile
  have hdownload : (downloadPack C a.net (c.packId C)).run (a.before (c.packId C) w) =
      (.ok { packId := c.packId C, providers := ["spool-cache"],
             localPath := .download (c.packId C) }, a.before (c.packId C) w) := by
    rw [downloadPack, Db.getPack, run_selectFiles_bind, hsame, Prog.ofOption_some, Prog.ret_bind,
      hmode, if_neg (by decide), Prog.run_query_bind, hfile']
    rfl
  rw [Attempt.read, Prog.run_bind_of_ok hdownload]
  exact run_decryptDownloaded hfile'

/-- A download that fails leaves the world of the attempt. -/
theorem read_of_error {a : Attempt} {e : DownloaderError}
    (h : (downloadPack C a.net (c.packId C)).run (a.before (c.packId C) w) =
      (.error e, a.before (c.packId C) w)) :
    a.read C c vaultKey w = (.error e, a.before (c.packId C) w) := by
  rw [Attempt.read, Prog.run_bind_of_error h]

variable (vaultKey) in
/-- An answer of a wrong length among the first two fails the attempt without a trace. -/
theorem Sharded.read_wrong_length (h : Sharded C c w) (hnone : w.downloads (c.packId C) = none)
    {a : Attempt} (htwo : 2 ≤ (a.answers C c).length) {p : ℕ × Bytes}
    (hp : p ∈ (a.answers C c).take 2) (hlength : p.2.length ≠ Attempt.shardLength C c) : ∃ e,
    a.read C c vaultKey w = (.error e, a.before (c.packId C) w) := by
  obtain ⟨pack, hpack, hcore⟩ := h.pack
  obtain ⟨providers, hdownload⟩ := h.run_downloadPack hnone htwo hpack hcore
  obtain ⟨e, he⟩ := reconstruct_of_wrong_length hcore h hp hlength
  rw [he] at hdownload
  exact ⟨e, read_of_error hdownload⟩

variable (vaultKey) in
/-- Two answers that belong to two data shards leave a record in the spool, which is the chunk's
exactly when the front of these is its ciphertext. -/
theorem Sharded.read_codeword (ideal : C.Ideal) (exact : C.Exact) (h : Sharded C c w)
    (hnone : w.downloads (c.packId C) = none) {a : Attempt} (htwo : 2 ≤ (a.answers C c).length)
    {x y : Bytes} (hx : x.length = Attempt.shardLength C c)
    (hy : y.length = Attempt.shardLength C c)
    (hanswers : ∀ p ∈ (a.answers C c).take 2, [x, y, C.rsEncode x y][p.1]? = some p.2) :
    ∃ record, a.read C c vaultKey w = (Attempt.decrypted vaultKey C c record,
        (a.before (c.packId C) w).withRecord C c record) ∧
      (Attempt.decrypted vaultKey C c record = .ok c.plaintext ↔
        (x ++ y).take (c.encrypted C).ciphertext.length = (c.encrypted C).ciphertext) := by
  obtain ⟨pack, hpack, hcore⟩ := h.pack
  obtain ⟨providers, hdownload⟩ := h.run_downloadPack hnone htwo hpack hcore
  have hreconstruct := reconstruct_of_codeword hcore ideal h htwo hx hy hanswers
  obtain ⟨p, hbuild, hversion, hid, hnonce, hplain, hcipher⟩ :=
    StoredChunk.buildManifestBytes_eq hcore ((x ++ y).take (c.encrypted C).ciphertext.length)
  have hlength : ((x ++ y).take (c.encrypted C).ciphertext.length).length =
      (c.encrypted C).ciphertext.length := by
    have hlong := length_le_two_shardLen (c.encrypted C).ciphertext
    rw [List.length_take, List.length_append, hx, hy]
    unfold Attempt.shardLength
    omega
  rw [hreconstruct, Prog.ofExcept_ok, Prog.ret_bind, hbuild, Prog.ofExcept_ok, Prog.ret_bind]
    at hdownload
  refine ⟨_, ?_, decrypt_downloaded_iff ideal exact h.fits hlength hversion hid hnonce hplain
    hcipher⟩
  rw [Attempt.read, Prog.run_bind_of_ok hdownload]
  exact run_decryptDownloaded (Function.update_self _ _ _)

/-! ## Runs of attempts -/

/-- The shards as the packer wrote them, all of them at hand. -/
def repaired (C : ChunkPrimitives P) (c : StoredChunk) : Attempt where
  net :=
    { configured := fun _ => true
      latency := fun _ _ => none
      delivers := fun _ _ => true
      message := fun _ _ => "" }
  objects := fun _ key => (c.shardFiles C)[key.shardIndex]?
  status := fun _ => .completed

theorem repaired_allGood : (repaired C c).AllGood C c := by
  intro s hs
  obtain ⟨i, file, hfile, -, hkey, hchecksum⟩ := shardRecord_cases s hs
  have hanswer : answer (repaired C c).net (repaired C c).objects s = some file := by
    rw [answer, repaired, hkey]
    exact hfile
  rw [Attempt.good, hanswer, Option.any_some, hchecksum, decide_eq_true rfl]
  rfl

/-- What the first attempt has to do, and what the others have to do after it. -/
theorem readableThroughout_cons (a : Attempt) (rest : List Attempt) :
    ReadableThroughout C c vaultKey w (a :: rest) ↔
      (a.TwoGood C c → (a.read C c vaultKey w).1 = .ok c.plaintext) ∧
        ReadableThroughout C c vaultKey (a.read C c vaultKey w).2 rest := by
  constructor
  · intro ⟨hall, hrepaired⟩
    refine ⟨fun htwo => hall [] a (List.prefix_append [a] rest) htwo, ?_, hrepaired⟩
    intro front b hprefix htwo
    exact hall (a :: front) b ((List.prefix_cons_inj a).mpr hprefix) htwo
  · intro ⟨hfirst, hall, hrepaired⟩
    refine ⟨fun front b hprefix htwo => ?_, hrepaired⟩
    cases front with
    | nil =>
      obtain ⟨rfl, -⟩ := List.cons_prefix_cons.mp hprefix
      exact hfirst htwo
    | cons b' front =>
      obtain ⟨rfl, htail⟩ := List.cons_prefix_cons.mp hprefix
      exact hall front b htail htwo

theorem readableThroughout_nil : ReadableThroughout C c vaultKey w [] ↔
    ∀ a : Attempt, a.AllGood C c → (a.read C c vaultKey w).1 = .ok c.plaintext := by
  constructor
  · intro h
    exact h.2
  · intro h
    refine ⟨fun front b hprefix _ => ?_, h⟩
    have hlength := hprefix.length_le
    rw [List.length_append, List.length_singleton, List.length_nil] at hlength
    omega

variable (vaultKey) in
/-- Once a record is in the spool, everything depends on it. -/
theorem Sharded.readable_cached_iff (h : Sharded C c w) {record : Bytes}
    (hfile : w.downloads (c.packId C) = some record) (attempts : List Attempt) :
    ReadableThroughout C c vaultKey w attempts ↔
      Attempt.decrypted vaultKey C c record = .ok c.plaintext := by
  induction attempts generalizing w with
  | nil =>
    rw [readableThroughout_nil]
    constructor
    · intro hread
      have hrepaired := hread (repaired C c) repaired_allGood
      rw [h.read_cached hfile] at hrepaired
      exact hrepaired
    · intro hdecrypted a _
      rw [h.read_cached hfile]
      exact hdecrypted
  | cons a rest ih =>
    rw [readableThroughout_cons, h.read_cached hfile, ih (h.before a) hfile]
    constructor
    · intro hread
      exact hread.2
    · intro hdecrypted
      exact ⟨fun _ => hdecrypted, hdecrypted⟩

/-- An attempt that fails without a trace has to have had no two good shards. -/
theorem Sharded.readable_cons_of_error {a : Attempt} {e : DownloaderError}
    (hread : a.read C c vaultKey w = (.error e, a.before (c.packId C) w)) (rest : List Attempt) :
    ReadableThroughout C c vaultKey w (a :: rest) ↔
      ¬ a.TwoGood C c ∧ ReadableThroughout C c vaultKey (a.before (c.packId C) w) rest := by
  rw [readableThroughout_cons, hread]
  constructor
  · intro ⟨htwo, hrest⟩
    refine ⟨fun hgood => ?_, hrest⟩
    cases htwo hgood
  · intro ⟨htwo, hrest⟩
    exact ⟨fun hgood => absurd hgood htwo, hrest⟩

/-- Shards of the ciphertext are shards of right length. -/
theorem Attempt.Served.lengths (ideal : C.Ideal) {a : Attempt} (h : a.Served C c) :
    ∀ p ∈ (a.answers C c).take 2, p.2.length = Attempt.shardLength C c := by
  intro p hp
  obtain ⟨-, x, y, hx, hy, -, hanswers⟩ := h
  have hmem : p.2 ∈ [x, y, C.rsEncode x y] := List.mem_of_getElem? (hanswers p hp)
  simp only [List.mem_cons, List.not_mem_nil, or_false] at hmem
  rcases hmem with h0 | h1 | h2
  · rw [h0, hx]
  · rw [h1, hy]
  · rw [h2, ideal.length_rsEncode (hx.trans hy.symm), hx]

/-- An attempt whose first two answers have the right length leaves a record, and all reads
succeed exactly when it was served. -/
theorem Sharded.readable_cons_of_lengths (ideal : C.Ideal) (exact : C.Exact) (h : Sharded C c w)
    (hnone : w.downloads (c.packId C) = none) {a : Attempt} (htwo : 2 ≤ (a.answers C c).length)
    (hlengths : ∀ p ∈ (a.answers C c).take 2, p.2.length = Attempt.shardLength C c)
    (rest : List Attempt) :
    ReadableThroughout C c vaultKey w (a :: rest) ↔ a.Served C c := by
  obtain ⟨x, y, hx, hy, hanswers⟩ := exists_codeword_of_lengths exact h htwo hlengths
  obtain ⟨record, hread, hfront⟩ :=
    h.read_codeword vaultKey ideal exact hnone htwo hx hy hanswers
  have hcached := ((h.before a).withRecord record).readable_cached_iff vaultKey
    (Function.update_self _ _ _) rest
  rw [readableThroughout_cons, hread]
  constructor
  · intro ⟨_, hrest⟩
    exact ⟨htwo, x, y, hx, hy, hfront.mp (hcached.mp hrest), hanswers⟩
  · intro ⟨_, x', y', hx', hy', hfront', hanswers'⟩
    -- the same read, seen through the shards that serve it
    obtain ⟨record', hread', hiff⟩ :=
      h.read_codeword vaultKey ideal exact hnone htwo hx' hy' hanswers'
    have hsame := congrArg Prod.fst (hread.symm.trans hread')
    have hdecrypted : Attempt.decrypted vaultKey C c record = .ok c.plaintext :=
      hsame.trans (hiff.mpr hfront')
    exact ⟨fun _ => hdecrypted, hcached.mpr hdecrypted⟩

/-- All reads of a pack with two good shards succeed if and only if no attempt spoils the pack
before the first that is served. -/
theorem readable_throughout_iff (ideal : C.Ideal) (exact : C.Exact) (vaultKey : P.Key)
    (h : Sharded C c w) (hnone : w.downloads (c.packId C) = none) (attempts : List Attempt) :
    ReadableThroughout C c vaultKey w attempts ↔ Unspoiled C c attempts := by
  induction attempts generalizing w with
  | nil =>
    rw [readableThroughout_nil]
    refine iff_of_true (fun a hall => ?_) trivial
    obtain ⟨htwo, x, y, hx, hy, hfront, hanswers⟩ := hall.served ideal h.mode
    obtain ⟨record, hread, hiff⟩ :=
      h.read_codeword vaultKey ideal exact hnone htwo hx hy hanswers
    rw [hread]
    exact hiff.mpr hfront
  | cons a rest ih =>
    have hrest := ih (h.before a) hnone
    by_cases htwo : 2 ≤ (a.answers C c).length
    · by_cases hlengths : ∀ p ∈ (a.answers C c).take 2, p.2.length = Attempt.shardLength C c
      · have hfails : ¬ a.Fails C c := by
          rintro (hfew | ⟨-, p, hp, hlength⟩)
          · exact absurd htwo (Nat.not_le.mpr hfew)
          · exact hlength (hlengths p hp)
        rw [h.readable_cons_of_lengths ideal exact hnone htwo hlengths, Unspoiled]
        simp only [hfails, false_and, or_false]
      · have hserved : ¬ a.Served C c := fun hserved => hlengths (hserved.lengths ideal)
        push Not at hlengths
        obtain ⟨p, hp, hlength⟩ := hlengths
        obtain ⟨e, hread⟩ := h.read_wrong_length vaultKey hnone htwo hp hlength
        have hfails : a.Fails C c ↔ ¬ a.TwoGood C c := by
          constructor
          · rintro (hfew | ⟨hgood, -⟩)
            · exact absurd htwo (Nat.not_le.mpr hfew)
            · exact hgood
          · exact fun hgood => Or.inr ⟨hgood, p, hp, hlength⟩
        rw [Sharded.readable_cons_of_error hread, hrest, Unspoiled, hfails]
        simp only [hserved, false_or]
    · have hserved : ¬ a.Served C c := fun hserved => htwo hserved.1
      have hgood : ¬ a.TwoGood C c := fun hgood => htwo hgood.two_le
      have hfails : a.Fails C c := Or.inl (Nat.not_le.mp htwo)
      obtain ⟨e, hdownload⟩ := h.run_downloadPack_few hnone (Nat.not_le.mp htwo)
      rw [Sharded.readable_cons_of_error (read_of_error hdownload), hrest, Unspoiled]
      simp only [hserved, hgood, hfails, not_false_eq_true, true_and, false_or]

end Outcome

/-! ## A pack of two bytes -/

/-- The symbolic primitives are exact. -/
theorem symbolicChunks_exact : symbolicChunks.Exact where
  gcmEncrypt_of_gcmDecrypt := by
    intro k n aad ciphertext tag m h
    have htag : tag = padTo 16 (SymbolicKey.code k) := by
      by_contra hne
      rw [show symbolicChunks.gcmDecrypt k n aad ciphertext tag = none from if_neg hne] at h
      cases h
    rw [htag] at h ⊢
    have hbytes : symbolicChunks.gcmDecrypt k n aad ciphertext (padTo 16 (SymbolicKey.code k)) =
      some ciphertext := if_pos rfl
    rw [hbytes] at h
    cases h
    rfl
  exists_codeword := by
    intro len slots hlength hcount hlen
    rcases slots with _ | ⟨s₀, _ | ⟨s₁, _ | ⟨s₂, _ | ⟨s₃, rest⟩⟩⟩⟩
    · cases hlength
    · cases hlength
    · cases hlength
    · rcases s₀ with _ | a <;> rcases s₁ with _ | b <;> rcases s₂ with _ | d
      · cases hcount
      · cases hcount
      · cases hcount
      · have hb := hlen b (by simp)
        have hd := hlen d (by simp)
        have hparity : addShards (addShards b d) b = d := by
          rw [addShards_comm, addShards_cancel_left (hb.trans hd.symm)]
        have hx : (addShards b d).length = len := by
          rw [addShards, List.length_zipWith, hb, hd, Nat.min_self]
        exact ⟨addShards b d, b, hx, hb,
          .cons (Or.inl rfl) (.cons (Or.inr rfl) (.cons (Or.inr (congrArg some hparity.symm)) .nil))⟩
      · cases hcount
      · have ha := hlen a (by simp)
        have hd := hlen d (by simp)
        have hparity : addShards a (addShards a d) = d :=
          addShards_cancel_left (ha.trans hd.symm)
        have hy : (addShards a d).length = len := by
          rw [addShards, List.length_zipWith, ha, hd, Nat.min_self]
        exact ⟨a, addShards a d, ha, hy,
          .cons (Or.inr rfl) (.cons (Or.inl rfl) (.cons (Or.inr (congrArg some hparity.symm)) .nil))⟩
      · have ha := hlen a (by simp)
        have hb := hlen b (by simp)
        exact ⟨a, b, ha, hb,
          .cons (Or.inr rfl) (.cons (Or.inr rfl) (.cons (Or.inl rfl) .nil))⟩
      · cases hcount
    · simp [totalShards, dataShards, parityShards] at hlength

/-- A chunk of two bytes, one for each data shard. -/
def twoBytes : StoredChunk := { plaintext := [7, 9], storageMode := .ec21, dekId := 1, keyDraw := 0 }

/-- The world where its pack is the only one. -/
def twoBytesWorld : FileWorld symbolic :=
  { FileWorld.fresh openVault with
    db :=
      { packs := [twoBytes.record symbolicChunks]
        packShards := twoBytes.shardRecords symbolicChunks } }

theorem sharded_twoBytes : Sharded symbolicChunks twoBytes twoBytesWorld where
  mode := rfl
  pack := ⟨_, rfl, rfl⟩
  shards := rfl
  fits := by decide

/-- The shards at hand, with one byte of the first one changed. -/
def oneCorrupt : Attempt :=
  { repaired symbolicChunks twoBytes with
    objects := fun _ key => [[8], [9], [14]][key.shardIndex]? }

/-- No provider answers. -/
def unanswered : Attempt := { repaired symbolicChunks twoBytes with net := offline }

/-- A pack without an answer is read when its shards are back, and from then on. -/
theorem readable_throughout_twoBytes :
    ReadableThroughout symbolicChunks twoBytes (.random 101) twoBytesWorld
      [unanswered, repaired symbolicChunks twoBytes, oneCorrupt] := by
  apply (readable_throughout_iff symbolicChunks_ideal symbolicChunks_exact (.random 101)
    sharded_twoBytes rfl _).mpr
  have hfails : unanswered.Fails symbolicChunks twoBytes := Or.inl (by decide)
  have hserved : (repaired symbolicChunks twoBytes).Served symbolicChunks twoBytes :=
    repaired_allGood.served symbolicChunks_ideal rfl
  exact Or.inr ⟨hfails, Or.inl hserved⟩

/-- One wrong byte of a fast provider spoils the pack, though the other two shards are good. -/
theorem readable_throughout_not_always :
    ¬ ∀ (c : StoredChunk) (vaultKey : symbolic.Key) (w : FileWorld symbolic),
      symbolicChunks.Ideal → symbolicChunks.Exact → Sharded symbolicChunks c w →
      w.downloads (c.packId symbolicChunks) = none → ∀ attempts,
      ReadableThroughout symbolicChunks c vaultKey w attempts := by
  intro h
  have hread := h twoBytes (.random 101) twoBytesWorld symbolicChunks_ideal symbolicChunks_exact
    sharded_twoBytes rfl [oneCorrupt]
  have hanswers : oneCorrupt.answers symbolicChunks twoBytes = [(0, [8]), (1, [9]), (2, [14])] := by
    decide
  have hlengths : ∀ p ∈ (oneCorrupt.answers symbolicChunks twoBytes).take 2,
      p.2.length = Attempt.shardLength symbolicChunks twoBytes := by
    rw [hanswers]
    decide
  have htwo : 2 ≤ (oneCorrupt.answers symbolicChunks twoBytes).length := by
    rw [hanswers]
    decide
  obtain ⟨-, x, y, hx, hy, hfront, hserved⟩ := (sharded_twoBytes.readable_cons_of_lengths
    symbolicChunks_ideal symbolicChunks_exact rfl htwo hlengths []).mp hread
  rw [hanswers] at hserved
  have hfirst : some x = some [8] := hserved (0, [8]) (by decide)
  cases hfirst
  cases congrArg List.head? hfront

end OmniDrive
