import OmniDrive.Library.Attempts
import OmniDrive.Recovery.Handlers

/-!
# Limits on failed attempts

A handler asks a limiter about the caller's address, tries the secret, and records how it went. A
restore with the recovery words also looks for an earlier attempt in the audit log. Time is counted
in nanoseconds.
-/

namespace OmniDrive

open Attempts GuardedRuns

/-- A span of so many seconds. -/
def fromSecs (secs : ℕ) : ℕ := secs * 1000000000

/-- The whole seconds of a span. -/
def asSecs (span : ℕ) : ℕ := span / 1000000000

theorem fromSecs_le_iff (secs span : ℕ) : fromSecs secs ≤ span ↔ secs ≤ asSecs span := by
  unfold fromSecs asSecs
  omega

/-! ## The limiters of `api/mod.rs` -/

/-- What a limiter keeps of an address, the oldest failure first. -/
structure IpRecord where
  failures : List ℕ := []
  lastFailureAt : Option ℕ := none

/-- The outcome of a check. A refusal names the seconds to wait. -/
inductive RateCheck where
  | admitted
  | refused (retryAfterSecs : ℕ)
  | panicked
  deriving DecidableEq

/-- Not longer ago than a window. -/
def isWithin (windowSecs now t : ℕ) : Bool := decide (now - t < fromSecs windowSecs)

namespace IpRecord

/-- The failures that a check keeps. -/
def retained (windowSecs now : ℕ) (record : IpRecord) : List ℕ :=
  record.failures.filter (isWithin windowSecs now)

def retain (windowSecs now : ℕ) (record : IpRecord) : IpRecord :=
  { record with failures := record.retained windowSecs now }

def recordFailure (now : ℕ) (record : IpRecord) : IpRecord where
  failures := record.failures ++ [now]
  lastFailureAt := some now

end IpRecord

/-- The policy of a `RecoveryRateLimiter`, with the bound of its `u32`. -/
structure RatePolicy where
  freeAttempts : ℕ
  cooldownSecs : ℕ
  windowSecs : ℕ
  freeAttempts_lt : freeAttempts < 2 ^ 32

namespace RatePolicy

variable (policy : RatePolicy)

/-- The check behind the cooldown. The number of failures is compared as a `u32`. -/
def checkWindow (now : ℕ) (failures : List ℕ) : RateCheck :=
  if policy.freeAttempts ≤ failures.length % 2 ^ 32 then
    match failures.head? with
    | none => .panicked
    | some oldest => .refused (max (policy.windowSecs - asSecs (now - oldest)) 1)
  else .admitted

def check (now : ℕ) (record : IpRecord) : RateCheck :=
  match record.lastFailureAt with
  | none => policy.checkWindow now (record.retained policy.windowSecs now)
  | some last =>
    if now - last < fromSecs policy.cooldownSecs then
      .refused (policy.cooldownSecs - asSecs (now - last))
    else policy.checkWindow now (record.retained policy.windowSecs now)

/-- The limiter of one address. -/
def recoveryLimiter : Limiter IpRecord Unit where
  admits _ now record := policy.check now record = .admitted
  asked _ now record := record.retain policy.windowSecs now
  failed _ now record := record.recordFailure now
  succeeded _ _ _ := {}
  forgets := true

end RatePolicy

/-- The seconds to wait behind so many failures. -/
def joinDelay (failCount : ℕ) : ℕ :=
  if failCount < 3 then 0 else if failCount = 3 then 1 else if failCount = 4 then 5 else 30

def joinWindowSecs : ℕ := 300

def joinCheck (now : ℕ) (record : IpRecord) : RateCheck :=
  let failCount := (record.retained joinWindowSecs now).length
  if failCount < 3 then .admitted
  else
    match record.lastFailureAt with
    | none => .admitted
    | some last =>
      if asSecs (now - last) < joinDelay failCount then
        .refused (joinDelay failCount - asSecs (now - last))
      else .admitted

/-- The `JoinRateLimiter` of one address. -/
def joinLimiter : Limiter IpRecord Unit where
  admits _ now record := joinCheck now record = .admitted
  asked _ now record := record.retain joinWindowSecs now
  failed _ now record := record.recordFailure now
  succeeded _ _ _ := {}
  forgets := true

/-! ## The guard of `restore_from_recovery_key` -/

/-- What the guard reads: the timestamps of restores and failed restores in the audit log, and
`recovery_unlocked_until`, which is 0 if it is not set. -/
structure RestoreGuard where
  restoreAttempts : List ℤ
  recoveryUnlockedUntil : ℤ

/-- The statements that fail, each without a trace. -/
structure GuardFaults where
  readConfig : Bool := false
  readAudit : Bool := false
  insertAudit : Bool := false

namespace RestoreGuard

def isBlocked (faults : GuardFaults) (now : ℕ) (g : RestoreGuard) : Bool :=
  let unlockedUntil := if faults.readConfig then 0 else g.recoveryUnlockedUntil
  unlockedUntil ≤ (asSecs now : ℤ) &&
    (!faults.readAudit && g.restoreAttempts.any ((asSecs now : ℤ) - 86400 ≤ ·))

def insertAttempt (faults : GuardFaults) (now : ℕ) (g : RestoreGuard) : RestoreGuard :=
  if faults.insertAudit then g
  else { g with restoreAttempts := g.restoreAttempts ++ [(asSecs now : ℤ)] }

/-- The guard with the audit rows behind it. A success is recorded as a failure is. -/
def restoreLimiter : Limiter RestoreGuard GuardFaults where
  admits faults now g := !g.isBlocked faults now
  asked _ _ g := g
  failed faults now g := g.insertAttempt faults now
  succeeded faults now g := g.insertAttempt faults now
  forgets := false

/-- Where no statement fails, the guard is that of the handler. -/
theorem isBlocked_eq {P : Primitives} (w : RecoveryWorld P) (now : ℕ) (h : w.now = asSecs now) :
    isBlocked {} now { restoreAttempts := w.restoreAttempts,
                       recoveryUnlockedUntil := w.recoveryUnlockedUntil } =
      Recovery.isBlocked w := by
  simp [isBlocked, Recovery.isBlocked, h]

end RestoreGuard

/-! ## What a limiter remembers -/

/-- The record of an address stands for the failures told of, newest first: as many lie within a
window, and the last one is the newest. -/
structure Remembers (windowSecs now : ℕ) (record : IpRecord) (failures : List ℕ) : Prop where
  within : ∀ later, now ≤ later →
    record.failures.countP (isWithin windowSecs later) =
      failures.countP (isWithin windowSecs later)
  last : record.lastFailureAt = failures.head?
  sorted : failures.Pairwise (· ≥ ·)
  past : ∀ t ∈ failures, t ≤ now

variable {windowSecs now : ℕ} {record : IpRecord} {failures : List ℕ}

/-- A time within a window is within every earlier one that it does not lie behind. -/
theorem isWithin_anti {later t : ℕ} (h : now ≤ later) (ht : isWithin windowSecs later t = true) :
    isWithin windowSecs now t = true := by
  simp only [isWithin, decide_eq_true_eq] at ht ⊢
  omega

theorem isWithin_mono (a b : ℕ) (hab : a ≤ b) (ha : isWithin windowSecs now a = true) :
    isWithin windowSecs now b = true := by
  simp only [isWithin, decide_eq_true_eq] at ha ⊢
  omega

theorem remembers_nil (windowSecs now : ℕ) : Remembers windowSecs now {} [] where
  within _ _ := rfl
  last := rfl
  sorted := .nil
  past := by simp

namespace Remembers

theorem later (h : Remembers windowSecs now record failures) (ticks : ℕ) :
    Remembers windowSecs (now + ticks) record failures where
  within := fun n hn => h.within n (by omega)
  last := h.last
  sorted := h.sorted
  past := fun t ht => Nat.le_trans (h.past t ht) (Nat.le_add_right now ticks)

/-- What a check drops is of no interest to any later check. -/
theorem retain (h : Remembers windowSecs now record failures) :
    Remembers windowSecs now (record.retain windowSecs now) failures where
  within := by
    intro n hn
    rw [← h.within n hn, IpRecord.retain, IpRecord.retained, List.countP_filter]
    apply List.countP_congr
    intro t _
    simp only [Bool.and_eq_true]
    exact ⟨And.left, fun ht => ⟨ht, isWithin_anti hn ht⟩⟩
  last := h.last
  sorted := h.sorted
  past := h.past

theorem recordFailure (h : Remembers windowSecs now record failures) :
    Remembers windowSecs now (record.recordFailure now) (now :: failures) where
  within := by
    intro n hn
    simp [IpRecord.recordFailure, List.countP_cons, h.within n hn]
  last := rfl
  sorted := List.pairwise_cons.mpr ⟨h.past, h.sorted⟩
  past := by simpa using h.past

/-- The failures that a check counts. -/
theorem length_retained (h : Remembers windowSecs now record failures) :
    (record.retained windowSecs now).length = failures.countP (isWithin windowSecs now) := by
  rw [IpRecord.retained, ← List.countP_eq_length_filter, h.within now (Nat.le_refl now)]

/-- No failure told of is later than the last one on record. -/
theorem le_last (h : Remembers windowSecs now record failures) {t : ℕ} (ht : t ∈ failures) :
    ∃ last, record.lastFailureAt = some last ∧ t ≤ last ∧ last ∈ failures := by
  have hsorted := h.sorted
  rw [h.last]
  cases failures with
  | nil => cases ht
  | cons last older =>
    refine ⟨last, rfl, ?_, List.mem_cons_self⟩
    cases List.mem_cons.mp ht with
    | inl heq => exact heq.le
    | inr hmem => exact (List.pairwise_cons.mp hsorted).1 t hmem

end Remembers

/-! ## The policy of a recovery limiter -/

namespace RatePolicy

/-- What an admitted attempt was promised. -/
def Allows (policy : RatePolicy) (now : ℕ) (failures : List ℕ) : Prop :=
  failures.countP (isWithin policy.windowSecs now) < policy.freeAttempts ∧
    ∀ t ∈ failures, t + fromSecs policy.cooldownSecs ≤ now

/-- The `u32` holds the number of failures in the window. -/
def CountFits (policy : RatePolicy) (now : ℕ) (record : IpRecord) : Prop :=
  (record.retained policy.windowSecs now).length < 2 ^ 32

variable (policy : RatePolicy)

theorem checkWindow_admitted (now : ℕ) (failures : List ℕ) :
    policy.checkWindow now failures = .admitted ↔
      failures.length % 2 ^ 32 < policy.freeAttempts := by
  unfold checkWindow
  split
  · cases failures.head? <;> simp <;> omega
  · simp
    omega

/-- With a free attempt, no check looks for the oldest of no failures. -/
theorem check_ne_panicked (hfree : 0 < policy.freeAttempts) (now : ℕ) (record : IpRecord) :
    policy.check now record ≠ .panicked := by
  have hwindow : ∀ failures : List ℕ, policy.checkWindow now failures ≠ .panicked := by
    intro failures
    unfold checkWindow
    split
    · cases failures with
      | nil =>
        simp at *
        omega
      | cons oldest rest => simp
    · simp
  unfold check
  cases record.lastFailureAt with
  | none => exact hwindow _
  | some last =>
    dsimp only
    split
    · simp
    · exact hwindow _

/-- Without one, the first check of an address does. -/
theorem check_panicked (hfree : policy.freeAttempts = 0) (now : ℕ) :
    policy.check now {} = .panicked := by
  simp [check, checkWindow, hfree, IpRecord.retained]

theorem check_admitted {now : ℕ} {record : IpRecord} (h : policy.check now record = .admitted) :
    (record.retained policy.windowSecs now).length % 2 ^ 32 < policy.freeAttempts ∧
      ∀ last, record.lastFailureAt = some last → fromSecs policy.cooldownSecs ≤ now - last := by
  unfold check at h
  cases hlast : record.lastFailureAt with
  | none =>
    rw [hlast] at h
    exact ⟨(policy.checkWindow_admitted now _).mp h, by simp⟩
  | some last =>
    rw [hlast] at h
    dsimp only at h
    split at h
    · cases h
    · refine ⟨(policy.checkWindow_admitted now _).mp h, ?_⟩
      intro last' heq
      cases heq
      omega

theorem trusted : Trusted policy.recoveryLimiter policy.Allows (Remembers policy.windowSecs)
    (fun _ => policy.CountFits) (fun _ => True) where
  later h := h.later _
  asked h := h.retain
  failed _ h := h.recordFailure
  succeeded _ := remembers_nil _ _
  allows := by
    intro e now record failures hfits h hadmits
    have hcheck := policy.check_admitted (of_decide_eq_true hadmits)
    refine ⟨?_, ?_⟩
    · rw [← h.length_retained]
      rw [CountFits] at hfits
      rw [Nat.mod_eq_of_lt hfits] at hcheck
      exact hcheck.1
    · intro t ht
      obtain ⟨last, hlast, hle, hmem⟩ := h.le_last ht
      have hcool := hcheck.2 last hlast
      have hpast := h.past last hmem
      omega

/-- Wrong attempts, newest first, are a cooldown apart, and no window has more of them than are
free. -/
structure Keeps (wrongs : List ℕ) : Prop where
  apart : wrongs.Pairwise fun later earlier => earlier + fromSecs policy.cooldownSecs ≤ later
  window : ∀ n, wrongs.countP (fun t => t ≤ n ∧ n < t + fromSecs policy.windowSecs) ≤
    policy.freeAttempts

theorem keeps_nil : policy.Keeps [] where
  apart := .nil
  window := by simp

/-- An attempt that the failures before it allow keeps the policy. -/
theorem keeps_cons (now asked : ℕ) (wrongs failures : List ℕ) (hasked : asked ≤ now)
    (hallows : policy.Allows asked failures) (hcovers : Covers wrongs failures)
    (hkeeps : policy.Keeps wrongs) : policy.Keeps (now :: wrongs) where
  apart := by
    refine List.pairwise_cons.mpr ⟨?_, hkeeps.apart⟩
    intro t ht
    obtain ⟨f, hf, hle⟩ := hcovers.le_head ht
    have hcool := hallows.2 f hf
    omega
  window := by
    intro n
    rw [List.countP_cons]
    have holder := hkeeps.window n
    by_cases hn : now ≤ n ∧ n < now + fromSecs policy.windowSecs
    · have hcount : wrongs.countP (fun t => t ≤ n ∧ n < t + fromSecs policy.windowSecs) ≤
          wrongs.countP (isWithin policy.windowSecs asked) := by
        apply List.countP_mono_left
        intro t _ ht
        simp only [isWithin, decide_eq_true_eq] at ht ⊢
        omega
      have hcovered := hcovers.countP_le isWithin_mono (p := isWithin policy.windowSecs asked)
      have hfree := hallows.1
      rw [if_pos (by simpa using hn)]
      omega
    · simpa [hn] using holder

end RatePolicy

/-! ## The delays of a join limiter -/

theorem joinDelay_mono {m n : ℕ} (h : m ≤ n) : joinDelay m ≤ joinDelay n := by
  unfold joinDelay
  split_ifs <;> omega

def JoinAllows (now : ℕ) (failures : List ℕ) : Prop :=
  ∀ t ∈ failures, t + fromSecs (joinDelay (failures.countP (isWithin joinWindowSecs now))) ≤ now

theorem joinCheck_admitted {now : ℕ} {record : IpRecord} (h : joinCheck now record = .admitted)
    {last : ℕ} (hlast : record.lastFailureAt = some last) :
    fromSecs (joinDelay (record.retained joinWindowSecs now).length) ≤ now - last := by
  unfold joinCheck at h
  by_cases hfew : (record.retained joinWindowSecs now).length < 3
  · simp [joinDelay, hfew, fromSecs]
  · rw [fromSecs_le_iff]
    by_contra hearly
    simp [hfew, hlast, Nat.not_le.mp hearly] at h

theorem joinTrusted : Trusted joinLimiter JoinAllows (Remembers joinWindowSecs)
    (fun _ _ _ => True) (fun _ => True) where
  later h := h.later _
  asked h := h.retain
  failed _ h := h.recordFailure
  succeeded _ := remembers_nil _ _
  allows := by
    intro e now record failures _ h hadmits t ht
    obtain ⟨last, hlast, hle, hmem⟩ := h.le_last ht
    have hdelay := joinCheck_admitted (of_decide_eq_true hadmits) hlast
    have hpast := h.past last hmem
    rw [h.length_retained] at hdelay
    omega

/-- Each wrong attempt, newest first, comes as long behind the one before as the number of wrong
attempts within the window asks for. -/
def DelaysKept : List ℕ → Prop
  | later :: earlier :: older =>
    earlier + fromSecs (joinDelay ((earlier :: older).countP (isWithin joinWindowSecs later))) ≤
        later ∧ DelaysKept (earlier :: older)
  | _ => True

theorem delaysKept_cons (now asked : ℕ) (wrongs failures : List ℕ) (hasked : asked ≤ now)
    (hallows : JoinAllows asked failures) (hcovers : Covers wrongs failures)
    (hkept : DelaysKept wrongs) : DelaysKept (now :: wrongs) := by
  cases wrongs with
  | nil => trivial
  | cons earlier older =>
    refine ⟨?_, hkept⟩
    obtain ⟨f, hf, hle⟩ := hcovers.le_head List.mem_cons_self
    have hwithin : (earlier :: older).countP (isWithin joinWindowSecs now) ≤
        (earlier :: older).countP (isWithin joinWindowSecs asked) :=
      List.countP_mono_left fun t _ ht => isWithin_anti hasked ht
    have hcovered := hcovers.countP_le isWithin_mono (p := isWithin joinWindowSecs asked)
    have hdelay := joinDelay_mono (hwithin.trans hcovered)
    have hf := hallows f hf
    unfold fromSecs at hf ⊢
    omega

/-! ## The guard of a restore -/

/-- A restore tried within a day of a failure is refused. -/
def RestoreAllows (now : ℕ) (failures : List ℕ) : Prop :=
  ∀ t ∈ failures, t + fromSecs 86400 ≤ now

/-- The audit log has a row for each failure, and nobody has lifted the guard. -/
structure Audited (g : RestoreGuard) (failures : List ℕ) : Prop where
  rows : ∀ t ∈ failures, (asSecs t : ℤ) ∈ g.restoreAttempts
  guarded : g.recoveryUnlockedUntil = 0

theorem Audited.insertAttempt {g : RestoreGuard} {failures : List ℕ} (h : Audited g failures)
    (faults : GuardFaults) (now : ℕ) : Audited (g.insertAttempt faults now) failures := by
  unfold RestoreGuard.insertAttempt
  split
  · exact h
  · exact { h with rows := fun t ht => List.mem_append_left _ (h.rows t ht) }

theorem Audited.insertFailure {g : RestoreGuard} {failures : List ℕ} (h : Audited g failures)
    {faults : GuardFaults} (hinsert : faults.insertAudit = false) (now : ℕ) :
    Audited (g.insertAttempt faults now) (now :: failures) := by
  have hrows : (g.insertAttempt faults now).restoreAttempts =
      g.restoreAttempts ++ [(asSecs now : ℤ)] := by
    simp [RestoreGuard.insertAttempt, hinsert]
  refine { rows := ?_, guarded := (h.insertAttempt faults now).guarded }
  intro t ht
  rw [hrows]
  cases List.mem_cons.mp ht with
  | inl heq => simp [heq]
  | inr hmem => exact List.mem_append_left _ (h.rows t hmem)

theorem restoreTrusted : Trusted RestoreGuard.restoreLimiter RestoreAllows
    (fun _ => Audited) (fun faults _ _ => faults.readAudit = false)
    (fun faults => faults.insertAudit = false) where
  later h := h
  asked h := h
  failed htells h := h.insertFailure htells _
  succeeded h := h.insertAttempt _ _
  allows := by
    intro faults now g failures hread h hadmits t ht
    have hlifted : (0 : ℤ) ≤ (asSecs now : ℤ) := Int.natCast_nonneg _
    have hblocked : g.isBlocked faults now = false := by
      simpa only [RestoreGuard.restoreLimiter, Bool.not_eq_true'] using hadmits
    have hany : g.restoreAttempts.any ((asSecs now : ℤ) - 86400 ≤ ·) = false := by
      simpa only [RestoreGuard.isBlocked, hread, h.guarded, ite_self, hlifted, decide_true,
        Bool.true_and, Bool.not_false] using hblocked
    have hrow := List.any_eq_false.mp hany _ (h.rows t ht)
    rw [decide_eq_true_eq] at hrow
    unfold asSecs at hrow
    unfold fromSecs
    omega

/-- Wrong mnemonics, newest first, a day apart. -/
def DayApart (wrongs : List ℕ) : Prop :=
  wrongs.Pairwise fun later earlier => earlier + fromSecs 86400 ≤ later

theorem dayApart_cons (now asked : ℕ) (wrongs failures : List ℕ) (hasked : asked ≤ now)
    (hallows : RestoreAllows asked failures) (hcovers : Covers wrongs failures)
    (hkept : DayApart wrongs) : DayApart (now :: wrongs) := by
  refine List.pairwise_cons.mpr ⟨?_, hkept⟩
  intro t ht
  obtain ⟨f, hf, hle⟩ := hcovers.le_head ht
  have := hallows f hf
  omega

/-! ## Once the window has passed -/

/-- Behind the window of all failures, a check keeps none. -/
theorem Remembers.retained_eq_nil (h : Remembers windowSecs now record failures)
    (hold : ∀ t ∈ failures, t + fromSecs windowSecs ≤ now) :
    record.retained windowSecs now = [] := by
  apply List.eq_nil_of_length_eq_zero
  rw [h.length_retained, List.countP_eq_zero]
  intro t ht
  have := hold t ht
  simp only [isWithin, decide_eq_true_eq]
  omega

theorem RatePolicy.check_after_window (policy : RatePolicy) (hfree : 0 < policy.freeAttempts)
    (hcooldown : policy.cooldownSecs ≤ policy.windowSecs)
    (h : Remembers policy.windowSecs now record failures)
    (hold : ∀ t ∈ failures, t + fromSecs policy.windowSecs ≤ now) :
    policy.check now record = .admitted := by
  have hwindow : policy.checkWindow now (record.retained policy.windowSecs now) = .admitted := by
    rw [policy.checkWindow_admitted, h.retained_eq_nil hold]
    exact hfree
  unfold RatePolicy.check
  cases hlast : record.lastFailureAt with
  | none => exact hwindow
  | some last =>
    have hmem : last ∈ failures := List.mem_of_head? (h.last ▸ hlast)
    have hpassed := hold last hmem
    have hcool : ¬ now - last < fromSecs policy.cooldownSecs := by
      unfold fromSecs at hpassed ⊢
      omega
    simpa [hcool] using hwindow

theorem joinCheck_after_window (h : Remembers joinWindowSecs now record failures)
    (hold : ∀ t ∈ failures, t + fromSecs joinWindowSecs ≤ now) :
    joinCheck now record = .admitted := by
  simp [joinCheck, h.retained_eq_nil hold]

/-! ## Whole runs -/

section Runs

variable (policy : RatePolicy) (attempts : List ℤ)

/-- What a recovery limiter is for, in every state of a run. -/
def RecoveryBounded (ops : List (Op Unit)) : Prop :=
  ∀ w ∈ states (Op.apply policy.recoveryLimiter) ops (World.start {}),
    policy.Keeps w.wrongs ∧ policy.check w.now w.limiter ≠ .panicked ∧
      ((∀ t ∈ w.failures, t + fromSecs policy.windowSecs ≤ w.now) →
        policy.check w.now w.limiter = .admitted)

/-- What the join limiter is for, in every state of a run. -/
def JoinBounded (ops : List (Op Unit)) : Prop :=
  ∀ w ∈ states (Op.apply joinLimiter) ops (World.start {}),
    DelaysKept w.wrongs ∧
      ((∀ t ∈ w.failures, t + fromSecs joinWindowSecs ≤ w.now) →
        joinCheck w.now w.limiter = .admitted)

/-- A vault whose guard was never lifted. -/
def guardedVault : World RestoreGuard :=
  World.start { restoreAttempts := attempts, recoveryUnlockedUntil := 0 }

/-- What the guard of a restore is for, in every state of a run. -/
def RestoreBounded (ops : List (Op GuardFaults)) : Prop :=
  ∀ w ∈ states (Op.apply RestoreGuard.restoreLimiter) ops (guardedVault attempts),
    DayApart w.wrongs

/-- No wrong attempt is tried while another that the limiter was not told of when it was asked is
about, and no check finds more failures in the window than a `u32` counts. -/
def RecoveryApart (ops : List (Op Unit)) : Prop :=
  guarded (Op.apply policy.recoveryLimiter)
    (Apart (fun _ => policy.CountFits) fun _ => True) ops (World.start {})

def JoinApart (ops : List (Op Unit)) : Prop :=
  guarded (Op.apply joinLimiter) (Apart (fun _ _ _ => True) fun _ => True) ops (World.start {})

/-- Here, besides, the audit log is read whenever it is asked, and takes the row of each failure. -/
def RestoreApart (ops : List (Op GuardFaults)) : Prop :=
  guarded (Op.apply RestoreGuard.restoreLimiter)
    (Apart (fun faults _ _ => faults.readAudit = false) fun faults => faults.insertAudit = false)
    ops (guardedVault attempts)

variable {policy attempts}

theorem recoveryBounded_of_apart (hfree : 0 < policy.freeAttempts)
    (hcooldown : policy.cooldownSecs ≤ policy.windowSecs) {ops : List (Op Unit)}
    (h : RecoveryApart policy ops) : RecoveryBounded policy ops := by
  intro w hw
  obtain ⟨hinv, hkeeps⟩ := keeps_of_apart policy.trusted (remembers_nil _ _) policy.keeps_nil
    (fun now asked wrongs failures hasked hallows hcovers _ hkeeps =>
      policy.keeps_cons now asked wrongs failures hasked hallows hcovers hkeeps) h w hw
  exact ⟨hkeeps, policy.check_ne_panicked hfree _ _,
    policy.check_after_window hfree hcooldown hinv.represents⟩

theorem joinBounded_of_apart {ops : List (Op Unit)} (h : JoinApart ops) : JoinBounded ops := by
  intro w hw
  obtain ⟨hinv, hkept⟩ := keeps_of_apart joinTrusted (remembers_nil _ _) trivial
    (fun now asked wrongs failures hasked hallows hcovers _ hkept =>
      delaysKept_cons now asked wrongs failures hasked hallows hcovers hkept) h w hw
  exact ⟨hkept, joinCheck_after_window hinv.represents⟩

theorem restoreBounded_of_apart {ops : List (Op GuardFaults)} (h : RestoreApart attempts ops) :
    RestoreBounded attempts ops := by
  intro w hw
  have hstart : Audited { restoreAttempts := attempts, recoveryUnlockedUntil := 0 } [] :=
    { rows := by simp, guarded := rfl }
  exact (keeps_of_apart restoreTrusted hstart List.Pairwise.nil
    (fun now asked wrongs failures hasked hallows hcovers _ hkept =>
      dayApart_cons now asked wrongs failures hasked hallows hcovers hkept) h w hw).2

end Runs

/-- Failed attempts are bounded in every run whose wrong attempts do not overlap, under a policy
with a free attempt and a cooldown within the window, and for a restore if the statements of its
guard succeed. -/
theorem failed_attempts_bounded (policy : RatePolicy) (hfree : 0 < policy.freeAttempts)
    (hcooldown : policy.cooldownSecs ≤ policy.windowSecs) (attempts : List ℤ)
    (recoveryOps joinOps : List (Op Unit)) (restoreOps : List (Op GuardFaults))
    (hrecovery : RecoveryApart policy recoveryOps) (hjoin : JoinApart joinOps)
    (hrestore : RestoreApart attempts restoreOps) :
    RecoveryBounded policy recoveryOps ∧ JoinBounded joinOps ∧
      RestoreBounded attempts restoreOps :=
  ⟨recoveryBounded_of_apart hfree hcooldown hrecovery, joinBounded_of_apart hjoin,
    restoreBounded_of_apart hrestore⟩

/-- The policy of `POST /api/recovery/restore`. -/
def restorePolicy : RatePolicy where
  freeAttempts := 3
  cooldownSecs := 30
  windowSecs := 300
  freeAttempts_lt := by decide

/-- One wrong attempt after the other. -/
theorem failed_attempts_bounded_sequential :
    RecoveryBounded restorePolicy
        [.ask (), .attempt 0 false, .tell 0 (), .advance (fromSecs 30), .ask (),
          .attempt 0 false, .tell 0 ()] ∧
      JoinBounded [.ask (), .attempt 0 false, .tell 0 (), .ask (), .attempt 0 false, .tell 0 ()] ∧
      RestoreBounded [] [.ask {}, .attempt 0 false, .tell 0 {}, .ask {}] := by
  apply failed_attempts_bounded restorePolicy (by decide) (by decide)
  · simp [RecoveryApart, guarded, Apart, Op.apply, World.ask, World.start, World.withAttempt,
      World.tryWrong, World.tellFailed, World.untold, RatePolicy.CountFits,
      RatePolicy.recoveryLimiter, RatePolicy.check, RatePolicy.checkWindow, restorePolicy,
      IpRecord.retained, IpRecord.retain, IpRecord.recordFailure, isWithin, fromSecs]
  · simp [JoinApart, guarded, Apart, Op.apply, World.ask, World.start, World.withAttempt,
      World.tryWrong, World.tellFailed, World.untold, joinLimiter, joinCheck, joinWindowSecs,
      IpRecord.retained, IpRecord.retain, IpRecord.recordFailure, isWithin, fromSecs]
  · simp [RestoreApart, guarded, Apart, Op.apply, World.ask, World.start, World.withAttempt,
      World.tryWrong, World.untold, guardedVault, RestoreGuard.restoreLimiter,
      RestoreGuard.isBlocked, RestoreGuard.insertAttempt, asSecs]

/-- Two requests that are checked before either has failed are both tried, at the same moment, with
every limiter and past the guard. -/
theorem failed_attempts_outrun :
    ¬ RecoveryBounded restorePolicy [.ask (), .ask (), .attempt 0 false, .attempt 1 false] ∧
      ¬ JoinBounded [.ask (), .ask (), .ask (), .ask (), .attempt 0 false, .attempt 1 false,
        .attempt 2 false, .attempt 3 false] ∧
      ¬ RestoreBounded [] [.ask {}, .ask {}, .attempt 0 false, .attempt 1 false] := by
  refine ⟨?_, ?_, ?_⟩
  · intro h
    have hlast := (h _ (mem_states_last _ _ _)).1.apart
    simp [Op.apply, World.ask, World.start, World.withAttempt, World.tryWrong, World.untold,
      RatePolicy.recoveryLimiter, RatePolicy.check, RatePolicy.checkWindow, restorePolicy,
      IpRecord.retained, IpRecord.retain, fromSecs] at hlast
  · intro h
    have hlast := (h _ (mem_states_last _ _ _)).1
    simp [Op.apply, World.ask, World.start, World.withAttempt, World.tryWrong, World.untold,
      joinLimiter, joinCheck, IpRecord.retained, IpRecord.retain, DelaysKept, joinDelay,
      isWithin, joinWindowSecs, fromSecs] at hlast
  · intro h
    have hlast := h _ (mem_states_last _ _ _)
    simp [Op.apply, World.ask, World.start, World.withAttempt, World.tryWrong, World.untold,
      guardedVault, RestoreGuard.restoreLimiter, RestoreGuard.isBlocked, DayApart, fromSecs,
      asSecs] at hlast

end OmniDrive
