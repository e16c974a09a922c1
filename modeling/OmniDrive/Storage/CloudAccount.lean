import OmniDrive.Storage.CloudGuard

/-!
# The account of a day

The ledger says what each day has been charged for, and the counters should agree with it. A
correction goes to the counters of the day on which it is made, whatever day its request was charged
to.
-/

namespace OmniDrive

open Scripts GuardedRuns

namespace CloudGuard

/-! ## What is asked of the counters -/

/-- No counter is negative, the counters of the current day are what the ledger has of it, and the
operations of a day are within the limits. -/
structure Sound (config : AppConfig) (s : GuardState) : Prop where
  nonneg : ∀ day usage, s.rows day = some usage →
    0 ≤ usage.readOps ∧ 0 ≤ usage.writeOps ∧ 0 ≤ usage.egressBytes
  current : s.counters s.today = usedOn s.today s.ledger
  operations : ∀ day, (usedOn day s.ledger).readOps ≤ config.limits.readOps ∧
    (usedOn day s.ledger).writeOps ≤ config.limits.writeOps

/-- Whether a charge is within the limits. -/
def fitsLimits (config : AppConfig) (dayEpoch : ℤ) (delta : CloudUsage) (s : GuardState) : Bool :=
  ((s.counters dayEpoch).add delta).within config.limits

/-- A charge that is rejected and every write that is none leave the counters alone, and one that is
not rejected keeps the egress of the current day within its limit. -/
def Settled (config : AppConfig) (w : GuardWrite) (s : GuardState) : Prop :=
  match w with
  | .charge dayEpoch delta =>
    if fitsLimits config dayEpoch delta s then
      dayEpoch = s.today → (usedOn s.today (w.apply config s).ledger).egressBytes ≤
        config.limits.egressBytes
    else (w.apply config s).counters = s.counters
  | .correct _ _ _ => True
  | _ => (w.apply config s).counters = s.counters

/-- No counter reaches its largest value in an accepted charge; and a correction takes no more than
the counter has, and adds to the counter of the current day what the current day is due. -/
def Allowed (config : AppConfig) (w : GuardWrite) (s : GuardState) : Prop :=
  match w with
  | .charge dayEpoch delta => fitsLimits config dayEpoch delta s = true →
      (s.counters dayEpoch).readOps + delta.readOps ≤ i64Max ∧
      (s.counters dayEpoch).writeOps + delta.writeOps ≤ i64Max ∧
      (dayEpoch = s.today → (s.counters dayEpoch).egressBytes + delta.egressBytes ≤ i64Max)
  | .correct chargedOn dayEpoch deltaBytes =>
      0 ≤ (s.counters dayEpoch).egressBytes + deltaBytes ∧
      (if dayEpoch = s.today then
          saturatingAdd (s.counters dayEpoch).egressBytes deltaBytes -
            (s.counters dayEpoch).egressBytes
        else 0) =
        if chargedOn = s.today then deltaBytes else 0
  | _ => True

/-! ## What the scripts promise -/

/-- Days that are read are not ahead of the clock, and charges are not negative. -/
def Fits (w : GuardWrite) (s : GuardState) : Prop :=
  match w with
  | .charge dayEpoch delta =>
    dayEpoch ≤ s.today ∧ 0 ≤ delta.readOps ∧ 0 ≤ delta.writeOps ∧ 0 ≤ delta.egressBytes
  | .correct chargedOn dayEpoch _ => chargedOn ≤ s.today ∧ dayEpoch ≤ s.today
  | _ => True

def Later (s s' : GuardState) : Prop := s.today ≤ s'.today

theorem Later.refl (s : GuardState) : Later s s := le_refl s.today

theorem Later.trans (s t u : GuardState) (hst : Later s t) (htu : Later t u) : Later s u :=
  le_trans hst htu

section Promises

variable (config : AppConfig)

theorem today_apply_le (w : GuardWrite) (s : GuardState) : Later s (w.apply config s) := by
  cases w with
  | midnight =>
    change s.today ≤ s.today + 1
    omega
  | _ => exact le_refl s.today

theorem delta_nonneg (operation : GuardOperation) :
    0 ≤ operation.delta.readOps ∧ 0 ≤ operation.delta.writeOps ∧
      0 ≤ operation.delta.egressBytes := by
  cases operation with
  | read count estimatedEgressBytes =>
    exact ⟨le_max_right _ _, le_refl 0, le_max_right _ _⟩
  | write count => exact ⟨le_refl 0, le_max_right _ _, le_refl 0⟩

theorem promises_setCloudSuspension (reason : String) (s : GuardState) :
    (setCloudSuspension reason).Promises Later (GuardWrite.apply config) Fits
      (fun _ _ => True) s :=
  fun _ _ => ⟨trivial, fun _ _ => ⟨trivial, trivial⟩⟩

/-- A day that `current_decision` returns is not ahead of the clock. -/
theorem promises_currentDecision (operation : GuardOperation) (s : GuardState) :
    (currentDecision config operation).Promises Later (GuardWrite.apply config) Fits
      (fun result s => ∀ day, result.2 = some day → day ≤ s.today) s := by
  have hdryRun : (isDryRunActive config).Promises Later (GuardWrite.apply config) Fits
      (fun _ _ => True) s := by
    rw [isDryRunActive]
    split
    · exact trivial
    · exact fun _ _ => trivial
  refine hdryRun.bind fun dryRun s₁ _ => ?_
  cases dryRun with
  | true => exact fun day h => by cases h
  | false =>
    simp only [Bool.false_eq_true, if_false, isCloudSuspended, Script.query_bind,
      Script.execReturning_bind, Script.exec_bind]
    refine fun s₂ _ => ?_
    dsimp only
    split
    · exact fun _ _ day h => by cases h
    · refine fun s₃ _ s₄ hclock => ⟨⟨hclock, delta_nonneg operation⟩, ?_⟩
      dsimp only
      split
      · exact (promises_setCloudSuspension config _ _).bind fun _ _ _ day h => by cases h
      · refine fun s₅ hlater => ⟨trivial, ?_⟩
        rintro day hday
        obtain rfl := Option.some.inj hday
        exact le_trans hclock hlater

theorem promises_reconcileAll {chargedOn : ℤ} (corrections : List ℤ) {s : GuardState}
    (h : chargedOn ≤ s.today) :
    (reconcileAll chargedOn corrections).Promises Later (GuardWrite.apply config) Fits
      (fun _ _ => True) s := by
  have hreconcile : ∀ deltaBytes s, chargedOn ≤ s.today →
      (reconcileReadBytes chargedOn deltaBytes).Promises Later (GuardWrite.apply config) Fits
        (fun _ s => chargedOn ≤ s.today) s := by
    intro deltaBytes s h
    rw [reconcileReadBytes]
    split
    · exact h
    · intro s₁ h₁ s₂ h₂
      refine ⟨⟨le_trans h (le_trans h₁ h₂), h₂⟩, fun s₃ h₃ => ⟨trivial, ?_⟩⟩
      exact le_trans h (le_trans h₁ (le_trans h₂ h₃))
  induction corrections generalizing s with
  | nil => exact trivial
  | cons deltaBytes rest ih => exact (hreconcile deltaBytes s h).bind fun _ _ hclock => ih hclock

theorem promises_script (op : GuardOp) (s : GuardState) :
    (op.script config).Promises Later (GuardWrite.apply config) Fits (fun _ _ => True) s := by
  cases op with
  | setSystemConfigValue key value => exact fun _ _ => ⟨trivial, trivial⟩
  | midnight => exact fun _ _ => ⟨trivial, trivial⟩
  | request operation corrections =>
    refine (promises_currentDecision config operation s).bind ?_
    rintro ⟨decision, chargedOn⟩ s₁ hday
    cases chargedOn with
    | none => exact trivial
    | some day => exact promises_reconcileAll config corrections (hday day rfl)

end Promises

/-! ## Counters and sums -/

theorem saturatingAdd_eq {a b : ℤ} (hsum : 0 ≤ a + b) (hmax : a + b ≤ i64Max) :
    saturatingAdd a b = a + b := by
  simp only [saturatingAdd, i64Max] at *
  omega

theorem saturatingAdd_zero {a : ℤ} (hnonneg : 0 ≤ a) (hmax : a ≤ i64Max) :
    saturatingAdd a 0 = a := by
  rw [saturatingAdd_eq (by omega) (by omega), Int.add_zero]

theorem saturatingAdd_nonneg {a b : ℤ} (hsum : 0 ≤ a + b) : 0 ≤ saturatingAdd a b := by
  simp only [saturatingAdd, i64Max]
  omega

theorem saturatingAdd_le (a b : ℤ) : saturatingAdd a b ≤ i64Max := by
  simp only [saturatingAdd, i64Max]
  omega

theorem saturatingAdd_neg {a b : ℤ} (hsum : a + b < 0) : saturatingAdd a b < 0 := by
  simp only [saturatingAdd, i64Max]
  omega

theorem usedOn_cons (day : ℤ) (entry : LedgerEntry) (ledger : List LedgerEntry) :
    usedOn day (entry :: ledger) =
      if entry.day = day then
        { readOps := entry.amount.readOps + (usedOn day ledger).readOps
          writeOps := entry.amount.writeOps + (usedOn day ledger).writeOps
          egressBytes := entry.amount.egressBytes + (usedOn day ledger).egressBytes }
      else usedOn day ledger := by
  by_cases hday : entry.day = day
  · simp [usedOn, hday]
  · simp [usedOn, hday]

section Writes

variable {config : AppConfig} {s : GuardState}

theorem counters_update (rows : ℤ → Option CloudUsage) (dayEpoch day : ℤ) (usage : CloudUsage) :
    ((Function.update rows dayEpoch (some usage)) day).getD {} =
      if day = dayEpoch then usage else (rows day).getD {} := by
  by_cases hday : day = dayEpoch
  · simp [hday]
  · simp [hday]

/-- The counters behind a charge. -/
theorem counters_charge (dayEpoch : ℤ) (delta : CloudUsage) (day : ℤ) :
    ((GuardWrite.charge dayEpoch delta).apply config s).counters day =
      if day = dayEpoch ∧ fitsLimits config dayEpoch delta s = true then
        (s.counters dayEpoch).add delta
      else s.counters day := by
  change (Function.update s.rows dayEpoch _ day).getD {} = _
  rw [counters_update]
  by_cases hday : day = dayEpoch
  · subst hday
    rw [if_pos rfl]
    simp only [true_and]
    rfl
  · rw [if_neg hday, if_neg fun h => hday h.1]
    rfl

/-- The counters behind a correction. -/
theorem counters_correct (chargedOn dayEpoch deltaBytes day : ℤ) :
    ((GuardWrite.correct chargedOn dayEpoch deltaBytes).apply config s).counters day =
      if day = dayEpoch then (s.counters dayEpoch).add { egressBytes := deltaBytes }
      else s.counters day := by
  have hwithin : ((s.counters dayEpoch).add { egressBytes := deltaBytes }).within unlimited =
      true := by
    simp [CloudUsage.within, CloudUsage.add, unlimited, saturatingAdd_le]
  change (Function.update s.rows dayEpoch (some (if
    ((s.counters dayEpoch).add { egressBytes := deltaBytes }).within unlimited = true then
      (s.counters dayEpoch).add { egressBytes := deltaBytes } else s.counters dayEpoch)) day).getD {} = _
  rw [if_pos hwithin, counters_update]
  rfl

/-- The ledger behind a charge. -/
theorem ledger_charge (dayEpoch : ℤ) (delta : CloudUsage) :
    ((GuardWrite.charge dayEpoch delta).apply config s).ledger =
      if fitsLimits config dayEpoch delta s then ⟨dayEpoch, delta⟩ :: s.ledger else s.ledger := rfl

/-- What the account rests on: the operations of every day are counted, no counter is past its
largest value, and nothing is charged to days ahead. -/
structure Invariant (config : AppConfig) (s : GuardState) : Prop extends Sound config s where
  counted : ∀ day, (s.counters day).readOps = (usedOn day s.ledger).readOps ∧
    (s.counters day).writeOps = (usedOn day s.ledger).writeOps
  bounded : ∀ day, (s.counters day).readOps ≤ i64Max ∧ (s.counters day).writeOps ≤ i64Max
  ahead : ∀ day, s.today < day →
    s.rows day = none ∧ (usedOn day s.ledger).egressBytes = 0

theorem Sound.counters_nonneg (h : Sound config s) (day : ℤ) :
    0 ≤ (s.counters day).readOps ∧ 0 ≤ (s.counters day).writeOps ∧
      0 ≤ (s.counters day).egressBytes := by
  unfold GuardState.counters
  cases hrow : s.rows day with
  | none => exact ⟨le_refl 0, le_refl 0, le_refl 0⟩
  | some usage => exact h.nonneg day usage hrow

/-- Rows whose counters are not negative. -/
theorem nonneg_of_counters (h : ∀ day, 0 ≤ (s.counters day).readOps ∧
      0 ≤ (s.counters day).writeOps ∧ 0 ≤ (s.counters day).egressBytes) (day : ℤ)
    (usage : CloudUsage) (hrow : s.rows day = some usage) :
    0 ≤ usage.readOps ∧ 0 ≤ usage.writeOps ∧ 0 ≤ usage.egressBytes := by
  have hday := h day
  rw [GuardState.counters, hrow] at hday
  exact hday

/-! ## One write -/

theorem Invariant.midnight (h : Invariant config s) :
    Invariant config (GuardWrite.midnight.apply config s) where
  nonneg := h.nonneg
  current := by
    obtain ⟨hrow, hegress⟩ := h.ahead (s.today + 1) (by omega)
    obtain ⟨hread, hwrite⟩ := h.counted (s.today + 1)
    have hcounters : s.counters (s.today + 1) = {} := by rw [GuardState.counters, hrow]; rfl
    change s.counters (s.today + 1) = usedOn (s.today + 1) s.ledger
    rw [hcounters] at hread hwrite ⊢
    exact CloudUsage.ext hread hwrite hegress.symm
  operations := h.operations
  counted := h.counted
  bounded := h.bounded
  ahead := fun day hday => h.ahead day (by
    change s.today + 1 < day at hday
    omega)

/-- A charge that is rejected changes nothing. -/
theorem Invariant.rejected (h : Invariant config s) {dayEpoch : ℤ} {delta : CloudUsage}
    (hfits : dayEpoch ≤ s.today) (hrejected : fitsLimits config dayEpoch delta s = false) :
    Invariant config ((GuardWrite.charge dayEpoch delta).apply config s) := by
  have hcounters : ((GuardWrite.charge dayEpoch delta).apply config s).counters = s.counters := by
    funext day
    simp [counters_charge, hrejected]
  have hledger : ((GuardWrite.charge dayEpoch delta).apply config s).ledger = s.ledger := by
    simp [ledger_charge, hrejected]
  exact {
    nonneg := nonneg_of_counters fun day => by rw [hcounters]; exact h.counters_nonneg day
    current := by rw [hcounters, hledger]; exact h.current
    operations := by rw [hledger]; exact h.operations
    counted := by rw [hcounters, hledger]; exact h.counted
    bounded := by rw [hcounters]; exact h.bounded
    ahead := by
      intro day hday
      rw [hledger]
      refine ⟨?_, (h.ahead day hday).2⟩
      have hne : day ≠ dayEpoch := by
        change s.today < day at hday
        omega
      exact (Function.update_of_ne hne _ _).trans (h.ahead day hday).1 }

/-- A charge that is accepted is counted in full. -/
theorem Invariant.accepted (h : Invariant config s) {dayEpoch : ℤ} {delta : CloudUsage}
    (hfits : Fits (.charge dayEpoch delta) s)
    (hallowed : Allowed config (.charge dayEpoch delta) s)
    (haccepted : fitsLimits config dayEpoch delta s = true) :
    Invariant config ((GuardWrite.charge dayEpoch delta).apply config s) := by
  obtain ⟨s', hs'⟩ : ∃ s', s' = (GuardWrite.charge dayEpoch delta).apply config s := ⟨_, rfl⟩
  rw [← hs']
  have hnow : s'.today = s.today := by rw [hs']; rfl
  obtain ⟨hclock, hreadDelta, hwriteDelta, hegressDelta⟩ := hfits
  obtain ⟨hread, hwrite, hegress⟩ := hallowed haccepted
  obtain ⟨hreadOld, hwriteOld, hegressOld⟩ := h.counters_nonneg dayEpoch
  have hcounters : ∀ day, s'.counters day =
      if day = dayEpoch then (s.counters dayEpoch).add delta else s.counters day := by
    intro day
    rw [hs', counters_charge]
    simp [haccepted]
  have hledger : s'.ledger =
      ⟨dayEpoch, delta⟩ :: s.ledger := by
    rw [hs', ledger_charge, if_pos haccepted]
  have hreadNew : ((s.counters dayEpoch).add delta).readOps =
      (s.counters dayEpoch).readOps + delta.readOps := saturatingAdd_eq (by omega) hread
  have hwriteNew : ((s.counters dayEpoch).add delta).writeOps =
      (s.counters dayEpoch).writeOps + delta.writeOps := saturatingAdd_eq (by omega) hwrite
  have hcounted : ∀ day, (s'.counters day).readOps = (usedOn day s'.ledger).readOps ∧
      (s'.counters day).writeOps = (usedOn day s'.ledger).writeOps := by
    intro day
    obtain ⟨hreadDay, hwriteDay⟩ := h.counted day
    rw [hcounters, hledger, usedOn_cons]
    by_cases hday : day = dayEpoch
    · subst hday
      simp only [if_pos, hreadNew, hwriteNew]
      omega
    · rw [if_neg hday, if_neg (Ne.symm hday)]
      exact ⟨hreadDay, hwriteDay⟩
  have hwithin : ((s.counters dayEpoch).add delta).readOps ≤ config.limits.readOps ∧
      ((s.counters dayEpoch).add delta).writeOps ≤ config.limits.writeOps := by
    rw [fitsLimits, CloudUsage.within, Bool.and_eq_true, Bool.and_eq_true] at haccepted
    exact ⟨of_decide_eq_true haccepted.1.1, of_decide_eq_true haccepted.1.2⟩
  exact {
    nonneg := by
      apply nonneg_of_counters
      intro day
      rw [hcounters]
      split
      · rw [hreadNew, hwriteNew]
        exact ⟨by omega, by omega, saturatingAdd_nonneg (by omega)⟩
      · exact h.counters_nonneg day
    current := by
      rw [hnow]
      refine CloudUsage.ext (hcounted s.today).1 (hcounted s.today).2 ?_
      rw [hcounters, hledger, usedOn_cons]
      by_cases hday : dayEpoch = s.today
      · rw [if_pos hday.symm, if_pos hday]
        have hegressNew : ((s.counters dayEpoch).add delta).egressBytes =
            (s.counters dayEpoch).egressBytes + delta.egressBytes :=
          saturatingAdd_eq (by omega) (hegress hday)
        rw [hegressNew, hday, h.current, Int.add_comm]
      · rw [if_neg (Ne.symm hday), if_neg hday, h.current]
    operations := by
      intro day
      rw [← (hcounted day).1, ← (hcounted day).2, hcounters]
      split
      · exact hwithin
      · rw [(h.counted day).1, (h.counted day).2]
        exact h.operations day
    counted := hcounted
    bounded := by
      intro day
      rw [hcounters]
      split
      · exact ⟨saturatingAdd_le _ _, saturatingAdd_le _ _⟩
      · exact h.bounded day
    ahead := by
      intro day hday
      rw [hnow] at hday
      have hne : day ≠ dayEpoch := by omega
      rw [hledger, usedOn_cons, if_neg (Ne.symm hne), hs']
      exact ⟨(Function.update_of_ne hne _ _).trans (h.ahead day hday).1, (h.ahead day hday).2⟩ }

/-- After a correction the current counter agrees with the ledger just if both have moved alike. -/
theorem Invariant.correct_current_iff (h : Invariant config s) (chargedOn dayEpoch deltaBytes : ℤ) :
    (((GuardWrite.correct chargedOn dayEpoch deltaBytes).apply config s).counters
        s.today).egressBytes =
      (usedOn s.today (⟨chargedOn, { egressBytes := deltaBytes }⟩ :: s.ledger)).egressBytes ↔
    (if dayEpoch = s.today then
        saturatingAdd (s.counters dayEpoch).egressBytes deltaBytes - (s.counters dayEpoch).egressBytes
      else 0) =
      if chargedOn = s.today then deltaBytes else 0 := by
  have hold := congrArg CloudUsage.egressBytes h.current
  have hegress : ((s.counters dayEpoch).add { egressBytes := deltaBytes }).egressBytes =
      saturatingAdd (s.counters dayEpoch).egressBytes deltaBytes := rfl
  rw [counters_correct, usedOn_cons]
  by_cases hday : dayEpoch = s.today <;> by_cases hcharged : chargedOn = s.today
  · rw [if_pos hday.symm, if_pos hcharged, if_pos hday, if_pos hcharged, hegress, hday]
    dsimp only
    omega
  · rw [if_pos hday.symm, if_neg hcharged, if_pos hday, if_neg hcharged, hegress, hday]
    omega
  · rw [if_neg (Ne.symm hday), if_pos hcharged, if_neg hday, if_pos hcharged]
    dsimp only
    omega
  · rw [if_neg (Ne.symm hday), if_neg hcharged, if_neg hday, if_neg hcharged]
    exact iff_of_true hold rfl

/-- A correction of a request that the current day was charged for, or none of the current day. -/
theorem Invariant.correct (h : Invariant config s) {chargedOn dayEpoch deltaBytes : ℤ}
    (hfits : Fits (.correct chargedOn dayEpoch deltaBytes) s)
    (hallowed : Allowed config (.correct chargedOn dayEpoch deltaBytes) s) :
    Invariant config ((GuardWrite.correct chargedOn dayEpoch deltaBytes).apply config s) := by
  obtain ⟨s', hs'⟩ : ∃ s', s' = (GuardWrite.correct chargedOn dayEpoch deltaBytes).apply config s :=
    ⟨_, rfl⟩
  rw [← hs']
  have hnow : s'.today = s.today := by rw [hs']; rfl
  obtain ⟨hchargedClock, hclock⟩ := hfits
  obtain ⟨hsum, htoday⟩ := hallowed
  obtain ⟨hreadOld, hwriteOld, -⟩ := h.counters_nonneg dayEpoch
  obtain ⟨hreadMax, hwriteMax⟩ := h.bounded dayEpoch
  have hcounters : ∀ day, s'.counters day =
      if day = dayEpoch then (s.counters dayEpoch).add { egressBytes := deltaBytes }
      else s.counters day := by
    rw [hs']
    exact counters_correct chargedOn dayEpoch deltaBytes
  have hledger : s'.ledger = ⟨chargedOn, { egressBytes := deltaBytes }⟩ :: s.ledger := by
    rw [hs']
    rfl
  have hread : ((s.counters dayEpoch).add { egressBytes := deltaBytes }).readOps =
      (s.counters dayEpoch).readOps := saturatingAdd_zero hreadOld hreadMax
  have hwrite : ((s.counters dayEpoch).add { egressBytes := deltaBytes }).writeOps =
      (s.counters dayEpoch).writeOps := saturatingAdd_zero hwriteOld hwriteMax
  have hoperations : ∀ day, (s'.counters day).readOps = (s.counters day).readOps ∧
      (s'.counters day).writeOps = (s.counters day).writeOps := by
    intro day
    rw [hcounters]
    split
    · rename_i hday
      rw [hday]
      exact ⟨hread, hwrite⟩
    · exact ⟨rfl, rfl⟩
  have hused : ∀ day, (usedOn day s'.ledger).readOps = (usedOn day s.ledger).readOps ∧
      (usedOn day s'.ledger).writeOps = (usedOn day s.ledger).writeOps := by
    intro day
    rw [hledger, usedOn_cons]
    split
    · exact ⟨Int.zero_add _, Int.zero_add _⟩
    · exact ⟨rfl, rfl⟩
  have hcounted : ∀ day, (s'.counters day).readOps = (usedOn day s'.ledger).readOps ∧
      (s'.counters day).writeOps = (usedOn day s'.ledger).writeOps := by
    intro day
    rw [(hoperations day).1, (hoperations day).2, (hused day).1, (hused day).2]
    exact h.counted day
  exact {
    nonneg := by
      apply nonneg_of_counters
      intro day
      rw [(hoperations day).1, (hoperations day).2]
      obtain ⟨hreadDay, hwriteDay, hegressDay⟩ := h.counters_nonneg day
      refine ⟨hreadDay, hwriteDay, ?_⟩
      rw [hcounters]
      split
      · exact saturatingAdd_nonneg hsum
      · exact hegressDay
    current := by
      rw [hnow]
      refine CloudUsage.ext (hcounted s.today).1 (hcounted s.today).2 ?_
      rw [hledger, hs']
      exact (h.correct_current_iff chargedOn dayEpoch deltaBytes).mpr htoday
    operations := by
      intro day
      rw [(hused day).1, (hused day).2]
      exact h.operations day
    counted := hcounted
    bounded := by
      intro day
      rw [(hoperations day).1, (hoperations day).2]
      exact h.bounded day
    ahead := by
      intro day hday
      rw [hnow] at hday
      have hne : day ≠ dayEpoch := by omega
      have hother : chargedOn ≠ day := by omega
      rw [hledger, usedOn_cons, if_neg hother, hs']
      exact ⟨(Function.update_of_ne hne _ _).trans (h.ahead day hday).1, (h.ahead day hday).2⟩ }

/-- Every write that is allowed keeps the account. -/
theorem Invariant.apply (h : Invariant config s) {w : GuardWrite} (hfits : Fits w s)
    (hallowed : Allowed config w s) : Invariant config (w.apply config s) := by
  cases w with
  | setSystemConfigValue key value =>
    exact ⟨⟨h.nonneg, h.current, h.operations⟩, h.counted, h.bounded, h.ahead⟩
  | addSession delta =>
    exact ⟨⟨h.nonneg, h.current, h.operations⟩, h.counted, h.bounded, h.ahead⟩
  | midnight => exact h.midnight
  | charge dayEpoch delta =>
    cases haccepted : fitsLimits config dayEpoch delta s with
    | true => exact h.accepted hfits hallowed haccepted
    | false => exact h.rejected hfits.1 haccepted
  | correct chargedOn dayEpoch deltaBytes => exact h.correct hfits hallowed

/-- A charge that reaches the largest value of a counter breaks the account. -/
theorem Invariant.not_sound_charge (h : Invariant config s) {dayEpoch : ℤ} {delta : CloudUsage}
    (hallowed : ¬ Allowed config (.charge dayEpoch delta) s) :
    ¬ Sound config ((GuardWrite.charge dayEpoch delta).apply config s) := by
  intro hsound
  apply hallowed
  intro haccepted
  have hledger : ((GuardWrite.charge dayEpoch delta).apply config s).ledger =
      ⟨dayEpoch, delta⟩ :: s.ledger := by
    rw [ledger_charge, if_pos haccepted]
  obtain ⟨hread, hwrite⟩ := hsound.operations dayEpoch
  rw [hledger, usedOn_cons, if_pos rfl] at hread hwrite
  obtain ⟨hreadOld, hwriteOld⟩ := h.counted dayEpoch
  have hreadLimit : config.limits.readOps ≤ i64Max := min_le_right _ _
  have hwriteLimit : config.limits.writeOps ≤ i64Max := min_le_right _ _
  refine ⟨by dsimp only at hread; omega, by dsimp only at hwrite; omega, ?_⟩
  rintro rfl
  have hcurrent := congrArg CloudUsage.egressBytes hsound.current
  change (((GuardWrite.charge s.today delta).apply config s).counters s.today).egressBytes =
    (usedOn s.today ((GuardWrite.charge s.today delta).apply config s).ledger).egressBytes
    at hcurrent
  rw [counters_charge, if_pos ⟨rfl, haccepted⟩, hledger, usedOn_cons, if_pos rfl,
    ← h.current] at hcurrent
  have hmax := saturatingAdd_le (s.counters s.today).egressBytes delta.egressBytes
  have hegress : ((s.counters s.today).add delta).egressBytes =
      saturatingAdd (s.counters s.today).egressBytes delta.egressBytes := rfl
  dsimp only at hcurrent
  omega

/-- So does a correction on another day, or of more than the counter has. -/
theorem Invariant.not_sound_correct (h : Invariant config s) {chargedOn dayEpoch deltaBytes : ℤ}
    (hallowed : ¬ Allowed config (.correct chargedOn dayEpoch deltaBytes) s) :
    ¬ Sound config ((GuardWrite.correct chargedOn dayEpoch deltaBytes).apply config s) := by
  intro hsound
  apply hallowed
  have hegress : ((s.counters dayEpoch).add { egressBytes := deltaBytes }).egressBytes =
      saturatingAdd (s.counters dayEpoch).egressBytes deltaBytes := rfl
  constructor
  · by_contra hneg
    have hnonneg := (hsound.counters_nonneg dayEpoch).2.2
    rw [counters_correct, if_pos rfl, hegress] at hnonneg
    have := saturatingAdd_neg (by omega : (s.counters dayEpoch).egressBytes + deltaBytes < 0)
    omega
  · exact (h.correct_current_iff chargedOn dayEpoch deltaBytes).mp
      (congrArg CloudUsage.egressBytes hsound.current)

theorem Invariant.not_sound (h : Invariant config s) {w : GuardWrite}
    (hallowed : ¬ Allowed config w s) : ¬ Sound config (w.apply config s) := by
  cases w with
  | charge dayEpoch delta => exact h.not_sound_charge hallowed
  | correct chargedOn dayEpoch deltaBytes => exact h.not_sound_correct hallowed
  | _ => exact absurd trivial hallowed

theorem Invariant.settled (h : Invariant config s) {w : GuardWrite} (hfits : Fits w s)
    (hallowed : Allowed config w s) : Settled config w s := by
  cases w with
  | setSystemConfigValue key value => rfl
  | addSession delta => rfl
  | midnight => rfl
  | correct chargedOn dayEpoch deltaBytes => exact trivial
  | charge dayEpoch delta =>
    rw [Settled]
    split
    · rename_i haccepted
      rintro rfl
      have hnext := h.accepted hfits hallowed haccepted
      have hcurrent := congrArg CloudUsage.egressBytes hnext.current
      change (((GuardWrite.charge s.today delta).apply config s).counters s.today).egressBytes =
        (usedOn s.today ((GuardWrite.charge s.today delta).apply config s).ledger).egressBytes
        at hcurrent
      rw [← hcurrent, counters_charge, if_pos ⟨rfl, haccepted⟩]
      rw [fitsLimits, CloudUsage.within, Bool.and_eq_true] at haccepted
      exact of_decide_eq_true haccepted.2
    · rename_i hrejected
      funext day
      rw [counters_charge, if_neg fun hboth => hrejected hboth.2]

end Writes

/-! ## Runs -/

/-- In every run of requests and corrections whose statements interleave, over any number of days,
the account is sound just if no counter reaches its largest value and each correction falls on a day
on which it is due. -/
theorem account_iff (config : AppConfig) (systemConfig : String → Option String) (today : ℤ)
    (events : List (Event GuardOp)) :
    ((∀ t ∈ states (Event.apply (GuardOp.script config) (GuardWrite.apply config)) events
        { state := { systemConfig, today } }, Sound config t.state) ∧
      guarded (Event.apply (GuardOp.script config) (GuardWrite.apply config))
        (OnWrites (Settled config)) events { state := { systemConfig, today } }) ↔
      guarded (Event.apply (GuardOp.script config) (GuardWrite.apply config))
        (OnWrites (Allowed config)) events { state := { systemConfig, today } } := by
  have hstart : Invariant config { systemConfig, today } := by
    have hmax : 0 ≤ i64Max := by decide
    have hlimit : ∀ n : ℕ, 0 ≤ min (n : ℤ) i64Max := fun n => le_min (Int.natCast_nonneg n) hmax
    exact {
      nonneg := fun day usage h => by cases h
      current := rfl
      operations := fun day => ⟨hlimit _, hlimit _⟩
      counted := fun day => ⟨rfl, rfl⟩
      bounded := fun day => ⟨hmax, hmax⟩
      ahead := fun day _ => ⟨rfl, rfl⟩ }
  have hfits : guarded (Event.apply (GuardOp.script config) (GuardWrite.apply config))
      (OnWrites Fits) events { state := { systemConfig, today } } := by
    apply guarded_fits Later.refl Later.trans (fun w s _ => today_apply_le config w s)
      (promises_script config)
    intro t ht
    cases ht
  have hkeep : ∀ w s, Invariant config s → Fits w s → Allowed config w s →
      Invariant config (w.apply config s) := fun w s h hfits hallowed => h.apply hfits hallowed
  have hsound := good_iff_onWrites (fun s (h : Invariant config s) => h.toSound) hkeep
    (fun w s h _ hallowed => h.not_sound hallowed) hstart hfits
  rw [hsound]
  constructor
  · exact And.left
  · intro hguard
    exact ⟨hguard, onWrites_of_inv hkeep (fun w s h hfits hallowed => h.settled hfits hallowed)
      hstart hfits hguard⟩

/-- A configuration with room for both. -/
def smallLimits : AppConfig where
  dryRunActive := false
  cloudDailyReadOpsLimit := 10
  cloudDailyWriteOpsLimit := 10
  cloudDailyEgressBytesLimit := 1000

/-- A read of 100 bytes is charged before midnight, and after it turns out to have had 60. -/
def lateCorrection : List (Event GuardOp) :=
  .start (.request (.read 1 100) [-40]) :: List.replicate 5 (.stmt 0) ++
  [.start .midnight, .stmt 1, .stmt 0, .stmt 0]

def lateCorrectionEnd : GuardState :=
  (lateCorrection.foldl (fun t e =>
    Event.apply (GuardOp.script smallLimits) (GuardWrite.apply smallLimits) e t)
    { state := { systemConfig := fun _ => none, today := 0 } }).state

/-- The new day begins with a negative counter. -/
theorem lateCorrection_negative : ¬ ∀ events : List (Event GuardOp),
    ∀ t ∈ states (Event.apply (GuardOp.script smallLimits) (GuardWrite.apply smallLimits)) events
      { state := { systemConfig := fun _ => none, today := 0 } }, Sound smallLimits t.state := by
  intro h
  have hlast : Sound smallLimits lateCorrectionEnd := h lateCorrection _ (mem_states_last _ _ _)
  have hrow : lateCorrectionEnd.rows 1 = some ⟨0, 0, -40⟩ := by decide
  exact absurd (hlast.nonneg 1 _ hrow).2.2 (by decide)

end CloudGuard

end OmniDrive
