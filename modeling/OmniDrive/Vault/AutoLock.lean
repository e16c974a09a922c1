import Mathlib.Data.List.MinMax
import Mathlib.Data.Int.Order.Basic
import OmniDrive.Library.GuardedRuns

/-!
# The idle-timeout lock

The monitor keeps the second of the last activity and the timeout. A tick loads the clock and both
values, compares them, asks for the key and then locks, and anything may happen between these.
An unlock publishes the keys first and stamps the activity afterwards.
-/

namespace OmniDrive

open GuardedRuns

/-! ## The monitor -/

def DEFAULT_IDLE_MIN : ℕ := 15

def ALLOWED_PRESETS : List ℕ := [5, 15, 30, 60]

inductive AutoLockError where
  | init
  | invalidPreset (minutes : ℕ)
  deriving DecidableEq

/-- The two values of the monitor, with the timeout that is never zero. -/
structure AutoLockMonitor where
  lastActivity : ℕ
  idleTimeoutSecs : ℕ
  timeout_pos : 0 < idleTimeoutSecs

/-- The preset nearest to a value, the smaller one of two. -/
def clampToPreset (n : ℕ) : ℕ :=
  (ALLOWED_PRESETS.argmin fun p : ℕ => ((p : ℤ) - n).natAbs).getD DEFAULT_IDLE_MIN

/-- The stored value is given as the number it parses to. -/
def resolveMinutesFromDb (value : Option ℕ) : ℕ :=
  match value with
  | some n => if n ∈ ALLOWED_PRESETS then n else clampToPreset n
  | none => DEFAULT_IDLE_MIN

theorem pos_of_mem_presets {n : ℕ} (h : n ∈ ALLOWED_PRESETS) : 0 < n := by
  simp only [ALLOWED_PRESETS, List.mem_cons, List.not_mem_nil, or_false] at h
  omega

theorem clampToPreset_mem (n : ℕ) : clampToPreset n ∈ ALLOWED_PRESETS := by
  unfold clampToPreset
  cases h : ALLOWED_PRESETS.argmin fun p : ℕ => ((p : ℤ) - n).natAbs with
  | none => simp [ALLOWED_PRESETS] at h
  | some p => simpa using List.argmin_mem (by simpa using h)

/-- The minutes taken from the database are always a preset. -/
theorem resolveMinutesFromDb_mem (value : Option ℕ) :
    resolveMinutesFromDb value ∈ ALLOWED_PRESETS := by
  cases value with
  | none => simp [resolveMinutesFromDb, ALLOWED_PRESETS, DEFAULT_IDLE_MIN]
  | some n =>
    by_cases h : n ∈ ALLOWED_PRESETS
    · simp [resolveMinutesFromDb, h]
    · simp [resolveMinutesFromDb, h, clampToPreset_mem]

/-- The minutes the monitor starts with. A debug build prefers a positive `testMin`. -/
def startMinutes (value testMin : Option ℕ) : ℕ :=
  (testMin.filter (0 < ·)).getD (resolveMinutesFromDb value)

theorem startMinutes_pos (value testMin : Option ℕ) : 0 < startMinutes value testMin := by
  have hdb : 0 < resolveMinutesFromDb value := pos_of_mem_presets (resolveMinutesFromDb_mem value)
  cases testMin with
  | none => simpa [startMinutes] using hdb
  | some m => by_cases hm : 0 < m <;> simp [startMinutes, Option.filter, hm, hdb]

namespace AutoLockMonitor

def init (value testMin : Option ℕ) : AutoLockMonitor where
  lastActivity := 0
  idleTimeoutSecs := startMinutes value testMin * 60
  timeout_pos := Nat.mul_pos (startMinutes_pos value testMin) (by decide)

variable (mon : AutoLockMonitor)

/-- No touch recorded yet is read as a countdown that has not started. -/
def remainingSecs (now : ℕ) : ℕ :=
  if mon.lastActivity = 0 then mon.idleTimeoutSecs
  else mon.idleTimeoutSecs - (now - mon.lastActivity)

/-- The timeout changes after the database has taken it. -/
def setTimeoutMinutes (m : ℕ) (stored : Bool) : Except AutoLockError AutoLockMonitor :=
  if h : m ∈ ALLOWED_PRESETS then
    if stored then
      .ok { mon with
        idleTimeoutSecs := m * 60
        timeout_pos := Nat.mul_pos (pos_of_mem_presets h) (by decide) }
    else .error .init
  else .error (.invalidPreset m)

def touch (now : ℕ) : AutoLockMonitor := { mon with lastActivity := now }

/-- Setting the timeout leaves the activity alone. -/
theorem setTimeoutMinutes_lastActivity {m : ℕ} {stored : Bool} {mon' : AutoLockMonitor}
    (h : mon.setTimeoutMinutes m stored = .ok mon') : mon'.lastActivity = mon.lastActivity := by
  unfold setTimeoutMinutes at h
  split at h
  · split at h
    · cases h
      rfl
    · cases h
  · cases h

end AutoLockMonitor

/-! ## The daemon around it -/

/-- Where the tick loop stands, with the values it has loaded. -/
inductive TickPoint where
  | sleeping
  | loaded (now last timeout : ℕ)
  | requireKey
  | forceLock
  deriving DecidableEq

/-- The daemon as far as the monitor sees it. `untouched` are the times of the unlocks that have
not stamped the activity yet. `activity` and `due` are not stored anywhere: the times of all
touches and unlocks so far, and whether the tick under way found a vault unlocked and idle. -/
structure AutoLockWorld where
  now : ℕ
  monitor : AutoLockMonitor
  unlocked : Bool
  tick : TickPoint
  untouched : List ℕ
  activity : List ℕ
  due : Bool

namespace AutoLockWorld

variable (w : AutoLockWorld)

/-- No touch and no unlock within the last timeout. -/
def Idle : Prop := ∀ a ∈ w.activity, a + w.monitor.idleTimeoutSecs ≤ w.now

instance : Decidable w.Idle := inferInstanceAs (Decidable (∀ a ∈ w.activity, _))

def start (value testMin : Option ℕ) : AutoLockWorld where
  now := 0
  monitor := .init value testMin
  unlocked := false
  tick := .sleeping
  untouched := []
  activity := []
  due := false

def touched : AutoLockWorld :=
  { w with monitor := w.monitor.touch w.now, activity := w.now :: w.activity }

/-- The next part of the tick loop: the load of the clock, the stamp and the timeout, their
comparison, `require_key`, and `force_lock_and_dismount`. -/
def tickNext : AutoLockWorld :=
  match w.tick with
  | .sleeping =>
    { w with
      tick := .loaded w.now w.monitor.lastActivity w.monitor.idleTimeoutSecs
      due := w.unlocked && decide w.Idle }
  | .loaded now last timeout =>
    if now - last < timeout then { w with tick := .sleeping } else { w with tick := .requireKey }
  | .requireKey => { w with tick := if w.unlocked then .forceLock else .sleeping }
  | .forceLock => { w with unlocked := false, tick := .sleeping }

/-- A whole tick with nothing in between. -/
def wholeTick : AutoLockWorld := w.tickNext.tickNext.tickNext.tickNext

/-- A tick at this moment would lock an unlocked vault. -/
def WouldLock : Prop :=
  ({ w with unlocked := true, tick := .sleeping } : AutoLockWorld).wholeTick.unlocked = false

end AutoLockWorld

/-- What happens to the daemon. A successful unlock publishes the keys, and the touch that
follows it is a step of its own. -/
inductive AutoLockOp where
  | advance (secs : ℕ)
  | unlock
  | touchOfUnlock (i : ℕ)
  | touch
  | setTimeout (minutes : ℕ) (stored : Bool)
  | lock
  | tick

namespace AutoLockOp

def apply : AutoLockOp → AutoLockWorld → AutoLockWorld
  | .advance secs, w => { w with now := w.now + secs }
  | .unlock, w =>
    { w with
      unlocked := true
      untouched := w.untouched ++ [w.now]
      activity := w.now :: w.activity }
  | .touchOfUnlock i, w =>
    if i < w.untouched.length then { w.touched with untouched := w.untouched.eraseIdx i } else w
  | .touch, w => w.touched
  | .setTimeout minutes stored, w =>
    { w with monitor := ((w.monitor.setTimeoutMinutes minutes stored).toOption).getD w.monitor }
  | .lock, w => { w with unlocked := false }
  | .tick, w => w.tickNext

end AutoLockOp

/-! ## What holds along every run -/

namespace AutoLockWorld

/-- Every touch and unlock lies behind the stamp or is an unlock that has not stamped yet, and a
tick that found the vault idle passes its comparison. -/
structure Inv (w : AutoLockWorld) : Prop where
  seen : ∀ a ∈ w.activity, a ≤ w.monitor.lastActivity ∨ a ∈ w.untouched
  past : ∀ a ∈ w.activity, a ≤ w.now
  stamp : w.monitor.lastActivity = 0 ∨ w.monitor.lastActivity ∈ w.activity
  pending : ∀ u ∈ w.untouched, u ∈ w.activity
  active : w.unlocked = true → w.activity ≠ []
  passes : ∀ now last timeout, w.tick = .loaded now last timeout → w.due = true →
    timeout ≤ now - last

theorem inv_start (value testMin : Option ℕ) : (start value testMin).Inv where
  seen := by simp [start]
  past := by simp [start]
  stamp := .inl rfl
  pending := by simp [start]
  active := by simp [start]
  passes := by simp [start]

variable {w : AutoLockWorld}

/-- The stamp is never ahead of the clock. -/
theorem Inv.stamp_le (h : w.Inv) : w.monitor.lastActivity ≤ w.now := by
  cases h.stamp with
  | inl h0 => omega
  | inr hmem => exact h.past _ hmem

/-- An unlocked vault on which nothing happened within the timeout shows it in the stamp. -/
theorem Inv.stamp_idle (h : w.Inv) (hunlocked : w.unlocked = true) (hidle : w.Idle) :
    w.monitor.lastActivity + w.monitor.idleTimeoutSecs ≤ w.now := by
  cases h.stamp with
  | inr hmem => exact hidle _ hmem
  | inl h0 =>
    obtain ⟨a, ha⟩ := List.exists_mem_of_ne_nil _ (h.active hunlocked)
    have := hidle a ha
    omega

/-- While the vault is unlocked, it is idle exactly when the stamp and the unlocks without one are
a timeout old. -/
theorem Inv.idle_iff (h : w.Inv) (hunlocked : w.unlocked = true) :
    w.Idle ↔ w.monitor.lastActivity + w.monitor.idleTimeoutSecs ≤ w.now ∧
      ∀ u ∈ w.untouched, u + w.monitor.idleTimeoutSecs ≤ w.now := by
  constructor
  · intro hidle
    exact ⟨h.stamp_idle hunlocked hidle, fun u hu => hidle u (h.pending u hu)⟩
  · intro hold a ha
    cases h.seen a ha with
    | inl hle =>
      have := hold.1
      omega
    | inr hmem => exact hold.2 a hmem

/-- A touch stamps everything that has happened. -/
theorem Inv.le_touched (h : w.Inv) :
    ∀ a ∈ w.touched.activity, a ≤ w.touched.monitor.lastActivity := by
  intro a ha
  have hor : a = w.now ∨ a ∈ w.activity := by simpa [AutoLockWorld.touched] using ha
  cases hor with
  | inl heq => exact heq.le
  | inr hmem => exact h.past a hmem

theorem Inv.touched (h : w.Inv) : w.touched.Inv where
  seen := fun a ha => .inl (h.le_touched a ha)
  past := by simpa [AutoLockWorld.touched] using h.past
  stamp := .inr (by simp [AutoLockWorld.touched, AutoLockMonitor.touch])
  pending := fun u hu => List.mem_cons_of_mem _ (h.pending u hu)
  active := by simp [AutoLockWorld.touched]
  passes := h.passes

theorem Inv.tickNext (h : w.Inv) : w.tickNext.Inv := by
  unfold AutoLockWorld.tickNext
  split
  · refine { h with passes := ?_ }
    intro now last timeout hpoint hdue
    have hold : w.unlocked = true ∧ w.Idle := by simpa using hdue
    have := h.stamp_idle hold.1 hold.2
    simp only [TickPoint.loaded.injEq] at hpoint
    omega
  · split
    · exact { h with passes := by simp }
    · exact { h with passes := by simp }
  · exact { h with passes := by cases w.unlocked <;> simp }
  · exact { h with active := by simp, passes := by simp }

theorem Inv.apply (o : AutoLockOp) (h : w.Inv) : (o.apply w).Inv := by
  cases o with
  | advance secs =>
    refine { h with past := ?_ }
    intro a ha
    exact (h.past a ha).trans (Nat.le_add_right w.now secs)
  | unlock =>
    refine { h with seen := ?_, past := ?_, stamp := ?_, pending := ?_, active := by simp [AutoLockOp.apply] }
    · intro a ha
      have hor : a = w.now ∨ a ∈ w.activity := by simpa [AutoLockOp.apply] using ha
      cases hor with
      | inl heq => exact .inr (by simp [AutoLockOp.apply, heq])
      | inr hmem => exact (h.seen a hmem).imp_right fun hu => List.mem_append_left _ hu
    · intro a ha
      have hor : a = w.now ∨ a ∈ w.activity := by simpa [AutoLockOp.apply] using ha
      cases hor with
      | inl heq => exact heq.le
      | inr hmem => exact h.past a hmem
    · exact h.stamp.imp_right fun hmem => List.mem_cons_of_mem _ hmem
    · intro u hu
      have hor : u ∈ w.untouched ∨ u = w.now := by simpa [AutoLockOp.apply] using hu
      cases hor with
      | inl hmem => exact List.mem_cons_of_mem _ (h.pending u hmem)
      | inr heq => simp [AutoLockOp.apply, heq]
  | touchOfUnlock i =>
    by_cases hi : i < w.untouched.length
    · simp only [AutoLockOp.apply, hi, if_true]
      exact { h.touched with
        seen := fun a ha => .inl (h.le_touched a ha)
        pending := fun u hu => h.touched.pending u (List.mem_of_mem_eraseIdx hu) }
    · simpa [AutoLockOp.apply, hi] using h
  | touch => exact h.touched
  | setTimeout minutes stored =>
    have hlast : ((w.monitor.setTimeoutMinutes minutes stored).toOption.getD w.monitor).lastActivity
        = w.monitor.lastActivity := by
      cases hset : w.monitor.setTimeoutMinutes minutes stored with
      | error e => rfl
      | ok mon => exact w.monitor.setTimeoutMinutes_lastActivity hset
    exact { h with
      seen := by simpa [AutoLockOp.apply, hlast] using h.seen
      stamp := by simpa [AutoLockOp.apply, hlast] using h.stamp }
  | lock => exact { h with active := by simp [AutoLockOp.apply] }
  | tick => exact h.tickNext

/-! ## What the lock promises -/

/-- A tick locks a vault only if it is idle. -/
def LocksIdle : AutoLockOp → AutoLockWorld → Prop
  | .tick, w => w.tick = .forceLock → w.unlocked = true → w.Idle
  | _, _ => True

/-- A tick that found an idle vault ends with it locked. -/
def EndsLocked : AutoLockOp → AutoLockWorld → Prop
  | .tick, w => w.tick ≠ .sleeping → w.tickNext.tick = .sleeping → w.due = true →
      w.tickNext.unlocked = false
  | _, _ => True

/-- The countdown shown is over exactly when a tick would lock. -/
def CountsDown (w : AutoLockWorld) : Prop :=
  w.monitor.remainingSecs w.now = 0 ↔ w.WouldLock

/-- The last statement of a tick finds the stamp and the unlocks without one a timeout old. -/
def StillIdle : AutoLockOp → AutoLockWorld → Prop
  | .tick, w => w.tick = .forceLock → w.unlocked = true →
      w.monitor.lastActivity + w.monitor.idleTimeoutSecs ≤ w.now ∧
        ∀ u ∈ w.untouched, u + w.monitor.idleTimeoutSecs ≤ w.now
  | _, _ => True

theorem locksIdle_iff (o : AutoLockOp) (h : w.Inv) : LocksIdle o w ↔ StillIdle o w := by
  cases o with
  | tick =>
    simp only [LocksIdle, StillIdle]
    exact forall₂_congr fun _ hunlocked => h.idle_iff hunlocked
  | _ => rfl

/-- No tick that found the vault idle leaves it unlocked. -/
theorem endsLocked (o : AutoLockOp) (h : w.Inv) : EndsLocked o w := by
  cases o with
  | tick =>
    intro hawake hsleep hdue
    unfold AutoLockWorld.tickNext at hsleep ⊢
    cases hpoint : w.tick with
    | sleeping => exact absurd hpoint hawake
    | loaded now last timeout =>
      have hpass := h.passes now last timeout hpoint hdue
      simp [hpoint, Nat.not_lt.mpr hpass] at hsleep
    | requireKey => cases hkey : w.unlocked <;> simp [hpoint, hkey] at hsleep ⊢
    | forceLock => rfl
  | _ => trivial

/-- A tick compares the stamp with the clock, also when nothing has been stamped. -/
theorem wouldLock_iff (w : AutoLockWorld) :
    w.WouldLock ↔ w.monitor.idleTimeoutSecs ≤ w.now - w.monitor.lastActivity := by
  by_cases h : w.now - w.monitor.lastActivity < w.monitor.idleTimeoutSecs
  · simp [WouldLock, wholeTick, AutoLockWorld.tickNext, h]
  · simp [WouldLock, wholeTick, AutoLockWorld.tickNext, h, Nat.not_lt.mp h]

/-- The two readings of a stamp of zero part once the clock has reached the timeout. -/
theorem countsDown_iff (w : AutoLockWorld) :
    w.CountsDown ↔ (w.monitor.lastActivity = 0 → w.now < w.monitor.idleTimeoutSecs) := by
  have hpos := w.monitor.timeout_pos
  rw [CountsDown, wouldLock_iff, AutoLockMonitor.remainingSecs]
  by_cases h : w.monitor.lastActivity = 0
  · simp only [h, if_true, true_implies]
    omega
  · simp only [h, if_false, false_implies, iff_true]
    omega

end AutoLockWorld

/-! ## Whole runs -/

section Runs

variable (value testMin : Option ℕ) (ops : List AutoLockOp)

/-- The states a daemon passes through. -/
def autoLockStates : List AutoLockWorld :=
  states AutoLockOp.apply ops (.start value testMin)

/-- Every step of a daemon's run meets its condition. -/
def everyStep (cond : AutoLockOp → AutoLockWorld → Prop) : Prop :=
  guarded AutoLockOp.apply cond ops (.start value testMin)

/-- The idle lock fires after, and only after, an idle timeout, and the countdown agrees. -/
def AutoLockHolds : Prop :=
  everyStep value testMin ops AutoLockWorld.LocksIdle ∧
    everyStep value testMin ops AutoLockWorld.EndsLocked ∧
      ∀ w ∈ autoLockStates value testMin ops, w.CountsDown

variable {value testMin ops}

/-- What follows from the invariant holds of every step. -/
theorem everyStep_of_inv {cond promise : AutoLockOp → AutoLockWorld → Prop}
    (h : ∀ o w, w.Inv → cond o w → promise o w) (hcond : everyStep value testMin ops cond) :
    everyStep value testMin ops promise := by
  have hkeep : ∀ o (w : AutoLockWorld), w.Inv → True → cond o w → (AutoLockOp.apply o w).Inv :=
    fun o _ hw _ _ => hw.apply o
  refine guarded_of_inv AutoLockOp.apply (fun _ _ => True) cond AutoLockWorld.Inv hkeep ?_
    (AutoLockWorld.inv_start value testMin) ?_ hcond
  · intro o w hw _ ho
    exact h o w hw ho
  · exact guarded_of_forall AutoLockOp.apply (fun _ _ => trivial) ops _

end Runs

/-- The idle lock keeps its promises in exactly the runs whose locking steps find the stamp and
the unlocks without one still a timeout old, and in which no vault stays without a stamp until
the clock reaches the timeout. -/
theorem auto_lock_holds_iff (value testMin : Option ℕ) (ops : List AutoLockOp) :
    AutoLockHolds value testMin ops ↔
      everyStep value testMin ops AutoLockWorld.StillIdle ∧
        ∀ w ∈ autoLockStates value testMin ops,
          w.monitor.lastActivity = 0 → w.now < w.monitor.idleTimeoutSecs := by
  have hcount : (∀ w ∈ autoLockStates value testMin ops, w.CountsDown) ↔
      ∀ w ∈ autoLockStates value testMin ops,
        w.monitor.lastActivity = 0 → w.now < w.monitor.idleTimeoutSecs :=
    forall₂_congr fun w _ => w.countsDown_iff
  have hany : everyStep value testMin ops fun _ _ => True :=
    guarded_of_forall AutoLockOp.apply (fun _ _ => trivial) ops _
  have hends : everyStep value testMin ops AutoLockWorld.EndsLocked :=
    everyStep_of_inv (fun o w hw _ => AutoLockWorld.endsLocked o hw) hany
  constructor
  · intro h
    exact ⟨everyStep_of_inv (fun o w hw ho => (AutoLockWorld.locksIdle_iff o hw).mp ho) h.1,
      hcount.mp h.2.2⟩
  · intro h
    exact ⟨everyStep_of_inv (fun o w hw ho => (AutoLockWorld.locksIdle_iff o hw).mpr ho) h.1,
      hends, hcount.mpr h.2⟩

/-- An unlock between the load and the comparison of a tick is locked at once, and a daemon that
nothing touches shows a full countdown forever. -/
theorem auto_lock_fires_at_unlock :
    ¬ AutoLockHolds none none [.advance 1000, .tick, .unlock, .tick, .tick, .tick] ∧
      ¬ AutoLockHolds none none [.advance 900] := by
  constructor
  · intro h
    have hlocks := h.1
    simp [everyStep, guarded, AutoLockOp.apply, AutoLockWorld.start, AutoLockWorld.tickNext,
      AutoLockMonitor.init, startMinutes, resolveMinutesFromDb, DEFAULT_IDLE_MIN,
      AutoLockWorld.LocksIdle, AutoLockWorld.Idle] at hlocks
  · intro h
    have hmem : AutoLockOp.apply (.advance 900) (.start none none) ∈
        autoLockStates none none [.advance 900] := by
      simp [autoLockStates, states]
    have hcount := (AutoLockWorld.countsDown_iff _).mp (h.2.2 _ hmem)
    simp [AutoLockOp.apply, AutoLockWorld.start, AutoLockMonitor.init, startMinutes,
      resolveMinutesFromDb, DEFAULT_IDLE_MIN] at hcount

end OmniDrive
