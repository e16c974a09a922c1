import Mathlib.Algebra.Order.Field.Rat
import Mathlib.Data.Rat.Cast.Order
import Mathlib.Tactic.FieldSimp
import OmniDrive.Library.TokenBucket

/-!
# The upload rate limiter

Uploads pass the limiter frame by frame. A frame waits until the bucket holds its bytes, and the
bucket holds at most the bytes of one second: a frame of more bytes than that waits for ever, and
every other one is granted at the second pass at the latest.
-/

namespace OmniDrive

open TokenBucket

structure UploadRateLimiterState where
  availableBytes : ℚ
  lastRefill : ℚ
  deriving DecidableEq, Repr

/-- The limiter; a rate of zero is no limit. -/
structure UploadRateLimiter where
  maxBytesPerSec : ℕ
  state : UploadRateLimiterState
  deriving DecidableEq, Repr

namespace UploadRateLimiter

/-- The buffer of the upload stream, and with it the largest frame. -/
def frameBytes : ℕ := 64 * 1024

def new (maxUploadBytesPerSec : ℕ) (now : ℚ) : UploadRateLimiter :=
  { maxBytesPerSec := maxUploadBytesPerSec
    state := { availableBytes := maxUploadBytesPerSec, lastRefill := now } }

/-- The tokens that have come in since the last pass. -/
def refill (now : ℚ) (l : UploadRateLimiter) : UploadRateLimiter :=
  let elapsed := now - l.state.lastRefill
  if 0 < elapsed then
    { l with
      state :=
        { availableBytes :=
            min (l.state.availableBytes + elapsed * l.maxBytesPerSec) l.maxBytesPerSec
          lastRefill := now } }
  else l

/-- One pass of the loop of `acquire`: the request is granted, or the loop sleeps for a while. -/
def pass (bytes : ℕ) (now : ℚ) (l : UploadRateLimiter) : Option ℚ × UploadRateLimiter :=
  let l := l.refill now
  if bytes ≤ l.state.availableBytes then
    (none, { l with state.availableBytes := l.state.availableBytes - bytes })
  else
    let missing := bytes - l.state.availableBytes
    (some (max (missing / l.maxBytesPerSec) (1 / 1000)), l)

end UploadRateLimiter

/-- An upload stream at its limiter: the requests that are not granted yet, the time before which
the loop does not look at the clock again, and the grants with their times. -/
structure ThrottledStream where
  limiter : UploadRateLimiter
  waiting : List ℕ
  wakesAt : ℚ
  granted : List (ℚ × ℚ) := []
  deriving DecidableEq, Repr

namespace ThrottledStream

open UploadRateLimiter

def start (maxUploadBytesPerSec : ℕ) (now : ℚ) (requests : List ℕ) : ThrottledStream :=
  { limiter := .new maxUploadBytesPerSec now, waiting := requests, wakesAt := now }

/-- One pass of `acquire` for the first request that waits. -/
def step (now : ℚ) (s : ThrottledStream) : ThrottledStream :=
  match s.waiting with
  | [] => s
  | bytes :: rest =>
    if s.limiter.maxBytesPerSec = 0 ∨ bytes = 0 then { s with waiting := rest }
    else match s.limiter.pass bytes now with
      | (none, limiter) =>
        { limiter, waiting := rest, wakesAt := now, granted := (now, bytes) :: s.granted }
      | (some slept, limiter) => { s with limiter, wakesAt := now + slept }

/-- The stream after a number of readings of the clock. -/
def after (clock : ℕ → ℚ) : ℕ → ThrottledStream → ThrottledStream
  | 0, s => s
  | n + 1, s => step (clock n) (after clock n s)

/-- A clock that never goes back, and that has advanced by the slept time after every sleep. -/
def Legal (clock : ℕ → ℚ) (s : ThrottledStream) : Prop :=
  ∀ n, (after clock n s).wakesAt ≤ clock n

/-- Every request is granted, and no window of time sees more than its share and one bucket. -/
def MeetsRate (maxUploadBytesPerSec : ℕ) (requests : List ℕ) : Prop :=
  ∀ begun clock, Legal clock (start maxUploadBytesPerSec begun requests) →
    (∃ n, (after clock n (start maxUploadBytesPerSec begun requests)).waiting = []) ∧
    ∀ n first length, 0 ≤ length →
      grantedBetween first (first + length)
          (after clock n (start maxUploadBytesPerSec begun requests)).granted ≤
        maxUploadBytesPerSec * length + maxUploadBytesPerSec

/-! ## The account of the limiter -/

/-- The bucket of a limiter. -/
def bucket (l : UploadRateLimiter) : Bucket ℚ :=
  { tokens := l.state.availableBytes, filledAt := l.state.lastRefill }

/-- A stream whose grants are accounted for, and that has looked at the clock before it wakes. -/
structure Sound (rate : ℕ) (s : ThrottledStream) : Prop where
  rate_eq : s.limiter.maxBytesPerSec = rate
  account : Account (rate : ℚ) rate (bucket s.limiter) s.granted
  filledAt_le : s.limiter.state.lastRefill ≤ s.wakesAt

variable {rate : ℕ} {requests : List ℕ} {clock : ℕ → ℚ} {now : ℚ} {s : ThrottledStream}
  {l : UploadRateLimiter}

theorem bucket_refill (l : UploadRateLimiter) (now : ℚ) :
    bucket (l.refill now) =
      TokenBucket.refill (l.maxBytesPerSec : ℚ) l.maxBytesPerSec now (bucket l) := by
  unfold UploadRateLimiter.refill TokenBucket.refill bucket
  by_cases helapsed : 0 < now - l.state.lastRefill
  · simp only [if_pos helapsed]
  · simp only [if_neg helapsed]

@[simp] theorem maxBytesPerSec_refill (l : UploadRateLimiter) (now : ℚ) :
    (l.refill now).maxBytesPerSec = l.maxBytesPerSec := by
  unfold UploadRateLimiter.refill
  dsimp only
  split <;> rfl

/-- A refilled limiter has looked at the clock. -/
theorem lastRefill_refill (h : l.state.lastRefill ≤ now) :
    (l.refill now).state.lastRefill = now := by
  have hfilled := filledAt_refill (b := bucket l) (l.maxBytesPerSec : ℚ) l.maxBytesPerSec h
  rwa [← bucket_refill] at hfilled

/-- A pass grants the request where the refilled bucket holds its bytes. -/
theorem pass_of_le {bytes : ℕ} (h : (bytes : ℚ) ≤ (l.refill now).state.availableBytes) :
    l.pass bytes now = (none, { l.refill now with
      state.availableBytes := (l.refill now).state.availableBytes - bytes }) := by
  unfold UploadRateLimiter.pass
  rw [if_pos h]

/-- Otherwise it sleeps until the missing bytes have come in. -/
theorem pass_of_lt {bytes : ℕ} (h : (l.refill now).state.availableBytes < bytes) :
    l.pass bytes now = (some (max ((bytes - (l.refill now).state.availableBytes) /
      l.maxBytesPerSec) (1 / 1000)), l.refill now) := by
  unfold UploadRateLimiter.pass
  rw [if_neg (not_le.mpr h), maxBytesPerSec_refill]

/-- What a step does: there is nothing to do, the request is empty, it is granted or it sleeps. -/
theorem step_cases (now : ℚ) (hrate : 0 < rate) (hs : s.limiter.maxBytesPerSec = rate) :
    (s.waiting = [] ∧ step now s = s) ∨
    (∃ rest, s.waiting = 0 :: rest ∧ step now s = { s with waiting := rest }) ∨
    (∃ bytes rest, s.waiting = bytes :: rest ∧ 0 < bytes ∧
      (bytes : ℚ) ≤ (s.limiter.refill now).state.availableBytes ∧
      step now s =
        { limiter := { s.limiter.refill now with
            state.availableBytes := (s.limiter.refill now).state.availableBytes - bytes }
          waiting := rest
          wakesAt := now
          granted := ((now, (bytes : ℚ)) :: s.granted) }) ∨
    (∃ bytes rest, s.waiting = bytes :: rest ∧ 0 < bytes ∧
      (s.limiter.refill now).state.availableBytes < bytes ∧
      step now s =
        { s with
          limiter := s.limiter.refill now
          wakesAt := now + max ((bytes - (s.limiter.refill now).state.availableBytes) / rate)
            (1 / 1000) }) := by
  cases hwaiting : s.waiting with
  | nil =>
    refine .inl ⟨rfl, ?_⟩
    unfold step
    rw [hwaiting]
  | cons bytes rest =>
    refine .inr ?_
    have hstep : step now s =
        if s.limiter.maxBytesPerSec = 0 ∨ bytes = 0 then { s with waiting := rest }
        else match s.limiter.pass bytes now with
          | (none, limiter) =>
            { limiter, waiting := rest, wakesAt := now, granted := (now, bytes) :: s.granted }
          | (some slept, limiter) => { s with limiter, wakesAt := now + slept } := by
      unfold step
      rw [hwaiting]
    rw [hstep]
    rcases Nat.eq_zero_or_pos bytes with rfl | hpos
    · exact .inl ⟨rest, rfl, if_pos (.inr rfl)⟩
    · refine .inr ?_
      rw [if_neg (by omega)]
      rcases le_or_gt (bytes : ℚ) (s.limiter.refill now).state.availableBytes with hle | hlt
      · refine .inl ⟨bytes, rest, rfl, hpos, hle, ?_⟩
        rw [pass_of_le hle]
      · refine .inr ⟨bytes, rest, rfl, hpos, hlt, ?_⟩
        rw [pass_of_lt hlt, hs, hwaiting]

/-- A refill keeps the account. -/
theorem Sound.account_refill (h : Sound rate s) (hnow : s.wakesAt ≤ now) :
    Account (rate : ℚ) rate (bucket (s.limiter.refill now)) s.granted := by
  rw [bucket_refill, h.rate_eq]
  exact h.account.refill (Nat.cast_nonneg rate) (h.filledAt_le.trans hnow)

/-- Every step keeps the account. -/
theorem Sound.step (hrate : 0 < rate) (h : Sound rate s) (hnow : s.wakesAt ≤ now) :
    Sound rate (step now s) := by
  have hfilled := lastRefill_refill (h.filledAt_le.trans hnow)
  have haccount := h.account_refill hnow
  rcases step_cases now hrate h.rate_eq with ⟨-, hstep⟩ | ⟨rest, -, hstep⟩ |
    ⟨bytes, rest, -, -, hle, hstep⟩ | ⟨bytes, rest, -, -, -, hstep⟩
  · rw [hstep]
    exact h
  · rw [hstep]
    exact ⟨h.rate_eq, h.account, h.filledAt_le⟩
  · rw [hstep]
    exact ⟨(maxBytesPerSec_refill _ _).trans h.rate_eq,
      haccount.grant (Nat.cast_nonneg rate) (Nat.cast_nonneg bytes) hle hfilled, hfilled.le⟩
  · rw [hstep]
    refine ⟨(maxBytesPerSec_refill _ _).trans h.rate_eq, haccount, ?_⟩
    have hslept : (0 : ℚ) ≤ max ((bytes - (s.limiter.refill now).state.availableBytes) / rate)
        (1 / 1000) := le_max_of_le_right (by norm_num)
    show (s.limiter.refill now).state.lastRefill ≤ now + _
    rw [hfilled]
    linarith

theorem sound_start (rate : ℕ) (begun : ℚ) (requests : List ℕ) :
    Sound rate (start rate begun requests) where
  rate_eq := rfl
  account := account_nil (Nat.cast_nonneg rate) (Nat.cast_nonneg rate) le_rfl
  filledAt_le := le_rfl

/-- The account is kept over a whole run. -/
theorem Sound.after (hrate : 0 < rate) (h : Sound rate s) (hlegal : Legal clock s) (n : ℕ) :
    Sound rate (after clock n s) := by
  induction n with
  | zero => exact h
  | succ n ih => exact ih.step hrate (hlegal n)

/-! ## Requests that fit are granted -/

/-- A run goes on as a run from where it has come. -/
theorem after_add (clock : ℕ → ℚ) (m n : ℕ) (s : ThrottledStream) :
    after clock (m + n) s = after (fun i => clock (m + i)) n (after clock m s) := by
  induction n with
  | zero => rfl
  | succ n ih => exact congrArg (ThrottledStream.step (clock (m + n))) ih

theorem Legal.later (h : Legal clock s) (m : ℕ) :
    Legal (fun i => clock (m + i)) (ThrottledStream.after clock m s) := by
  intro n
  rw [← after_add]
  exact h (m + n)

/-- After the sleep the bucket holds what was missing. -/
theorem availableBytes_refill_of_slept (hrate : 0 < rate) (hs : l.maxBytesPerSec = rate)
    {bytes : ℕ} (hle : bytes ≤ rate) (htokens : l.state.availableBytes ≤ rate)
    (hnow : l.state.lastRefill + (bytes - l.state.availableBytes) / rate ≤ now)
    (hlate : l.state.lastRefill ≤ now) :
    (bytes : ℚ) ≤ (l.refill now).state.availableBytes := by
  have hpos : (0 : ℚ) < rate := Nat.cast_pos.mpr hrate
  have hrefilled : (l.refill now).state.availableBytes =
      min (l.state.availableBytes + (now - l.state.lastRefill) * rate) rate := by
    have hfill := tokens_refill (b := bucket l) (rate : ℚ) htokens hlate
    rw [← hs, ← bucket_refill, hs] at hfill
    exact hfill
  have hmissing : (bytes : ℚ) - l.state.availableBytes ≤ (now - l.state.lastRefill) * rate := by
    rw [← div_le_iff₀ hpos]
    linarith
  rw [hrefilled]
  exact le_min (by linarith) (Nat.cast_le.mpr hle)

/-- The first request that waits is granted at the second pass at the latest. -/
theorem exists_granted (hrate : 0 < rate) (h : Sound rate s) (hlegal : Legal clock s) {bytes : ℕ}
    {rest : List ℕ} (hwaiting : s.waiting = bytes :: rest) (hle : bytes ≤ rate) :
    ∃ n, (after clock n s).waiting = rest := by
  have hnow : s.wakesAt ≤ clock 0 := hlegal 0
  rcases step_cases (clock 0) hrate h.rate_eq with ⟨hnone, -⟩ | ⟨rest', hempty, hstep⟩ |
    ⟨bytes', rest', hfirst, -, -, hstep⟩ | ⟨bytes', rest', hfirst, hpos, hshort, hstep⟩
  · rw [hwaiting] at hnone
    cases hnone
  · rw [hwaiting] at hempty
    obtain ⟨-, rfl⟩ := List.cons.inj hempty
    exact ⟨1, congrArg ThrottledStream.waiting hstep⟩
  · rw [hwaiting] at hfirst
    obtain ⟨-, rfl⟩ := List.cons.inj hfirst
    exact ⟨1, congrArg ThrottledStream.waiting hstep⟩
  · -- the second pass finds what was missing
    rw [hwaiting] at hfirst
    obtain ⟨rfl, rfl⟩ := List.cons.inj hfirst
    have hone : after clock 1 s = ThrottledStream.step (clock 0) s := rfl
    have hsound : Sound rate (after clock 1 s) := h.after hrate hlegal 1
    have hwake : (after clock 1 s).wakesAt ≤ clock 1 := hlegal 1
    have hfilled := lastRefill_refill (h.filledAt_le.trans hnow)
    have hwaits : (after clock 1 s).waiting = bytes :: rest := by
      rw [hone, hstep]
      exact hwaiting
    have hlimiter : (after clock 1 s).limiter = s.limiter.refill (clock 0) := by
      rw [hone, hstep]
    have hslept : clock 0 + (bytes - (s.limiter.refill (clock 0)).state.availableBytes) / rate ≤
        clock 1 := by
      rw [hone, hstep] at hwake
      have hmissing := le_max_left
        ((bytes - (s.limiter.refill (clock 0)).state.availableBytes) / rate : ℚ) (1 / 1000)
      exact (add_le_add_right hmissing _).trans hwake
    have henough : (bytes : ℚ) ≤
        ((after clock 1 s).limiter.refill (clock 1)).state.availableBytes := by
      apply availableBytes_refill_of_slept hrate hsound.rate_eq hle hsound.account.tokens_le
      · rw [hlimiter, hfilled]
        exact hslept
      · exact hsound.filledAt_le.trans hwake
    refine ⟨2, ?_⟩
    have htwo : after clock 2 s = ThrottledStream.step (clock 1) (after clock 1 s) := rfl
    rw [htwo]
    rcases step_cases (clock 1) hrate hsound.rate_eq with ⟨hnone, -⟩ |
      ⟨rest', hempty, -⟩ | ⟨bytes', rest', hfirst, -, -, hgranted⟩ |
      ⟨bytes', rest', hfirst, -, hmissing, -⟩
    · rw [hwaits] at hnone
      cases hnone
    · rw [hwaits] at hempty
      obtain ⟨rfl, -⟩ := List.cons.inj hempty
      exact absurd hpos (lt_irrefl 0)
    · rw [hwaits] at hfirst
      obtain ⟨-, rfl⟩ := List.cons.inj hfirst
      rw [hgranted]
    · rw [hwaits] at hfirst
      obtain ⟨rfl, -⟩ := List.cons.inj hfirst
      exact absurd hmissing (not_lt.mpr henough)

/-- Requests that all fit into the bucket are all granted. -/
theorem exists_all_granted (hrate : 0 < rate) (hfit : ∀ b ∈ requests, b ≤ rate)
    (h : Sound rate s) (hlegal : Legal clock s) (hwaiting : s.waiting = requests) :
    ∃ n, (after clock n s).waiting = [] := by
  induction requests generalizing s clock with
  | nil => exact ⟨0, hwaiting⟩
  | cons bytes rest ih =>
    obtain ⟨m, hm⟩ := exists_granted hrate h hlegal hwaiting (hfit bytes List.mem_cons_self)
    obtain ⟨n, hn⟩ := ih (fun b hb => hfit b (List.mem_cons_of_mem _ hb))
      (h.after hrate hlegal m) (hlegal.later m) hm
    refine ⟨m + n, ?_⟩
    rw [after_add]
    exact hn

/-! ## A request that does not fit waits for ever -/

/-- No step grants a request of more bytes than the bucket holds. -/
theorem mem_waiting_step (hrate : 0 < rate) (h : Sound rate s) (hnow : s.wakesAt ≤ now)
    {bytes : ℕ} (hlarge : rate < bytes) (hmem : bytes ∈ s.waiting) :
    bytes ∈ (ThrottledStream.step now s).waiting := by
  rcases step_cases now hrate h.rate_eq with ⟨-, hstep⟩ | ⟨rest, hwaiting, hstep⟩ |
    ⟨granted, rest, hwaiting, -, hle, hstep⟩ | ⟨granted, rest, -, -, -, hstep⟩
  · rw [hstep]
    exact hmem
  · rw [hwaiting] at hmem
    rw [hstep]
    exact (List.mem_cons.mp hmem).resolve_left (by omega)
  · rw [hwaiting] at hmem
    rw [hstep]
    refine (List.mem_cons.mp hmem).resolve_left ?_
    rintro rfl
    have htokens := (h.account_refill hnow).tokens_le
    have hfits : (bytes : ℚ) ≤ rate := hle.trans htokens
    exact absurd (Nat.cast_le.mp hfits) (by omega)
  · rw [hstep]
    exact hmem

/-- The stream that looks at the clock as soon as it wakes. -/
def eager : ℕ → ThrottledStream → ThrottledStream
  | 0, s => s
  | n + 1, s => ThrottledStream.step (eager n s).wakesAt (eager n s)

theorem after_eager (s : ThrottledStream) (n : ℕ) :
    after (fun i => (eager i s).wakesAt) n s = eager n s := by
  induction n with
  | zero => rfl
  | succ n ih => exact congrArg (ThrottledStream.step (eager n s).wakesAt) ih

/-- Every stream has a legal clock. -/
theorem legal_eager (s : ThrottledStream) : Legal (fun i => (eager i s).wakesAt) s := by
  intro n
  rw [after_eager]

/-- A stream with a request of more bytes than the bucket holds is never done. -/
theorem not_meetsRate (hrate : 0 < rate) {bytes : ℕ} (hlarge : rate < bytes)
    (hmem : bytes ∈ requests) : ¬ MeetsRate rate requests := by
  intro hmeets
  obtain ⟨⟨n, hn⟩, -⟩ := hmeets 0 _ (legal_eager (start rate 0 requests))
  have hwaits : ∀ m, bytes ∈
      (after (fun i => (eager i (start rate 0 requests)).wakesAt) m
        (start rate 0 requests)).waiting := by
    intro m
    induction m with
    | zero => exact hmem
    | succ m ih =>
      exact mem_waiting_step hrate ((sound_start rate 0 requests).after hrate (legal_eager _) m)
        (legal_eager _ m) hlarge ih
  have hlast := hwaits n
  rw [hn] at hlast
  cases hlast

/-- A stream meets its rate if and only if every request fits into the bucket of one second. -/
theorem meetsRate_iff (hrate : 0 < rate) (requests : List ℕ) :
    MeetsRate rate requests ↔ ∀ bytes ∈ requests, bytes ≤ rate := by
  constructor
  · intro hmeets bytes hmem
    by_contra hlarge
    exact not_meetsRate hrate (not_le.mp hlarge) hmem hmeets
  · intro hfit begun clock hlegal
    have hsound := sound_start rate begun requests
    refine ⟨exists_all_granted hrate hfit hsound hlegal rfl, ?_⟩
    intro n first length hlength
    exact (hsound.after hrate hlegal n).account.bound first length hlength

/-- A rate of one full frame lets two frames pass. -/
theorem meetsRate_twoFrames : MeetsRate frameBytes [frameBytes, 512] :=
  (meetsRate_iff (by decide) _).mpr (by decide)

/-- At half of that rate a full frame waits for ever. -/
theorem not_meetsRate_fullFrame :
    ¬ ∀ (rate : ℕ) (requests : List ℕ), 0 < rate → (∀ bytes ∈ requests, bytes ≤ frameBytes) →
      MeetsRate rate requests := by
  intro hall
  have hmeets := hall 32768 [frameBytes] (by decide) (by decide)
  exact not_meetsRate (by decide) (by decide) (List.mem_singleton_self _) hmeets

end ThrottledStream

end OmniDrive
