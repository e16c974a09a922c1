import Mathlib.Data.List.Basic
import Mathlib.Data.List.Forall2
import Mathlib.Data.List.Induction
import Mathlib.Data.List.Perm.Basic
import OmniDrive.Library.GuardedRuns
import OmniDrive.Library.Threads

/-!
# Attempts at a secret behind a limiter

An attempt asks a limiter, tries the secret, and tells the limiter how it went. The limiter knows of
a failure only once it is told, so an attempt may be tried beside others that it was not asked
about. What the limiter promised when it was asked holds of an attempt only if no other failure was
unknown then and none has been added since.
-/

namespace Attempts

open GuardedRuns

/-- A limiter with its state `L`, asked and told in an environment `E`. It may forget the failures
at a success. -/
structure Limiter (L E : Type) where
  admits : E → ℕ → L → Bool
  asked : E → ℕ → L → L
  failed : E → ℕ → L → L
  succeeded : E → ℕ → L → L
  forgets : Bool

/-- An attempt in flight: how it went, if it was tried, and whether failures were unknown when the
limiter was asked or have been added since. -/
structure Attempt where
  verdict : Option Bool
  outrun : Bool

/-- The limiter, the attempts in flight, and the times, newest first, of the wrong attempts tried
and of the failures told since the last success that the limiter forgot them at. -/
structure World (L : Type) where
  now : ℕ
  limiter : L
  inFlight : List Attempt
  wrongs : List ℕ
  failures : List ℕ

inductive Op (E : Type) where
  | advance (ticks : ℕ)
  | ask (e : E)
  | attempt (i : ℕ) (right : Bool)
  | tell (i : ℕ) (e : E)
  | leave (i : ℕ)

variable {L E : Type}

namespace World

/-- A limiter that nothing was told to. -/
def start (limiter : L) : World L where
  now := 0
  limiter := limiter
  inFlight := []
  wrongs := []
  failures := []

variable (lim : Limiter L E) (w : World L)

/-- The wrong attempts that the limiter was not told of. -/
def untold : ℕ := w.inFlight.countP (·.verdict = some false)

def ask (e : E) : World L :=
  { w with
    limiter := lim.asked e w.now w.limiter
    inFlight :=
      if lim.admits e w.now w.limiter then
        w.inFlight ++ [{ verdict := none, outrun := decide (0 < w.untold) }]
      else w.inFlight }

def tryRight (i : ℕ) (a : Attempt) : World L :=
  { w with inFlight := w.inFlight.set i { a with verdict := some true } }

/-- A wrong attempt outruns all others that are not tried yet. -/
def tryWrong (i : ℕ) (a : Attempt) : World L :=
  { w with
    inFlight := (w.inFlight.map fun a => { a with outrun := true }).set i
      { a with verdict := some false }
    wrongs := w.now :: w.wrongs }

def tellFailed (i : ℕ) (e : E) : World L :=
  { w with
    limiter := lim.failed e w.now w.limiter
    inFlight := w.inFlight.eraseIdx i
    failures := w.now :: w.failures }

def tellSucceeded (i : ℕ) (e : E) : World L :=
  { w with
    limiter := lim.succeeded e w.now w.limiter
    inFlight := w.inFlight.eraseIdx i
    wrongs := if lim.forgets then [] else w.wrongs
    failures := if lim.forgets then [] else w.failures }

/-- What the attempt at an index does next, if there is one. -/
def withAttempt (i : ℕ) (next : Attempt → World L) : World L :=
  match w.inFlight[i]? with
  | some a => next a
  | none => w

end World

variable (lim : Limiter L E)

/-- An attempt is tried once. It ends untold only if it was not wrong. -/
def Op.apply : Op E → World L → World L
  | .advance ticks, w => { w with now := w.now + ticks }
  | .ask e, w => w.ask lim e
  | .attempt i right, w => w.withAttempt i fun a =>
      if a.verdict.isSome then w else if right then w.tryRight i a else w.tryWrong i a
  | .tell i e, w => w.withAttempt i fun a =>
      if a.verdict = some false then w.tellFailed lim i e
      else if a.verdict = some true then w.tellSucceeded lim i e
      else w
  | .leave i, w => w.withAttempt i fun a =>
      if a.verdict = some false then w else { w with inFlight := w.inFlight.eraseIdx i }

/-- Every time of the first list has one of the second that is not earlier, in the same order. -/
def Covers (wrongs failures : List ℕ) : Prop :=
  ∃ told, told.Sublist failures ∧ List.Forall₂ (· ≤ ·) wrongs told

theorem covers_nil (failures : List ℕ) : Covers [] failures :=
  ⟨[], List.nil_sublist _, .nil⟩

theorem Covers.cons {wrongs failures : List ℕ} (h : Covers wrongs failures) (now : ℕ) :
    Covers wrongs (now :: failures) := by
  obtain ⟨told, hsub, hle⟩ := h
  exact ⟨told, hsub.cons now, hle⟩

theorem Covers.cons_cons {wrongs failures : List ℕ} (h : Covers wrongs failures) {t now : ℕ}
    (ht : t ≤ now) : Covers (t :: wrongs) (now :: failures) := by
  obtain ⟨told, hsub, hle⟩ := h
  exact ⟨now :: told, hsub.cons_cons now, hle.cons ht⟩

/-- Of covered times, no more lie behind a bound than of the times that cover them. -/
theorem Covers.countP_le {wrongs failures : List ℕ} (h : Covers wrongs failures) {p : ℕ → Bool}
    (hp : ∀ a b, a ≤ b → p a = true → p b = true) : wrongs.countP p ≤ failures.countP p := by
  obtain ⟨told, hsub, hle⟩ := h
  have hcount : wrongs.countP p ≤ told.countP p := by
    clear hsub
    induction hle with
    | nil => exact Nat.le_refl _
    | @cons a b as bs hab _ ih =>
      have hhead : (if p a then 1 else 0) ≤ if p b then 1 else 0 := by
        cases ha : p a with
        | false => simp
        | true => simp [hp a b hab ha]
      simp only [List.countP_cons]
      exact Nat.add_le_add ih hhead
  exact Nat.le_trans hcount hsub.countP_le

/-- The latest of the covered times is at most the latest of those that cover them. -/
theorem Covers.le_head {wrongs failures : List ℕ} (h : Covers wrongs failures) {t : ℕ}
    (ht : t ∈ wrongs) : ∃ f ∈ failures, t ≤ f := by
  obtain ⟨told, hsub, hle⟩ := h
  induction hle generalizing failures with
  | nil => cases ht
  | @cons a b as bs hab _ ih =>
    cases List.mem_cons.mp ht with
    | inl heq => exact ⟨b, hsub.subset List.mem_cons_self, heq ▸ hab⟩
    | inr hmem => exact ih hmem (List.sublist_of_cons_sublist hsub)

/-! ## What holds along every run -/

/-- What a limiter is trusted with: under `Trusts` of its environment it represents the failures it
was told of, and it admits an attempt only if `Allows` holds of them. -/
structure Trusted (Allows : ℕ → List ℕ → Prop) (Represents : ℕ → L → List ℕ → Prop)
    (Asks : E → ℕ → L → Prop) (Tells : E → Prop) : Prop where
  later : ∀ {now ticks l failures}, Represents now l failures → Represents (now + ticks) l failures
  asked : ∀ {e now l failures}, Represents now l failures →
    Represents now (lim.asked e now l) failures
  failed : ∀ {e now l failures}, Tells e → Represents now l failures →
    Represents now (lim.failed e now l) (now :: failures)
  succeeded : ∀ {e now l failures}, Represents now l failures →
    Represents now (lim.succeeded e now l) (if lim.forgets then [] else failures)
  allows : ∀ {e now l failures}, Asks e now l → Represents now l failures →
    lim.admits e now l = true → Allows now failures

/-- The promise an attempt was admitted under still counts. -/
def Backed (Allows : ℕ → List ℕ → Prop) (w : World L) : Prop :=
  ∃ asked ≤ w.now, ∃ failures, Allows asked failures ∧ Covers w.wrongs failures

structure Inv (Allows : ℕ → List ℕ → Prop) (Represents : ℕ → L → List ℕ → Prop)
    (w : World L) : Prop where
  past : ∀ t ∈ w.wrongs, t ≤ w.now
  told : ∃ recent old, w.wrongs = recent ++ old ∧ recent.length ≤ w.untold ∧
    Covers old w.failures
  represents : Represents w.now w.limiter w.failures
  backed : ∀ a ∈ w.inFlight, a.verdict = none → a.outrun = false → Backed Allows w

/-- The limiter is trusted where it is asked and told of a failure, and no wrong attempt is tried
that another failure has outrun. -/
def Apart (Asks : E → ℕ → L → Prop) (Tells : E → Prop) : Op E → World L → Prop
  | .ask e, w => Asks e w.now w.limiter
  | .attempt i right, w => ∀ a, w.inFlight[i]? = some a → a.verdict = none → right = false →
      a.outrun = false
  | .tell i e, w => ∀ a, w.inFlight[i]? = some a → a.verdict = some false → Tells e
  | _, _ => True

/-- An attempt that ends is no longer counted. -/
theorem countP_eraseIdx {attempts : List Attempt} {i : ℕ} {a : Attempt}
    (h : attempts[i]? = some a) (p : Attempt → Bool) :
    (attempts.eraseIdx i).countP p + (p a).toNat = attempts.countP p := by
  obtain ⟨hi, hget⟩ := List.getElem?_eq_some_iff.mp h
  have hperm := (List.getElem_cons_eraseIdx_perm hi).countP_eq p
  rw [hget, List.countP_cons] at hperm
  rw [← hperm]
  cases p a <;> rfl

section Steps

variable {lim} {Allows : ℕ → List ℕ → Prop} {Represents : ℕ → L → List ℕ → Prop}
variable {Asks : E → ℕ → L → Prop} {Tells : E → Prop} {w : World L}

theorem inv_start {l : L} (h : Represents 0 l []) : Inv Allows Represents (World.start l) where
  past := by simp [World.start]
  told := ⟨[], [], rfl, Nat.zero_le _, covers_nil _⟩
  represents := h
  backed := by simp [World.start]

/-- The promise to an attempt goes with it as long as no wrong attempt is added. -/
theorem Backed.mono {w' : World L} (h : Backed Allows w) (hnow : w.now ≤ w'.now)
    (hwrongs : w'.wrongs = w.wrongs ∨ w'.wrongs = []) : Backed Allows w' := by
  obtain ⟨asked, hasked, failures, hallows, hcovers⟩ := h
  refine ⟨asked, Nat.le_trans hasked hnow, failures, hallows, ?_⟩
  cases hwrongs with
  | inl hsame => exact hsame ▸ hcovers
  | inr hnone => exact hnone ▸ covers_nil failures

/-- A list of attempts that only loses some keeps its promises. -/
theorem Inv.backed_of_subset {w' : World L} (h : Inv Allows Represents w)
    (hmem : ∀ a ∈ w'.inFlight, a.verdict = none → a ∈ w.inFlight) (hnow : w.now ≤ w'.now)
    (hwrongs : w'.wrongs = w.wrongs ∨ w'.wrongs = []) :
    ∀ a ∈ w'.inFlight, a.verdict = none → a.outrun = false → Backed Allows w' :=
  fun a ha hverdict hrun => (h.backed a (hmem a ha hverdict) hverdict hrun).mono hnow hwrongs

theorem Inv.advance (h : Inv Allows Represents w)
    (hlim : Trusted lim Allows Represents Asks Tells) (ticks : ℕ) :
    Inv Allows Represents { w with now := w.now + ticks } where
  past := fun t ht => Nat.le_trans (h.past t ht) (Nat.le_add_right _ _)
  told := h.told
  represents := hlim.later h.represents
  backed := h.backed_of_subset (fun _ ha _ => ha) (Nat.le_add_right _ _) (.inl rfl)

theorem Inv.ask (h : Inv Allows Represents w) (hlim : Trusted lim Allows Represents Asks Tells)
    {e : E} (hasks : Asks e w.now w.limiter) : Inv Allows Represents (w.ask lim e) where
  past := h.past
  told := by
    obtain ⟨recent, old, hwrongs, hlen, hcovers⟩ := h.told
    refine ⟨recent, old, hwrongs, ?_, hcovers⟩
    have huntold : (w.ask lim e).untold = w.untold := by
      unfold World.ask World.untold
      cases lim.admits e w.now w.limiter <;> simp
    rwa [huntold]
  represents := hlim.asked h.represents
  backed := by
    intro a ha hverdict hrun
    have hold : a ∈ w.inFlight → Backed Allows (w.ask lim e) := fun hmem =>
      (h.backed a hmem hverdict hrun).mono (Nat.le_refl _) (.inl rfl)
    unfold World.ask at ha
    cases hadmits : lim.admits e w.now w.limiter with
    | false => exact hold (by simpa [hadmits] using ha)
    | true =>
      have hor : a ∈ w.inFlight ∨ a = { verdict := none, outrun := decide (0 < w.untold) } := by
        simpa [hadmits] using ha
      cases hor with
      | inl hmem => exact hold hmem
      | inr hnew =>
        have hnone : w.untold = 0 := by simpa [hnew] using hrun
        obtain ⟨recent, old, hwrongs, hlen, hcovers⟩ := h.told
        have hrecent : recent = [] := List.eq_nil_of_length_eq_zero (by omega)
        refine ⟨w.now, Nat.le_refl _, w.failures, hlim.allows hasks h.represents hadmits, ?_⟩
        simpa [World.ask, hwrongs, hrecent] using hcovers

variable {i : ℕ} {a : Attempt}

theorem Inv.tryRight (h : Inv Allows Represents w) (ha : w.inFlight[i]? = some a)
    (hverdict : a.verdict = none) : Inv Allows Represents (w.tryRight i a) where
  past := h.past
  told := by
    obtain ⟨recent, old, hwrongs, hlen, hcovers⟩ := h.told
    refine ⟨recent, old, hwrongs, ?_, hcovers⟩
    have hcount := Threads.countP_set (fun b : Attempt => decide (b.verdict = some false))
      { a with verdict := some true } ha
    have huntold : (w.tryRight i a).untold = w.untold := by
      simpa [World.tryRight, World.untold, hverdict] using hcount
    rwa [huntold]
  represents := h.represents
  backed := by
    refine h.backed_of_subset ?_ (Nat.le_refl _) (.inl rfl)
    intro b hb hnone
    cases List.mem_or_eq_of_mem_set hb with
    | inl hmem => exact hmem
    | inr heq => simp [heq] at hnone

/-- Behind a wrong attempt, no promise is left. -/
theorem Inv.tryWrong (h : Inv Allows Represents w) (ha : w.inFlight[i]? = some a)
    (hverdict : a.verdict = none) : Inv Allows Represents (w.tryWrong i a) where
  past := by
    intro t ht
    cases List.mem_cons.mp ht with
    | inl heq => exact Nat.le_of_eq heq
    | inr hmem => exact h.past t hmem
  told := by
    obtain ⟨recent, old, hwrongs, hlen, hcovers⟩ := h.told
    refine ⟨w.now :: recent, old, by simp [World.tryWrong, hwrongs], ?_, hcovers⟩
    have hmarked : (w.inFlight.map fun a => { a with outrun := true })[i]? =
        some { a with outrun := true } := by
      simp [ha]
    have hcount := Threads.countP_set (fun b : Attempt => decide (b.verdict = some false))
      { a with verdict := some false } hmarked
    simp only [hverdict, List.countP_map] at hcount
    have huntold : (w.tryWrong i a).untold = w.untold + 1 := by
      simpa [World.tryWrong, World.untold, Function.comp_def] using hcount
    simpa [huntold] using hlen
  represents := h.represents
  backed := by
    intro b hb hnone hrun
    cases List.mem_or_eq_of_mem_set hb with
    | inl hmem =>
      obtain ⟨c, -, rfl⟩ := List.mem_map.mp hmem
      cases hrun
    | inr heq => simp [heq] at hnone

theorem Inv.tellFailed (h : Inv Allows Represents w)
    (hlim : Trusted lim Allows Represents Asks Tells) (ha : w.inFlight[i]? = some a)
    (hverdict : a.verdict = some false) {e : E} (htells : Tells e) :
    Inv Allows Represents (w.tellFailed lim i e) where
  past := h.past
  told := by
    obtain ⟨recent, old, hwrongs, hlen, hcovers⟩ := h.told
    have hcount := countP_eraseIdx ha fun b => decide (b.verdict = some false)
    have huntold : (w.tellFailed lim i e).untold + 1 = w.untold := by
      simpa [World.tellFailed, World.untold, hverdict] using hcount
    -- the failure told covers the oldest wrong attempt that nothing covered before
    cases recent using List.reverseRecOn with
    | nil => exact ⟨[], old, hwrongs, Nat.zero_le _, hcovers.cons w.now⟩
    | append_singleton recent t =>
      have ht : t ≤ w.now := h.past t (by simp [hwrongs])
      refine ⟨recent, t :: old, by simp [World.tellFailed, hwrongs], ?_, hcovers.cons_cons ht⟩
      simp only [List.length_append, List.length_singleton] at hlen
      omega
  represents := hlim.failed htells h.represents
  backed := h.backed_of_subset (fun _ hb _ => List.mem_of_mem_eraseIdx hb) (Nat.le_refl _) (.inl rfl)

/-- An attempt that was not wrong leaves as many untold as there were. -/
theorem untold_eraseIdx (ha : w.inFlight[i]? = some a) (hverdict : a.verdict ≠ some false) :
    (w.inFlight.eraseIdx i).countP (fun b => decide (b.verdict = some false)) = w.untold := by
  have hcount := countP_eraseIdx ha fun b => decide (b.verdict = some false)
  simpa [World.untold, hverdict] using hcount

theorem Inv.tellSucceeded (h : Inv Allows Represents w)
    (hlim : Trusted lim Allows Represents Asks Tells) (ha : w.inFlight[i]? = some a)
    (hverdict : a.verdict ≠ some false) (e : E) :
    Inv Allows Represents (w.tellSucceeded lim i e) := by
  have huntold := untold_eraseIdx ha hverdict
  have hrepresents := hlim.succeeded (e := e) h.represents
  cases hforgets : lim.forgets with
  | false =>
    refine { past := ?_, told := ?_, represents := ?_, backed := ?_ }
    · simpa [World.tellSucceeded, hforgets] using h.past
    · simpa [World.tellSucceeded, World.untold, hforgets, huntold] using h.told
    · simpa [World.tellSucceeded, hforgets] using hrepresents
    · exact h.backed_of_subset (fun _ hb _ => List.mem_of_mem_eraseIdx hb) (Nat.le_refl _)
        (.inl (by simp [World.tellSucceeded, hforgets]))
  | true =>
    refine { past := ?_, told := ?_, represents := ?_, backed := ?_ }
    · simp [World.tellSucceeded, hforgets]
    · exact ⟨[], [], by simp [World.tellSucceeded, hforgets], Nat.zero_le _, covers_nil _⟩
    · simpa [World.tellSucceeded, hforgets] using hrepresents
    · exact h.backed_of_subset (fun _ hb _ => List.mem_of_mem_eraseIdx hb) (Nat.le_refl _)
        (.inr (by simp [World.tellSucceeded, hforgets]))

theorem Inv.leave (h : Inv Allows Represents w) (ha : w.inFlight[i]? = some a)
    (hverdict : a.verdict ≠ some false) :
    Inv Allows Represents { w with inFlight := w.inFlight.eraseIdx i } where
  past := h.past
  told := by simpa [World.untold, untold_eraseIdx ha hverdict] using h.told
  represents := h.represents
  backed := h.backed_of_subset (fun _ hb _ => List.mem_of_mem_eraseIdx hb) (Nat.le_refl _) (.inl rfl)

theorem Inv.withAttempt (h : Inv Allows Represents w) {next : Attempt → World L}
    (hnext : ∀ a, w.inFlight[i]? = some a → Inv Allows Represents (next a)) :
    Inv Allows Represents (w.withAttempt i next) := by
  unfold World.withAttempt
  cases ha : w.inFlight[i]? with
  | none => exact h
  | some a => exact hnext a ha

theorem Inv.apply (h : Inv Allows Represents w) (hlim : Trusted lim Allows Represents Asks Tells)
    (o : Op E) (hapart : Apart Asks Tells o w) : Inv Allows Represents (o.apply lim w) := by
  cases o with
  | advance ticks => exact h.advance hlim ticks
  | ask e => exact h.ask hlim hapart
  | attempt i right =>
    refine h.withAttempt fun a ha => ?_
    cases hverdict : a.verdict with
    | some verdict => simpa [hverdict] using h
    | none =>
      cases right with
      | true => simpa [hverdict] using h.tryRight ha hverdict
      | false => simpa [hverdict] using h.tryWrong ha hverdict
  | tell i e =>
    refine h.withAttempt fun a ha => ?_
    by_cases hwrong : a.verdict = some false
    · simpa [hwrong] using h.tellFailed hlim ha hwrong (hapart a ha hwrong)
    · by_cases hright : a.verdict = some true
      · simpa [hright] using h.tellSucceeded hlim ha hwrong e
      · simpa [hwrong, hright] using h
  | leave i =>
    refine h.withAttempt fun a ha => ?_
    by_cases hwrong : a.verdict = some false
    · simpa [hwrong] using h
    · simpa [hwrong] using h.leave ha hwrong

variable {Keeps : List ℕ → Prop}

/-- A wrong attempt that nothing has outrun was promised that the failures before it allow it. -/
theorem keeps_apply (h : Inv Allows Represents w) (hnil : Keeps [])
    (hcons : ∀ now asked wrongs failures, asked ≤ now → Allows asked failures →
      Covers wrongs failures → (∀ t ∈ wrongs, t ≤ now) → Keeps wrongs → Keeps (now :: wrongs))
    (o : Op E) (hapart : Apart Asks Tells o w) (hkeeps : Keeps w.wrongs) :
    Keeps (o.apply lim w).wrongs := by
  cases o with
  | advance ticks => exact hkeeps
  | ask e => exact hkeeps
  | attempt i right =>
    simp only [Op.apply, World.withAttempt]
    cases ha : w.inFlight[i]? with
    | none => exact hkeeps
    | some a =>
      cases hverdict : a.verdict with
      | some verdict => simpa [hverdict] using hkeeps
      | none =>
        cases right with
        | true => simpa [hverdict, World.tryRight] using hkeeps
        | false =>
          have hbacked : Backed Allows w := by
            apply h.backed a (List.mem_of_getElem? ha) hverdict
            exact hapart a ha hverdict rfl
          obtain ⟨asked, hasked, failures, hallows, hcovers⟩ := hbacked
          simpa [hverdict, World.tryWrong] using
            hcons w.now asked w.wrongs failures hasked hallows hcovers h.past hkeeps
  | tell i e =>
    simp only [Op.apply, World.withAttempt]
    cases ha : w.inFlight[i]? with
    | none => exact hkeeps
    | some a =>
      by_cases hwrong : a.verdict = some false
      · simpa [hwrong, World.tellFailed] using hkeeps
      · by_cases hright : a.verdict = some true
        · cases hforgets : lim.forgets with
          | true => simpa [hright, World.tellSucceeded, hforgets] using hnil
          | false => simpa [hright, World.tellSucceeded, hforgets] using hkeeps
        · simpa [hwrong, hright] using hkeeps
  | leave i =>
    simp only [Op.apply, World.withAttempt]
    cases ha : w.inFlight[i]? with
    | none => exact hkeeps
    | some a => by_cases hwrong : a.verdict = some false <;> simpa [hwrong] using hkeeps

/-- What each wrong attempt keeps when the failures before it allow it, a run whose attempts are
apart keeps throughout. -/
theorem keeps_of_apart (hlim : Trusted lim Allows Represents Asks Tells) {l : L}
    (hstart : Represents 0 l []) (hnil : Keeps [])
    (hcons : ∀ now asked wrongs failures, asked ≤ now → Allows asked failures →
      Covers wrongs failures → (∀ t ∈ wrongs, t ≤ now) → Keeps wrongs → Keeps (now :: wrongs))
    {ops : List (Op E)}
    (hapart : guarded (Op.apply lim) (Apart Asks Tells) ops (World.start l)) :
    ∀ w ∈ states (Op.apply lim) ops (World.start l),
      Inv Allows Represents w ∧ Keeps w.wrongs := by
  have hkeep : ∀ o (w : World L), Inv Allows Represents w ∧ Keeps w.wrongs → True →
      Apart Asks Tells o w →
      Inv Allows Represents (o.apply lim w) ∧ Keeps (o.apply lim w).wrongs :=
    fun o w h _ ho => ⟨h.1.apply hlim o ho, keeps_apply h.1 hnil hcons o ho h.2⟩
  exact inv_of_guarded (Op.apply lim) (fun _ _ => True) (Apart Asks Tells) _ hkeep
    ⟨inv_start hstart, hnil⟩ (guarded_of_forall _ (fun _ _ => trivial) ops _) hapart

end Steps

end Attempts
