import OmniDrive.Library.StatementProgram

/-!
# Programs that overlook failed writes

A program may catch the failure of a statement and go on. Such a run is one in which the write
of that statement has had no effect although its continuation is taken. A property that every
statement keeps holds wherever such a run stops, and a run without lost writes is an ordinary
one.
-/

namespace StatementProgram

namespace Prog

variable {S ε γ α β : Type}

/-- The state after `n` statements, of which the ones in `lost` have had no effect. -/
def cutLosing (lost : ℕ → Bool) : ℕ → Prog S ε α → S → S
  | n + 1, stmt upd next, s =>
    cutLosing (fun i => lost (i + 1)) n (next s) (if lost 0 then s else upd s)
  | _, _, s => s

@[simp] theorem cutLosing_zero (lost : ℕ → Bool) (p : Prog S ε α) (s : S) :
    p.cutLosing lost 0 s = s := by
  cases p <;> rfl

@[simp] theorem cutLosing_ret (lost : ℕ → Bool) (n : ℕ) (a : α) (s : S) :
    (ret a : Prog S ε α).cutLosing lost n s = s := by
  cases n <;> rfl

@[simp] theorem cutLosing_fail (lost : ℕ → Bool) (n : ℕ) (e : ε) (s : S) :
    (fail e : Prog S ε α).cutLosing lost n s = s := by
  cases n <;> rfl

/-- A statement whose write is not lost. -/
theorem cutLosing_stmt {lost : ℕ → Bool} (h : lost 0 = false) (n : ℕ) (upd : S → S)
    (next : S → Prog S ε α) (s : S) :
    (stmt upd next).cutLosing lost (n + 1) s =
      (next s).cutLosing (fun i => lost (i + 1)) n (upd s) := by
  rw [cutLosing, h]
  rfl

/-- Where no write is lost up to the cut, the cut is an ordinary one. -/
theorem cutLosing_eq_cut {lost : ℕ → Bool} {n : ℕ} (h : ∀ i < n, lost i = false)
    (p : Prog S ε α) (s : S) : p.cutLosing lost n s = p.cut n s := by
  induction n generalizing lost p s with
  | zero => rw [cutLosing_zero, cut_zero]
  | succ n ih =>
    cases p with
    | ret a => rw [cutLosing_ret, cut_ret]
    | fail e => rw [cutLosing_fail, cut_fail]
    | stmt upd next =>
      rw [cutLosing_stmt (h 0 (Nat.succ_pos n))]
      exact ih (fun i hi => h (i + 1) (Nat.succ_lt_succ hi)) (next s) (upd s)

/-- Behind a first part that lost nothing, the run is one of the continuation. -/
theorem cutLosing_bind_of_ok {lost : ℕ → Bool} {p : Prog S ε α} {f : α → Prog S ε β} {s t : S}
    {a : α} (hrun : p.run s = (.ok a, t)) (hlost : ∀ i < p.count s, lost i = false) (n : ℕ) :
    (p >>= f).cutLosing lost (p.count s + n) s =
      (f a).cutLosing (fun i => lost (p.count s + i)) n t := by
  induction p generalizing lost s with
  | ret b =>
    obtain ⟨rfl, rfl⟩ : b = a ∧ s = t := by simpa using hrun
    simp [count]
  | fail e => simp at hrun
  | stmt upd next ih =>
    have hcount : (stmt upd next : Prog S ε α).count s = (next s).count (upd s) + 1 := rfl
    have hsum : (next s).count (upd s) + 1 + n = ((next s).count (upd s) + n) + 1 := by omega
    have hrest : ∀ i < (next s).count (upd s), lost (i + 1) = false := by
      intro i hi
      exact hlost (i + 1) (by omega)
    have hshift : (fun i => lost ((next s).count (upd s) + i + 1)) =
        fun i => lost ((next s).count (upd s) + 1 + i) := by
      funext i
      rw [Nat.add_right_comm]
    rw [hcount, stmt_bind, hsum, cutLosing_stmt (hlost 0 (by omega))]
    rw [ih s (by simpa using hrun) hrest, hshift]

/-- A first part that fails leaves nothing for its continuation. -/
theorem cutLosing_bind_of_error {lost : ℕ → Bool} {p : Prog S ε α} {f : α → Prog S ε β}
    {s t : S} {e : ε} (hrun : p.run s = (.error e, t)) (hlost : ∀ i < p.count s, lost i = false)
    (n : ℕ) : (p >>= f).cutLosing lost n s = p.cut n s := by
  induction p generalizing lost n s with
  | ret b => simp at hrun
  | fail e' => rw [fail_bind, cutLosing_fail, cut_fail]
  | stmt upd next ih =>
    cases n with
    | zero => rw [cutLosing_zero, cut_zero]
    | succ n =>
      have hcount : (stmt upd next : Prog S ε α).count s = (next s).count (upd s) + 1 := rfl
      have hrest : ∀ i < (next s).count (upd s), lost (i + 1) = false := by
        intro i hi
        exact hlost (i + 1) (by omega)
      rw [stmt_bind, cutLosing_stmt (hlost 0 (by omega))]
      exact ih s (by simpa using hrun) hrest n

/-- A property kept by every statement survives lost writes. -/
theorem Keeps.cutLosing {I : S → Prop} {p : Prog S ε α} (hp : p.Keeps I) (lost : ℕ → Bool)
    (n : ℕ) {s : S} (hs : I s) : I (p.cutLosing lost n s) := by
  induction n generalizing lost p s with
  | zero =>
    rw [cutLosing_zero]
    exact hs
  | succ n ih =>
    cases p with
    | ret a =>
      rw [cutLosing_ret]
      exact hs
    | fail e =>
      rw [cutLosing_fail]
      exact hs
    | stmt upd next =>
      obtain ⟨hwrite, hnext⟩ := hp s hs
      cases hlost : lost 0 with
      | true =>
        rw [Prog.cutLosing, hlost]
        exact ih hnext _ hs
      | false =>
        rw [cutLosing_stmt hlost]
        exact ih hnext _ hwrite

end Prog

end StatementProgram
