import OmniDrive.Library.StatementProgram

/-!
# Programs interrupted by another step

One step of another party is placed between two statements of a running program. A property
settles when it holds after that step and at every later point of the program. A program that
never looks at what the step changes runs on as if nothing had happened.
-/

namespace StatementProgram

namespace Prog

variable {S ε γ α β : Type}

/-- The state after `n` statements, one step `f` of another party, and `m` more statements. -/
def interrupted (f : S → S) (n m : ℕ) (p : Prog S ε α) (s : S) : S :=
  ((p.steps n s).1).cut m (f (p.steps n s).2)

/-- After `f` has come in behind `n` statements, `I` holds at every later point. -/
def Settles (f : S → S) (I : S → Prop) (n : ℕ) (p : Prog S ε α) (s : S) : Prop :=
  ∀ m, I (interrupted f n m p s)

/-- No statement of the program looks at or undoes what `f` changes. -/
def Ignores (f : S → S) : Prog S ε α → Prop
  | stmt upd next => ∀ s, upd (f s) = f (upd s) ∧ next (f s) = next s ∧ (next s).Ignores f
  | _ => True

/-- Every statement of the program keeps `I`, also where `I` did not hold before. -/
def KeepsThroughout (I : S → Prop) : Prog S ε α → Prop
  | stmt upd next => ∀ s, (I s → I (upd s)) ∧ (next s).KeepsThroughout I
  | _ => True

/-! ## Steps of a sequence -/

/-- Inside the first part of a sequence, the continuation waits. -/
theorem steps_bind_of_le {n : ℕ} {p : Prog S ε α} {k : α → Prog S ε β} {s : S}
    (h : n ≤ p.count s) :
    (p >>= k).steps n s = ((p.steps n s).1 >>= k, (p.steps n s).2) := by
  induction p generalizing n s with
  | ret a =>
    obtain rfl : n = 0 := by simpa [count] using h
    simp
  | fail e => simp
  | stmt upd next ih =>
    cases n with
    | zero => simp
    | succ n => exact ih s (by simpa [count] using h)

/-- Past the first part of a sequence, the steps are those of the continuation. -/
theorem steps_bind_add {p : Prog S ε α} {k : α → Prog S ε β} {s t : S} {a : α}
    (hrun : p.run s = (.ok a, t)) (n : ℕ) :
    (p >>= k).steps (p.count s + n) s = (k a).steps n t := by
  induction p generalizing s with
  | ret b =>
    obtain ⟨rfl, rfl⟩ : b = a ∧ s = t := by simpa using hrun
    simp [count]
  | fail e => simp at hrun
  | stmt upd next ih =>
    have hcount : (stmt upd next : Prog S ε α).count s + n =
        ((next s).count (upd s) + n) + 1 := by simp only [count]; omega
    rw [hcount]
    exact ih s (by simpa using hrun)

/-- The steps of a first part that fails end in its failure. -/
theorem steps_bind_of_error {p : Prog S ε α} {k : α → Prog S ε β} {s t : S} {e : ε}
    (hrun : p.run s = (.error e, t)) : (p >>= k).steps (p.count s) s = (fail e, t) := by
  induction p generalizing s with
  | ret b => simp at hrun
  | fail e' =>
    obtain ⟨rfl, rfl⟩ : e' = e ∧ s = t := by simpa using hrun
    rfl
  | stmt upd next ih => exact ih s (by simpa using hrun)

/-- A continuation that keeps a property adds no cut that violates it. -/
theorem forall_cut_attempt_bind {I : S → Prop} {p : Prog S ε α}
    {k : Except ε α → Prog S γ β} (hk : ∀ r, (k r).Keeps I) (s : S) :
    (∀ m, I ((p.attempt >>= k).cut m s)) ↔ ∀ m, I (p.cut m s) := by
  have hdone : ∀ r, (∀ m, I ((k r).cut m s)) ↔ I s := by
    intro r
    constructor
    · intro h
      simpa [cut] using h 0
    · exact fun hs m => (hk r).cut m hs
  induction p generalizing s with
  | ret a => simpa [attempt, cut] using hdone (.ok a)
  | fail e => simpa [attempt, cut] using hdone (.error e)
  | stmt upd next ih =>
    have hsplit : ∀ {δ ζ : Type} (q : Prog S δ ζ), (∀ m, I (q.cut m s)) ↔
        I (q.cut 0 s) ∧ ∀ m, I (q.cut (m + 1) s) := by
      intro δ ζ q
      constructor
      · exact fun h => ⟨h 0, fun m => h (m + 1)⟩
      · rintro ⟨h0, hs⟩ (_ | m)
        · exact h0
        · exact hs m
    rw [hsplit, hsplit]
    have hnext := ih s (upd s) (fun r =>
      ⟨fun h => by simpa [cut] using h 0, fun hs m => (hk r).cut m hs⟩)
    have hzero : ((stmt upd next : Prog S ε α).attempt >>= k).cut 0 s =
        (stmt upd next : Prog S ε α).cut 0 s := by simp [cut]
    rw [hzero]
    exact and_congr_right fun _ => hnext

/-- What a program keeps, its remainder after any number of statements keeps. -/
theorem Keeps.steps {I : S → Prop} {p : Prog S ε α} (hp : p.Keeps I) (n : ℕ) {s : S}
    (hs : I s) : ((p.steps n s).1).Keeps I := by
  induction n generalizing p s with
  | zero => simpa using hp
  | succ n ih =>
    cases p with
    | ret a => trivial
    | fail e => trivial
    | stmt upd next => exact ih (hp s hs).2 (hp s hs).1

/-! ## Programs no statement of which breaks a property -/

theorem KeepsThroughout.keeps {I : S → Prop} {p : Prog S ε α} (hp : p.KeepsThroughout I) :
    p.Keeps I := by
  induction p with
  | ret a => trivial
  | fail e => trivial
  | stmt upd next ih => exact fun s hs => ⟨(hp s).1 hs, ih s (hp s).2⟩

theorem KeepsThroughout.steps {I : S → Prop} {p : Prog S ε α} (hp : p.KeepsThroughout I)
    (n : ℕ) (s : S) : ((p.steps n s).1).KeepsThroughout I := by
  induction n generalizing p s with
  | zero => simpa using hp
  | succ n ih =>
    cases p with
    | ret a => trivial
    | fail e => trivial
    | stmt upd next => exact ih (hp s).2 (upd s)

@[simp] theorem KeepsThroughout.bind {I : S → Prop} {p : Prog S ε α} {k : α → Prog S ε β}
    (hp : p.KeepsThroughout I) (hk : ∀ a, (k a).KeepsThroughout I) :
    (p >>= k).KeepsThroughout I := by
  induction p with
  | ret a => exact hk a
  | fail e => trivial
  | stmt upd next ih => exact fun s => ⟨(hp s).1, ih s (hp s).2⟩

theorem KeepsThroughout.query {I : S → Prop} (g : S → α) :
    (query g : Prog S ε α).KeepsThroughout I := fun _ => ⟨id, trivial⟩

theorem KeepsThroughout.exec {I : S → Prop} {upd : S → S} (h : ∀ s, I s → I (upd s)) :
    (exec upd : Prog S ε Unit).KeepsThroughout I := fun s => ⟨h s, trivial⟩

theorem KeepsThroughout.execReturning {I : S → Prop} {upd : S → S} (g : S → α)
    (h : ∀ s, I s → I (upd s)) : (execReturning upd g : Prog S ε α).KeepsThroughout I :=
  fun s => ⟨h s, trivial⟩

@[simp] theorem KeepsThroughout.ofOption {I : S → Prop} (e : ε) (o : Option α) :
    (ofOption e o : Prog S ε α).KeepsThroughout I := by cases o <;> trivial

@[simp] theorem KeepsThroughout.ofExcept {I : S → Prop} (x : Except ε α) :
    (ofExcept x : Prog S ε α).KeepsThroughout I := by cases x <;> trivial

@[simp] theorem KeepsThroughout.mapError {I : S → Prop} {g : ε → γ} {p : Prog S ε α}
    (hp : p.KeepsThroughout I) : (p.mapError g).KeepsThroughout I := by
  induction p with
  | ret a => trivial
  | fail e => trivial
  | stmt upd next ih => exact fun s => ⟨(hp s).1, ih s (hp s).2⟩

theorem KeepsThroughout.attempt {I : S → Prop} {p : Prog S ε α}
    (hp : p.KeepsThroughout I) :
    (p.attempt : Prog S γ (Except ε α)).KeepsThroughout I := by
  induction p with
  | ret a => trivial
  | fail e => trivial
  | stmt upd next ih => exact fun s => ⟨(hp s).1, ih s (hp s).2⟩

/-! ## Programs that ignore the other party -/

@[simp] theorem ignores_ret (f : S → S) (a : α) : (ret a : Prog S ε α).Ignores f := trivial

@[simp] theorem ignores_fail (f : S → S) (e : ε) : (fail e : Prog S ε α).Ignores f := trivial

@[simp] theorem Ignores.bind {f : S → S} {p : Prog S ε α} {k : α → Prog S ε β} (hp : p.Ignores f)
    (hk : ∀ a, (k a).Ignores f) : (p >>= k).Ignores f := by
  induction p with
  | ret a => exact hk a
  | fail e => trivial
  | stmt upd next ih => exact fun s => ⟨(hp s).1, by simp [(hp s).2.1], ih s (hp s).2.2⟩

theorem Ignores.query {f : S → S} {g : S → α} (h : ∀ s, g (f s) = g s) :
    (query g : Prog S ε α).Ignores f :=
  fun s => ⟨rfl, congrArg ret (h s), trivial⟩

theorem Ignores.exec {f upd : S → S} (h : ∀ s, upd (f s) = f (upd s)) :
    (exec upd : Prog S ε Unit).Ignores f :=
  fun s => ⟨h s, rfl, trivial⟩

theorem Ignores.execReturning {f upd : S → S} {g : S → α} (h : ∀ s, upd (f s) = f (upd s))
    (hg : ∀ s, g (f s) = g s) : (execReturning upd g : Prog S ε α).Ignores f :=
  fun s => ⟨h s, congrArg ret (hg s), trivial⟩

@[simp] theorem Ignores.ofOption {f : S → S} (e : ε) (o : Option α) :
    (ofOption e o : Prog S ε α).Ignores f := by cases o <;> trivial

@[simp] theorem Ignores.ofExcept {f : S → S} (x : Except ε α) :
    (ofExcept x : Prog S ε α).Ignores f := by cases x <;> trivial

@[simp] theorem Ignores.mapError {f : S → S} {g : ε → γ} {p : Prog S ε α} (hp : p.Ignores f) :
    (p.mapError g).Ignores f := by
  induction p with
  | ret a => trivial
  | fail e => trivial
  | stmt upd next ih =>
    exact fun s => ⟨(hp s).1, congrArg (Prog.mapError g) (hp s).2.1, ih s (hp s).2.2⟩

/-- A program on a component ignores a step that leaves the component alone. -/
theorem Ignores.zoom_frame {T : Type} {f : T → T} {get : T → S} {set : S → T → T}
    (hget : ∀ t, get (f t) = get t) (hset : ∀ s t, set s (f t) = f (set s t)) (p : Prog S ε α) :
    (p.zoom get set).Ignores f := by
  induction p with
  | ret a => trivial
  | fail e => trivial
  | stmt upd next ih =>
    intro t
    refine ⟨?_, ?_, ih (get t)⟩
    · dsimp only
      rw [hget, hset]
    · dsimp only
      rw [hget]

/-- A program that ignores the other party cannot undo its step. -/
theorem Ignores.keepsThroughout {f : S → S} {I : S → Prop} (hI : ∀ s, I s ↔ f s = s)
    {p : Prog S ε α} (hp : p.Ignores f) : p.KeepsThroughout I := by
  induction p with
  | ret a => trivial
  | fail e => trivial
  | stmt upd next ih =>
    intro s
    refine ⟨fun hs => ?_, ih s (hp s).2.2⟩
    have hfix : f s = s := (hI s).mp hs
    rw [hI, ← (hp s).1, hfix]

/-- The step of the other party commutes with the whole run. -/
theorem Ignores.run {f : S → S} {p : Prog S ε α} (hp : p.Ignores f) (s : S) :
    p.run (f s) = ((p.run s).1, f (p.run s).2) := by
  induction p generalizing s with
  | ret a => rfl
  | fail e => rfl
  | stmt upd next ih =>
    rw [run_stmt, (hp s).1, (hp s).2.1]
    exact ih s (hp s).2.2 (upd s)

/-- What remains after some statements ignores the other party too. -/
theorem Ignores.steps {f : S → S} {p : Prog S ε α} (hp : p.Ignores f) (n : ℕ) (s : S) :
    ((p.steps n s).1).Ignores f := by
  induction n generalizing p s with
  | zero => simpa using hp
  | succ n ih =>
    cases p with
    | ret a => trivial
    | fail e => trivial
    | stmt upd next => exact ih (hp s).2.2 (upd s)

/-! ## Settling -/

variable {f : S → S} {I : S → Prop}

@[simp] theorem settles_stmt_succ (n : ℕ) (upd : S → S) (next : S → Prog S ε α) (s : S) :
    Settles f I (n + 1) (stmt upd next) s ↔ Settles f I n (next s) (upd s) := Iff.rfl

theorem settles_query_bind_succ (n : ℕ) (g : S → α) (k : α → Prog S ε β) (s : S) :
    Settles f I (n + 1) (query g >>= k) s ↔ Settles f I n (k (g s)) s := Iff.rfl

/-- A remainder that keeps the property settles it. -/
theorem settles_of_keeps (hf : ∀ s, I (f s)) {n : ℕ} {p : Prog S ε α} {s : S}
    (hp : ((p.steps n s).1).Keeps I) : Settles f I n p s :=
  fun m => hp.cut m (hf _)

/-- A program that keeps the property settles it when the other party comes first. -/
theorem settles_zero_of_keeps (hf : ∀ s, I (f s)) {p : Prog S ε α} (hp : p.Keeps I) (s : S) :
    Settles f I 0 p s := settles_of_keeps hf (by simpa using hp)

/-- A finished program settles whatever the other party establishes. -/
@[simp] theorem settles_ret (hf : ∀ s, I (f s)) (n : ℕ) (a : α) (s : S) :
    Settles f I n (ret a : Prog S ε α) s := settles_of_keeps hf (by simp [Keeps])

/-- A failed program settles whatever the other party establishes. -/
@[simp] theorem settles_fail (hf : ∀ s, I (f s)) (n : ℕ) (e : ε) (s : S) :
    Settles f I n (fail e : Prog S ε α) s := settles_of_keeps hf (by simp [Keeps])

/-- Settling is violated by the final state of the resumed program. -/
theorem not_settles_of_run {n : ℕ} {p : Prog S ε α} {s : S}
    (h : ¬ I (((p.steps n s).1).run (f (p.steps n s).2)).2) : ¬ Settles f I n p s := by
  intro hall
  apply h
  rw [← cut_of_count_le (Nat.le_refl _)]
  exact hall _

/-- Past the first part of a sequence, the continuation decides. -/
theorem settles_bind_add {p : Prog S ε α} {k : α → Prog S ε β} {s t : S} {a : α}
    (hrun : p.run s = (.ok a, t)) (n : ℕ) :
    Settles f I (p.count s + n) (p >>= k) s ↔ Settles f I n (k a) t := by
  unfold Settles interrupted
  rw [steps_bind_add hrun n]

/-- Inside a first part that keeps the property, with a continuation that keeps it, nothing can
undo the other party's step. -/
theorem settles_bind_of_keeps (hf : ∀ s, I (f s)) {n : ℕ} {p : Prog S ε α}
    {k : α → Prog S ε β} {s : S} (hn : n ≤ p.count s) (hp : ((p.steps n s).1).Keeps I)
    (hk : ∀ a, (k a).Keeps I) : Settles f I n (p >>= k) s := by
  apply settles_of_keeps hf
  rw [steps_bind_of_le hn]
  exact hp.bind hk

/-- A first part that fails regardless of the other party leaves its step in place. -/
theorem settles_bind_of_error (hf : ∀ s, I (f s)) {n : ℕ} {p : Prog S ε α}
    {k : α → Prog S ε β} {s t : S} {e : ε} (hp : p.Keeps I) (hi : p.Ignores f)
    (hrun : p.run s = (.error e, t)) : Settles f I n (p >>= k) s := by
  induction p generalizing n s with
  | ret a => simp at hrun
  | fail e' => exact settles_fail hf n e' s
  | stmt upd next ih =>
    cases n with
    | zero =>
      intro m
      have hfail : (stmt upd next : Prog S ε α).run (f s) = (.error e, f t) := by
        rw [Ignores.run hi, hrun]
      have hkeep : I ((stmt upd next : Prog S ε α).cut m (f s)) := hp.cut m (hf s)
      rw [← cut_bind_of_error (f := k) hfail] at hkeep
      simpa [interrupted] using hkeep
    | succ n =>
      have hnext : (next s).Keeps I := by
        have hkeeps := (hp (f s) (hf s)).2
        rwa [(hi s).2.1] at hkeeps
      exact ih s hnext (hi s).2.2 (by simpa using hrun)

/-- A first part that goes on regardless of the other party hands its step to a continuation
that undoes it. -/
theorem not_settles_bind {n : ℕ} {p : Prog S ε α} {k : α → Prog S ε β} {s t : S} {a : α}
    (hi : p.Ignores f) (hrun : p.run s = (.ok a, t)) (hn : n ≤ p.count s)
    (hk : ¬ I ((k a).run (f t)).2) : ¬ Settles f I n (p >>= k) s := by
  apply not_settles_of_run
  have hrest : ((p.steps n s).1).run (f (p.steps n s).2) = (.ok a, f t) := by
    rw [(hi.steps n s).run, run_steps, hrun]
  rw [steps_bind_of_le hn, run_bind_of_ok hrest]
  exact hk

/-- Inspecting an outcome and going on with nothing that breaks the property is as safe as the
inspected program. -/
theorem settles_attempt_bind (hf : ∀ s, I (f s)) {n : ℕ} {p : Prog S ε α}
    {k : Except ε α → Prog S γ β} (hk : ∀ r, (k r).KeepsThroughout I) (s : S) :
    Settles f I n (p.attempt >>= k) s ↔ Settles f I n p s := by
  induction p generalizing n s with
  | ret a =>
    have hleft : Settles f I n (k (.ok a)) s :=
      settles_of_keeps hf ((hk _).steps n s).keeps
    simpa [attempt, settles_ret hf] using hleft
  | fail e =>
    have hleft : Settles f I n (k (.error e)) s :=
      settles_of_keeps hf ((hk _).steps n s).keeps
    simpa [attempt, settles_fail hf] using hleft
  | stmt upd next ih =>
    cases n with
    | zero =>
      have hall := forall_cut_attempt_bind (p := stmt upd next) (fun r => (hk r).keeps) (f s)
      simpa [Settles, interrupted] using hall
    | succ n => exact ih s (upd s)

end Prog

end StatementProgram
