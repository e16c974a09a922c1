import Mathlib.Data.List.Forall2
import Mathlib.Data.Nat.Notation

/-!
# Programs made of atomic statements

A program over a shared state is a tree of atomic statements. Each statement updates the
state at once, and the rest of the program may depend on the state the statement found.
The same tree is run to completion, cut off between two statements, or interleaved with
other steps, so one translation of a function serves sequential, crash and concurrency
arguments.
-/

namespace StatementProgram

/-- A program over states `S` that fails with `ε` or returns `α`. -/
inductive Prog (S ε α : Type) where
  | ret (a : α)
  | fail (e : ε)
  | stmt (upd : S → S) (next : S → Prog S ε α)

namespace Prog

variable {S T ε α β γ : Type}

/-- Sequencing, stopping at the first failure. -/
def bind : Prog S ε α → (α → Prog S ε β) → Prog S ε β
  | ret a, f => f a
  | fail e, _ => fail e
  | stmt upd next, f => stmt upd fun s => (next s).bind f

instance : Monad (Prog S ε) where
  pure := ret
  bind := bind

/-- A statement that only reads the state. -/
def query (f : S → α) : Prog S ε α := stmt id fun s => ret (f s)

/-- A statement that only writes the state. -/
def exec (upd : S → S) : Prog S ε Unit := stmt upd fun _ => ret ()

/-- A statement that writes the state and returns a value of the state it found. -/
def execReturning (upd : S → S) (f : S → α) : Prog S ε α := stmt upd fun s => ret (f s)

/-- A statement that only writes the state, and fails without effect where it is refused. -/
def execUnless (refused : S → Option ε) (upd : S → S) : Prog S ε Unit :=
  stmt (fun s => if (refused s).isNone then upd s else s) fun s =>
    match refused s with
    | none => ret ()
    | some e => fail e

/-- The value of a computation outside the state, or its error. -/
def ofOption (e : ε) : Option α → Prog S ε α
  | some a => ret a
  | none => fail e

/-- The value or the error of a computation outside the state. -/
def ofExcept : Except ε α → Prog S ε α
  | .ok a => ret a
  | .error e => fail e

/-- Turn the failure of a program into a value its caller inspects. -/
def attempt : Prog S ε α → Prog S γ (Except ε α)
  | ret a => ret (.ok a)
  | fail e => ret (.error e)
  | stmt upd next => stmt upd fun s => (next s).attempt

/-- Rename the errors of a program. -/
def mapError (f : ε → γ) : Prog S ε α → Prog S γ α
  | ret a => ret a
  | fail e => fail (f e)
  | stmt upd next => stmt upd fun s => (next s).mapError f

/-- Run a program on a component of a larger state. -/
def zoom (get : T → S) (set : S → T → T) : Prog S ε α → Prog T ε α
  | ret a => ret a
  | fail e => fail e
  | stmt upd next => stmt (fun t => set (upd (get t)) t) fun t => (next (get t)).zoom get set

/-- Run every statement to the end of the program. -/
def run : Prog S ε α → S → Except ε α × S
  | ret a, s => (.ok a, s)
  | fail e, s => (.error e, s)
  | stmt upd next, s => (next s).run (upd s)

/-- The rest of the program and the state after at most `n` statements. -/
def steps : ℕ → Prog S ε α → S → Prog S ε α × S
  | n + 1, stmt upd next, s => steps n (next s) (upd s)
  | _, p, s => (p, s)

/-- The number of statements a run executes. -/
def count : Prog S ε α → S → ℕ
  | stmt upd next, s => (next s).count (upd s) + 1
  | _, _ => 0

/-- The state a crash leaves after `n` statements. -/
def cut (n : ℕ) (p : Prog S ε α) (s : S) : S := (p.steps n s).2

/-! ## Monad equations -/

@[simp] theorem pure_eq_ret (a : α) : (pure a : Prog S ε α) = ret a := rfl

@[simp] theorem ret_bind (a : α) (f : α → Prog S ε β) : (ret a >>= f) = f a := rfl

@[simp] theorem fail_bind (e : ε) (f : α → Prog S ε β) : (fail e >>= f) = fail e := rfl

@[simp] theorem stmt_bind (upd : S → S) (next : S → Prog S ε α) (f : α → Prog S ε β) :
    (stmt upd next >>= f) = stmt upd fun s => next s >>= f := rfl

/-- Nested sequencing is flattened, so that a run meets one statement at a time. -/
@[simp] theorem bind_assoc (p : Prog S ε α) (f : α → Prog S ε β) (g : β → Prog S ε γ) :
    (p >>= f >>= g) = p >>= fun a => f a >>= g := by
  induction p with
  | ret a => rfl
  | fail e => rfl
  | stmt upd next ih => simp only [stmt_bind, ih]

@[simp] theorem ofOption_some (e : ε) (a : α) : (ofOption e (some a) : Prog S ε α) = ret a := rfl

@[simp] theorem ofOption_none (e : ε) : (ofOption e none : Prog S ε α) = fail e := rfl

@[simp] theorem ofExcept_ok (a : α) : (ofExcept (.ok a) : Prog S ε α) = ret a := rfl

@[simp] theorem ofExcept_error (e : ε) : (ofExcept (.error e) : Prog S ε α) = fail e := rfl

/-! ## Computations outside the state -/

@[simp] theorem except_ok_bind (a : α) (f : α → Except ε β) :
    ((Except.ok a : Except ε α) >>= f) = f a := rfl

@[simp] theorem except_error_bind (e : ε) (f : α → Except ε β) :
    ((Except.error e : Except ε α) >>= f) = .error e := rfl

/-- A loop that stops at the first failure returns exactly the values of its steps. -/
theorem mapM_eq_ok {f : α → Except ε β} {l : List α} {out : List β} :
    l.mapM f = .ok out ↔ List.Forall₂ (fun a b => f a = .ok b) l out := by
  induction l generalizing out with
  | nil =>
    rw [List.mapM_nil, List.forall₂_nil_left_iff]
    exact ⟨fun h => by cases h; rfl, fun h => by rw [h]; rfl⟩
  | cons a rest ih =>
    rw [List.forall₂_cons_left_iff, List.mapM_cons]
    rcases hhead : f a with e | b
    · simp [Bind.bind, Except.bind]
    · rcases htail : rest.mapM f with e | tail
      · simp [Bind.bind, Except.bind, ← ih, htail]
      · simp [Bind.bind, Except.bind, Pure.pure, Except.pure, ← ih, htail, eq_comm]

/-- Such a loop returns exactly when every step does. -/
theorem mapM_isOk_iff {f : α → Except ε β} {l : List α} :
    (∃ out, l.mapM f = .ok out) ↔ ∀ a ∈ l, ∃ b, f a = .ok b := by
  simp only [mapM_eq_ok]
  induction l with
  | nil => simp
  | cons a rest ih =>
    simp only [List.forall₂_cons_left_iff, List.forall_mem_cons, ← ih]
    constructor
    · rintro ⟨out, b, tail, hb, htail, -⟩
      exact ⟨⟨b, hb⟩, tail, htail⟩
    · rintro ⟨⟨b, hb⟩, tail, htail⟩
      exact ⟨b :: tail, b, tail, hb, htail, rfl⟩

/-! ## Runs -/

@[simp] theorem run_ret (a : α) (s : S) : (ret a : Prog S ε α).run s = (.ok a, s) := rfl

@[simp] theorem run_fail (e : ε) (s : S) : (fail e : Prog S ε α).run s = (.error e, s) := rfl

@[simp] theorem run_stmt (upd : S → S) (next : S → Prog S ε α) (s : S) :
    (stmt upd next).run s = (next s).run (upd s) := rfl

@[simp] theorem run_query (f : S → α) (s : S) :
    (query f : Prog S ε α).run s = (.ok (f s), s) := rfl

@[simp] theorem run_exec (upd : S → S) (s : S) :
    (exec upd : Prog S ε Unit).run s = (.ok (), upd s) := rfl

@[simp] theorem run_execReturning (upd : S → S) (f : S → α) (s : S) :
    (execReturning upd f : Prog S ε α).run s = (.ok (f s), upd s) := rfl

/-- The continuation of a run that returned. -/
theorem run_bind_of_ok {p : Prog S ε α} {f : α → Prog S ε β} {s s' : S} {a : α}
    (h : p.run s = (.ok a, s')) : (p >>= f).run s = (f a).run s' := by
  induction p generalizing s with
  | ret b =>
    obtain ⟨rfl, rfl⟩ : b = a ∧ s = s' := by simpa using h
    rfl
  | fail e => simp at h
  | stmt upd next ih => exact ih s (by simpa using h)

/-- A failed run skips its continuation. -/
theorem run_bind_of_error {p : Prog S ε α} {f : α → Prog S ε β} {s s' : S} {e : ε}
    (h : p.run s = (.error e, s')) : (p >>= f).run s = (.error e, s') := by
  induction p generalizing s with
  | ret b => simp at h
  | fail e' =>
    obtain ⟨rfl, rfl⟩ : e' = e ∧ s = s' := by simpa using h
    rfl
  | stmt upd next ih => exact ih s (by simpa using h)

/-- A returning run splits at every sequencing point. -/
theorem run_bind_ok {p : Prog S ε α} {f : α → Prog S ε β} {s s' : S} {b : β}
    (h : (p >>= f).run s = (.ok b, s')) :
    ∃ a t, p.run s = (.ok a, t) ∧ (f a).run t = (.ok b, s') := by
  rcases hp : p.run s with ⟨r, t⟩
  cases r with
  | ok a => exact ⟨a, t, rfl, by rwa [run_bind_of_ok hp] at h⟩
  | error e => simp [run_bind_of_error hp] at h

/-- A returning run had the value it asked for. -/
theorem run_ofOption_bind_ok {e : ε} {o : Option α} {f : α → Prog S ε β} {s s' : S} {b : β}
    (h : (ofOption e o >>= f).run s = (.ok b, s')) : ∃ a, o = some a ∧ (f a).run s = (.ok b, s') := by
  cases o with
  | none => simp at h
  | some a => exact ⟨a, rfl, h⟩

/-- A returning run had computed its value. -/
theorem run_ofExcept_bind_ok {x : Except ε α} {f : α → Prog S ε β} {s s' : S} {b : β}
    (h : (ofExcept x >>= f).run s = (.ok b, s')) : ∃ a, x = .ok a ∧ (f a).run s = (.ok b, s') := by
  cases x with
  | error e => simp at h
  | ok a => exact ⟨a, rfl, h⟩

@[simp] theorem run_query_bind (f : S → α) (k : α → Prog S ε β) (s : S) :
    (query f >>= k).run s = (k (f s)).run s := rfl

@[simp] theorem run_exec_bind (upd : S → S) (k : Unit → Prog S ε β) (s : S) :
    (exec upd >>= k).run s = (k ()).run (upd s) := rfl

@[simp] theorem run_execReturning_bind (upd : S → S) (f : S → α) (k : α → Prog S ε β) (s : S) :
    (execReturning upd f >>= k).run s = (k (f s)).run (upd s) := rfl

/-- Inspecting the outcome of a program does not change what it does to the state. -/
@[simp] theorem run_attempt (p : Prog S ε α) (s : S) :
    (p.attempt : Prog S γ (Except ε α)).run s = (.ok (p.run s).1, (p.run s).2) := by
  induction p generalizing s with
  | ret a => rfl
  | fail e => rfl
  | stmt upd next ih => exact ih s (upd s)

/-- Renaming errors does not change what a returning run does. -/
theorem run_mapError_of_ok (f : ε → γ) {p : Prog S ε α} {s t : S} {a : α}
    (h : p.run s = (.ok a, t)) : (p.mapError f).run s = (.ok a, t) := by
  induction p generalizing s with
  | ret b => simpa [mapError] using h
  | fail e => simp at h
  | stmt upd next ih => exact ih s (by simpa using h)

/-- A failing run fails with the renamed error. -/
theorem run_mapError_of_error (f : ε → γ) {p : Prog S ε α} {s t : S} {e : ε}
    (h : p.run s = (.error e, t)) : (p.mapError f).run s = (.error (f e), t) := by
  induction p generalizing s with
  | ret b => simp at h
  | fail e' =>
    obtain ⟨rfl, rfl⟩ : e' = e ∧ s = t := by simpa using h
    rfl
  | stmt upd next ih => exact ih s (by simpa using h)

/-- Renaming errors changes the outcome alone. -/
theorem run_mapError (f : ε → γ) (p : Prog S ε α) (s : S) :
    (p.mapError f).run s = ((p.run s).1.mapError f, (p.run s).2) := by
  rcases h : p.run s with ⟨e | a, t⟩
  · rw [run_mapError_of_error f h]
    rfl
  · rw [run_mapError_of_ok f h]
    rfl

/-- A program on a component acts on that component only. -/
theorem run_zoom (get : T → S) (set : S → T → T) (hget : ∀ s t, get (set s t) = s)
    (hset : ∀ s s' t, set s' (set s t) = set s' t) (hself : ∀ t, set (get t) t = t)
    (p : Prog S ε α) (t : T) :
    (p.zoom get set).run t = ((p.run (get t)).1, set (p.run (get t)).2 t) := by
  induction p generalizing t with
  | ret a => rw [zoom, run_ret, run_ret, hself]
  | fail e => rw [zoom, run_fail, run_fail, hself]
  | stmt upd next ih => rw [zoom, run_stmt, ih, hget, hset, run_stmt]

/-! ## Statement counts and cut points -/

@[simp] theorem steps_zero (p : Prog S ε α) (s : S) : p.steps 0 s = (p, s) := by
  cases p <;> rfl

@[simp] theorem steps_ret (n : ℕ) (a : α) (s : S) :
    (ret a : Prog S ε α).steps n s = (ret a, s) := by cases n <;> rfl

@[simp] theorem steps_fail (n : ℕ) (e : ε) (s : S) :
    (fail e : Prog S ε α).steps n s = (fail e, s) := by cases n <;> rfl

@[simp] theorem steps_stmt_succ (n : ℕ) (upd : S → S) (next : S → Prog S ε α) (s : S) :
    (stmt upd next).steps (n + 1) s = (next s).steps n (upd s) := rfl

@[simp] theorem count_ret (a : α) (s : S) : (ret a : Prog S ε α).count s = 0 := rfl

@[simp] theorem count_fail (e : ε) (s : S) : (fail e : Prog S ε α).count s = 0 := rfl

@[simp] theorem count_query_bind (f : S → α) (k : α → Prog S ε β) (s : S) :
    (query f >>= k).count s = (k (f s)).count s + 1 := rfl

@[simp] theorem count_exec_bind (upd : S → S) (k : Unit → Prog S ε β) (s : S) :
    (exec upd >>= k).count s = (k ()).count (upd s) + 1 := rfl

@[simp] theorem count_execReturning_bind (upd : S → S) (f : S → α) (k : α → Prog S ε β)
    (s : S) : (execReturning upd f >>= k).count s = (k (f s)).count (upd s) + 1 := rfl

/-- Stopping a run and resuming it gives the result of the whole run. -/
theorem run_steps (n : ℕ) (p : Prog S ε α) (s : S) :
    ((p.steps n s).1).run (p.steps n s).2 = p.run s := by
  induction n generalizing p s with
  | zero => simp
  | succ n ih =>
    cases p with
    | ret a => simp
    | fail e => simp
    | stmt upd next => exact ih (next s) (upd s)

@[simp] theorem cut_zero (p : Prog S ε α) (s : S) : p.cut 0 s = s := by rw [cut, steps_zero]

@[simp] theorem cut_ret (n : ℕ) (a : α) (s : S) : (ret a : Prog S ε α).cut n s = s := by
  rw [cut, steps_ret]

@[simp] theorem cut_fail (n : ℕ) (e : ε) (s : S) : (fail e : Prog S ε α).cut n s = s := by
  rw [cut, steps_fail]

theorem cut_query_bind (n : ℕ) (f : S → α) (k : α → Prog S ε β) (s : S) :
    (query f >>= k).cut (n + 1) s = (k (f s)).cut n s := rfl

/-- From its last statement on, a program leaves the state of its whole run. -/
theorem cut_of_count_le {n : ℕ} {p : Prog S ε α} {s : S} (h : p.count s ≤ n) :
    p.cut n s = (p.run s).2 := by
  induction p generalizing n s with
  | ret a => simp [cut]
  | fail e => simp [cut]
  | stmt upd next ih =>
    cases n with
    | zero => simp [count] at h
    | succ n => exact ih s (by simpa [count] using h)

/-- To inspect the outcome of a program adds no statement. -/
theorem cut_attempt (n : ℕ) (p : Prog S ε α) (s : S) :
    (p.attempt : Prog S γ (Except ε α)).cut n s = p.cut n s := by
  induction p generalizing n s with
  | ret a => simp [attempt, cut]
  | fail e => simp [attempt, cut]
  | stmt upd next ih =>
    cases n with
    | zero => simp [cut]
    | succ n => exact ih s n (upd s)

theorem count_attempt (p : Prog S ε α) (s : S) :
    (p.attempt : Prog S γ (Except ε α)).count s = p.count s := by
  induction p generalizing s with
  | ret a => rfl
  | fail e => rfl
  | stmt upd next ih => exact congrArg (· + 1) (ih s (upd s))

theorem cut_mapError (n : ℕ) (f : ε → γ) (p : Prog S ε α) (s : S) :
    (p.mapError f).cut n s = p.cut n s := by
  induction p generalizing n s with
  | ret a => simp [mapError, cut]
  | fail e => simp [mapError, cut]
  | stmt upd next ih =>
    cases n with
    | zero => simp [cut]
    | succ n => exact ih s n (upd s)

/-- A sequence takes at least the statements of its first part. -/
theorem count_le_bind (p : Prog S ε α) (f : α → Prog S ε β) (s : S) :
    p.count s ≤ (p >>= f).count s := by
  induction p generalizing s with
  | ret a => exact Nat.zero_le _
  | fail e => exact Nat.zero_le _
  | stmt upd next ih => exact Nat.succ_le_succ (ih s (upd s))

theorem count_mapError (f : ε → γ) (p : Prog S ε α) (s : S) :
    (p.mapError f).count s = p.count s := by
  induction p generalizing s with
  | ret a => rfl
  | fail e => rfl
  | stmt upd next ih => rw [mapError, count, count, ih]

/-- A program on a component takes as many statements. -/
theorem count_zoom (get : T → S) (set : S → T → T) (hget : ∀ s t, get (set s t) = s)
    (p : Prog S ε α) (t : T) : (p.zoom get set).count t = p.count (get t) := by
  induction p generalizing t with
  | ret a => rfl
  | fail e => rfl
  | stmt upd next ih => rw [zoom, count, count, ih, hget]

/-- A cut of a program on a component leaves what the cut of the program leaves of it. -/
theorem cut_zoom (get : T → S) (set : S → T → T) (hget : ∀ s t, get (set s t) = s)
    (hset : ∀ s s' t, set s' (set s t) = set s' t) (hself : ∀ t, set (get t) t = t) (n : ℕ)
    (p : Prog S ε α) (t : T) : (p.zoom get set).cut n t = set (p.cut n (get t)) t := by
  induction p generalizing n t with
  | ret a => rw [zoom, cut_ret, cut_ret, hself]
  | fail e => rw [zoom, cut_fail, cut_fail, hself]
  | stmt upd next ih =>
    cases n with
    | zero => rw [cut_zero, cut_zero, hself]
    | succ n =>
      have hrest := ih (get t) n (set (upd (get t)) t)
      rw [hget, hset] at hrest
      exact hrest

/-- A cut inside the first part of a sequence is a cut of that part. -/
theorem cut_bind_of_le {n : ℕ} {p : Prog S ε α} {f : α → Prog S ε β} {s : S}
    (h : n ≤ p.count s) : (p >>= f).cut n s = p.cut n s := by
  induction p generalizing n s with
  | ret a =>
    obtain rfl : n = 0 := by simpa [count] using h
    simp [cut]
  | fail e => simp [cut]
  | stmt upd next ih =>
    cases n with
    | zero => simp [cut]
    | succ n => exact ih s (by simpa [count] using h)

/-- A cut past the first part of a sequence is a cut of its continuation. -/
theorem cut_bind_of_ok {p : Prog S ε α} {f : α → Prog S ε β} {s t : S} {a : α}
    (hrun : p.run s = (.ok a, t)) (n : ℕ) :
    (p >>= f).cut (p.count s + n) s = (f a).cut n t := by
  induction p generalizing s with
  | ret b =>
    obtain ⟨rfl, rfl⟩ : b = a ∧ s = t := by simpa using hrun
    simp [count]
  | fail e => simp at hrun
  | stmt upd next ih =>
    have hcount : (stmt upd next : Prog S ε α).count s + n =
        ((next s).count (upd s) + n) + 1 := by simp only [count]; omega
    rw [hcount]
    exact ih s (by simpa using hrun)

/-- The cuts of a sequence, by its two parts. -/
theorem forall_cut_bind {Q : ℕ → S → Prop} {p : Prog S ε α} {f : α → Prog S ε β} {s t : S} {a : α}
    (hrun : p.run s = (.ok a, t)) (hp : ∀ n ≤ p.count s, Q n (p.cut n s))
    (hf : ∀ n, Q (p.count s + n) ((f a).cut n t)) (n : ℕ) : Q n ((p >>= f).cut n s) := by
  rcases Nat.le_total n (p.count s) with hle | hge
  · rw [cut_bind_of_le hle]
    exact hp n hle
  · obtain ⟨m, rfl⟩ := Nat.exists_eq_add_of_le hge
    rw [cut_bind_of_ok hrun]
    exact hf m

/-- A cut past a first part of one statement. -/
theorem cut_bind_of_single {p : Prog S ε α} {f : α → Prog S ε β} {s t : S} {a : α}
    (hrun : p.run s = (.ok a, t)) (hcount : p.count s = 1) (n : ℕ) :
    (p >>= f).cut (n + 1) s = (f a).cut n t := by
  rw [Nat.add_comm, ← hcount]
  exact cut_bind_of_ok hrun n

/-- The cuts behind a query that leads a program are those of its continuation. -/
theorem forall_cut_query_bind {Q : S → Prop} {f : S → α} {k : α → Prog S ε β} {s : S} (hs : Q s)
    (hk : ∀ n, Q ((k (f s)).cut n s)) (n : ℕ) : Q ((query f >>= k).cut n s) := by
  cases n with
  | zero =>
    rw [cut_zero]
    exact hs
  | succ n => exact hk n

/-- The cuts of a sequence whose first part fails are the cuts of that part. -/
theorem cut_bind_of_error {p : Prog S ε α} {f : α → Prog S ε β} {n : ℕ} {s t : S} {e : ε}
    (hrun : p.run s = (.error e, t)) : (p >>= f).cut n s = p.cut n s := by
  induction p generalizing n s with
  | ret a => simp at hrun
  | fail e' => simp [cut]
  | stmt upd next ih =>
    cases n with
    | zero => simp [cut]
    | succ n => exact ih s (by simpa using hrun)

/-- The statements of a sequence are those of its two parts. -/
theorem count_bind_of_ok {p : Prog S ε α} {f : α → Prog S ε β} {s t : S} {a : α}
    (hrun : p.run s = (.ok a, t)) : (p >>= f).count s = p.count s + (f a).count t := by
  induction p generalizing s with
  | ret b =>
    obtain ⟨rfl, rfl⟩ : b = a ∧ s = t := by simpa using hrun
    simp [count]
  | fail e => simp at hrun
  | stmt upd next ih =>
    have htail := ih s (s := upd s) (by simpa using hrun)
    simp only [stmt_bind, count, htail]
    omega

/-! ## Properties kept by every statement -/

/-- Every statement of the program keeps `I`, whatever state satisfying `I` it finds. -/
def Keeps (I : S → Prop) : Prog S ε α → Prop
  | stmt upd next => ∀ s, I s → I (upd s) ∧ (next s).Keeps I
  | _ => True

theorem Keeps.bind {I : S → Prop} {p : Prog S ε α} {f : α → Prog S ε β}
    (hp : p.Keeps I) (hf : ∀ a, (f a).Keeps I) : (p >>= f).Keeps I := by
  induction p with
  | ret a => exact hf a
  | fail e => trivial
  | stmt upd next ih => exact fun s hs => ⟨(hp s hs).1, ih s (hp s hs).2⟩

theorem Keeps.query {I : S → Prop} (f : S → α) : (query f : Prog S ε α).Keeps I :=
  fun _ hs => ⟨hs, trivial⟩

/-- What follows a query may rely on the state the query found. -/
theorem Keeps.query_bind {I : S → Prop} {f : S → α} {k : α → Prog S ε β}
    (h : ∀ s, I s → (k (f s)).Keeps I) : (Prog.query f >>= k).Keeps I :=
  fun s hs => ⟨hs, h s hs⟩

theorem Keeps.exec {I : S → Prop} {upd : S → S} (h : ∀ s, I s → I (upd s)) :
    (exec upd : Prog S ε Unit).Keeps I :=
  fun s hs => ⟨h s hs, trivial⟩

theorem Keeps.execReturning {I : S → Prop} {upd : S → S} (f : S → α)
    (h : ∀ s, I s → I (upd s)) : (execReturning upd f : Prog S ε α).Keeps I :=
  fun s hs => ⟨h s hs, trivial⟩

/-- A refused write keeps everything. -/
theorem Keeps.execUnless {I : S → Prop} {refused : S → Option ε} {upd : S → S}
    (h : ∀ s, I s → refused s = none → I (upd s)) :
    (execUnless refused upd : Prog S ε Unit).Keeps I := by
  intro s hs
  dsimp only
  cases hrefused : refused s with
  | none => exact ⟨h s hs hrefused, trivial⟩
  | some e => exact ⟨hs, trivial⟩

theorem Keeps.ofOption {I : S → Prop} (e : ε) (o : Option α) :
    (ofOption e o : Prog S ε α).Keeps I := by cases o <;> trivial

theorem Keeps.ofOption_bind {I : S → Prop} {e : ε} {o : Option α} {k : α → Prog S ε β}
    (h : ∀ a, o = some a → (k a).Keeps I) : (Prog.ofOption e o >>= k).Keeps I := by
  cases o with
  | none => trivial
  | some a => exact h a rfl

theorem Keeps.ofExcept_bind {I : S → Prop} {x : Except ε α} {k : α → Prog S ε β}
    (h : ∀ a, x = .ok a → (k a).Keeps I) : (Prog.ofExcept x >>= k).Keeps I := by
  cases x with
  | error e => trivial
  | ok a => exact h a rfl

theorem Keeps.ofExcept {I : S → Prop} (x : Except ε α) :
    (ofExcept x : Prog S ε α).Keeps I := by cases x <;> trivial

/-- A write that is not refused. -/
theorem run_execUnless_of_none {refused : S → Option ε} {upd : S → S} {s : S}
    (h : refused s = none) : (execUnless refused upd : Prog S ε Unit).run s = (.ok (), upd s) := by
  rw [execUnless, run_stmt, h]
  rfl

/-- A property kept by every statement holds at every cut point. -/
theorem Keeps.cut {I : S → Prop} {p : Prog S ε α} (hp : p.Keeps I) (n : ℕ) {s : S}
    (hs : I s) : I (p.cut n s) := by
  induction n generalizing p s with
  | zero => simpa [Prog.cut] using hs
  | succ n ih =>
    cases p with
    | ret a => simpa [Prog.cut] using hs
    | fail e => simpa [Prog.cut] using hs
    | stmt upd next => exact ih (hp s hs).2 (hp s hs).1

/-- A property kept by every statement holds after the run. -/
theorem Keeps.run {I : S → Prop} {p : Prog S ε α} (hp : p.Keeps I) {s : S} (hs : I s) :
    I (p.run s).2 := by
  rw [← cut_of_count_le (Nat.le_refl (p.count s))]
  exact hp.cut _ hs

theorem Keeps.attempt {I : S → Prop} {p : Prog S ε α} (hp : p.Keeps I) :
    (p.attempt : Prog S γ (Except ε α)).Keeps I := by
  induction p with
  | ret a => trivial
  | fail e => trivial
  | stmt upd next ih => exact fun s hs => ⟨(hp s hs).1, ih s (hp s hs).2⟩

theorem Keeps.mapError {I : S → Prop} {f : ε → γ} {p : Prog S ε α} (hp : p.Keeps I) :
    (p.mapError f).Keeps I := by
  induction p with
  | ret a => trivial
  | fail e => trivial
  | stmt upd next ih => exact fun s hs => ⟨(hp s hs).1, ih s (hp s hs).2⟩

/-- A program on a component keeps what it keeps of the component. -/
theorem Keeps.zoom {I : S → Prop} {get : T → S} {set : S → T → T}
    (hget : ∀ s t, get (set s t) = s) {p : Prog S ε α} (hp : p.Keeps I) :
    (p.zoom get set).Keeps fun t => I (get t) := by
  induction p with
  | ret a => trivial
  | fail e => trivial
  | stmt upd next ih =>
    intro t ht
    have hstep := hp (get t) ht
    refine ⟨?_, ih (get t) hstep.2⟩
    show I (get (set (upd (get t)) t))
    rw [hget]
    exact hstep.1

/-- A program on a component keeps what does not depend on the component. -/
theorem keeps_zoom_of_frame {J : T → Prop} {get : T → S} {set : S → T → T}
    (hset : ∀ s t, J t → J (set s t)) (p : Prog S ε α) : (p.zoom get set).Keeps J := by
  induction p with
  | ret a => trivial
  | fail e => trivial
  | stmt upd next ih => exact fun t ht => ⟨hset _ t ht, ih (get t)⟩

/-- Two properties kept separately are kept together. -/
theorem Keeps.and {I J : S → Prop} {p : Prog S ε α} (hI : p.Keeps I) (hJ : p.Keeps J) :
    p.Keeps fun s => I s ∧ J s := by
  induction p with
  | ret a => trivial
  | fail e => trivial
  | stmt upd next ih =>
    exact fun s hs => ⟨⟨(hI s hs.1).1, (hJ s hs.2).1⟩, ih s (hI s hs.1).2 (hJ s hs.2).2⟩

/-! ## Properties of what is returned -/

/-- Every statement of the program keeps `I`, and what the program returns satisfies `Q`. -/
def Yields (I : S → Prop) (Q : α → Prop) : Prog S ε α → Prop
  | ret a => Q a
  | fail _ => True
  | stmt upd next => ∀ s, I s → I (upd s) ∧ (next s).Yields I Q

theorem Yields.keeps {I : S → Prop} {Q : α → Prop} {p : Prog S ε α} (hp : p.Yields I Q) :
    p.Keeps I := by
  induction p with
  | ret a => trivial
  | fail e => trivial
  | stmt upd next ih => exact fun s hs => ⟨(hp s hs).1, ih s (hp s hs).2⟩

theorem Keeps.yields {I : S → Prop} {p : Prog S ε α} (hp : p.Keeps I) :
    p.Yields I fun _ => True := by
  induction p with
  | ret a => trivial
  | fail e => trivial
  | stmt upd next ih => exact fun s hs => ⟨(hp s hs).1, ih s (hp s hs).2⟩

/-- Less may be said about what is returned. -/
theorem Yields.mono {I : S → Prop} {Q R : α → Prop} {p : Prog S ε α} (hp : p.Yields I Q)
    (hQR : ∀ a, Q a → R a) : p.Yields I R := by
  induction p with
  | ret a => exact hQR a hp
  | fail e => trivial
  | stmt upd next ih => exact fun s hs => ⟨(hp s hs).1, ih s (hp s hs).2⟩

/-- What follows a program may rely on what the program returns. -/
theorem Yields.bind {I : S → Prop} {Q : α → Prop} {R : β → Prop} {p : Prog S ε α}
    {f : α → Prog S ε β} (hp : p.Yields I Q) (hf : ∀ a, Q a → (f a).Yields I R) :
    (p >>= f).Yields I R := by
  induction p with
  | ret a => exact hf a hp
  | fail e => trivial
  | stmt upd next ih => exact fun s hs => ⟨(hp s hs).1, ih s (hp s hs).2⟩

theorem Yields.bind_keeps {I : S → Prop} {Q : α → Prop} {p : Prog S ε α} {f : α → Prog S ε β}
    (hp : p.Yields I Q) (hf : ∀ a, Q a → (f a).Keeps I) : (p >>= f).Keeps I := by
  induction p with
  | ret a => exact hf a hp
  | fail e => trivial
  | stmt upd next ih => exact fun s hs => ⟨(hp s hs).1, ih s (hp s hs).2⟩

theorem Yields.execReturning {I : S → Prop} {Q : α → Prop} {upd : S → S} {f : S → α}
    (h : ∀ s, I s → I (upd s) ∧ Q (f s)) : (execReturning upd f : Prog S ε α).Yields I Q := h

theorem Yields.query {I : S → Prop} {Q : α → Prop} {f : S → α} (h : ∀ s, I s → Q (f s)) :
    (Prog.query f : Prog S ε α).Yields I Q := fun s hs => ⟨hs, h s hs⟩

theorem Yields.query_bind {I : S → Prop} {R : β → Prop} {f : S → α} {k : α → Prog S ε β}
    (h : ∀ s, I s → (k (f s)).Yields I R) : (Prog.query f >>= k).Yields I R :=
  fun s hs => ⟨hs, h s hs⟩

theorem Yields.ofOption_bind {I : S → Prop} {R : β → Prop} {e : ε} {o : Option α}
    {k : α → Prog S ε β} (h : ∀ a, o = some a → (k a).Yields I R) :
    (Prog.ofOption e o >>= k).Yields I R := by
  cases o with
  | none => trivial
  | some a => exact h a rfl

theorem Yields.ofOption {I : S → Prop} {Q : α → Prop} (e : ε) {o : Option α}
    (h : ∀ a, o = some a → Q a) : (Prog.ofOption e o : Prog S ε α).Yields I Q := by
  cases o with
  | none => trivial
  | some a => exact h a rfl

/-- An inspected program returns what the program returns, or its error. -/
theorem Yields.attempt {I : S → Prop} {Q : α → Prop} {p : Prog S ε α} (hp : p.Yields I Q) :
    (p.attempt : Prog S γ (Except ε α)).Yields I fun r => ∀ a, r = .ok a → Q a := by
  induction p with
  | ret a =>
    intro b h
    cases h
    exact hp
  | fail e =>
    intro b h
    cases h
  | stmt upd next ih => exact fun s hs => ⟨(hp s hs).1, ih s (hp s hs).2⟩

theorem Yields.mapError {I : S → Prop} {Q : α → Prop} {g : ε → γ} {p : Prog S ε α}
    (hp : p.Yields I Q) : (p.mapError g).Yields I Q := by
  induction p with
  | ret a => exact hp
  | fail e => trivial
  | stmt upd next ih => exact fun s hs => ⟨(hp s hs).1, ih s (hp s hs).2⟩

theorem Yields.ofExcept {I : S → Prop} {Q : α → Prop} {x : Except ε α}
    (h : ∀ a, x = .ok a → Q a) : (Prog.ofExcept x : Prog S ε α).Yields I Q := by
  cases x with
  | error e => trivial
  | ok a => exact h a rfl

/-- What a run returns satisfies the property. -/
theorem Yields.run {I : S → Prop} {Q : α → Prop} {p : Prog S ε α} (hp : p.Yields I Q) {s t : S}
    (hs : I s) {a : α} (hrun : p.run s = (.ok a, t)) : Q a := by
  induction p generalizing s with
  | ret b =>
    have hb : b = a := by simpa using congrArg (·.1) hrun
    exact hb ▸ hp
  | fail e => simp at hrun
  | stmt upd next ih => exact ih s (hp s hs).2 (hp s hs).1 (by simpa using hrun)

/-! ## Components that no statement changes -/

/-- No statement of the program changes the component `f` of the state. -/
def Fixes {κ : Type} (f : S → κ) : Prog S ε α → Prop
  | stmt upd next => ∀ s, f (upd s) = f s ∧ (next s).Fixes f
  | _ => True

section Fixes

variable {κ : Type} {f : S → κ}

theorem Fixes.bind {p : Prog S ε α} {k : α → Prog S ε β} (hp : p.Fixes f)
    (hk : ∀ a, (k a).Fixes f) : (p >>= k).Fixes f := by
  induction p with
  | ret a => exact hk a
  | fail e => trivial
  | stmt upd next ih => exact fun s => ⟨(hp s).1, ih s (hp s).2⟩

theorem Fixes.pure (a : α) : (Pure.pure a : Prog S ε α).Fixes f := trivial

theorem Fixes.query (g : S → α) : (Prog.query g : Prog S ε α).Fixes f := fun _ => ⟨rfl, trivial⟩

theorem Fixes.exec {upd : S → S} (h : ∀ s, f (upd s) = f s) :
    (Prog.exec upd : Prog S ε Unit).Fixes f := fun s => ⟨h s, trivial⟩

theorem Fixes.execReturning {upd : S → S} (g : S → α) (h : ∀ s, f (upd s) = f s) :
    (Prog.execReturning upd g : Prog S ε α).Fixes f := fun s => ⟨h s, trivial⟩

theorem Fixes.ofOption (e : ε) (o : Option α) : (Prog.ofOption e o : Prog S ε α).Fixes f := by
  cases o <;> trivial

theorem Fixes.ofExcept (x : Except ε α) : (Prog.ofExcept x : Prog S ε α).Fixes f := by
  cases x <;> trivial

theorem Fixes.attempt {p : Prog S ε α} (hp : p.Fixes f) :
    (p.attempt : Prog S γ (Except ε α)).Fixes f := by
  induction p with
  | ret a => trivial
  | fail e => trivial
  | stmt upd next ih => exact fun s => ⟨(hp s).1, ih s (hp s).2⟩

theorem Fixes.mapError {g : ε → γ} {p : Prog S ε α} (hp : p.Fixes f) : (p.mapError g).Fixes f := by
  induction p with
  | ret a => trivial
  | fail e => trivial
  | stmt upd next ih => exact fun s => ⟨(hp s).1, ih s (hp s).2⟩

/-- A run leaves the component as it was. -/
theorem Fixes.run {p : Prog S ε α} (hp : p.Fixes f) (s : S) : f (p.run s).2 = f s := by
  induction p generalizing s with
  | ret a => rfl
  | fail e => rfl
  | stmt upd next ih =>
    rw [run_stmt, ih s (hp s).2]
    exact (hp s).1

/-- A program on a component keeps what survives every change of it that leaves `f` alone. -/
theorem Fixes.keeps_zoom {I : T → Prop} {get : T → S} {set : S → T → T}
    (hset : ∀ s t, f s = f (get t) → I t → I (set s t)) {p : Prog S ε α} (hp : p.Fixes f) :
    (p.zoom get set).Keeps I := by
  induction p with
  | ret a => trivial
  | fail e => trivial
  | stmt upd next ih =>
    exact fun t ht => ⟨hset _ t (hp (get t)).1 ht, ih (get t) (hp (get t)).2⟩

/-- A program on a component fixes what it fixes of the component. -/
theorem Fixes.zoom {get : T → S} {set : S → T → T} (hget : ∀ s t, get (set s t) = s)
    {p : Prog S ε α} (hp : p.Fixes f) : (p.zoom get set).Fixes fun t => f (get t) := by
  induction p with
  | ret a => trivial
  | fail e => trivial
  | stmt upd next ih =>
    intro t
    refine ⟨?_, ih (get t) (hp (get t)).2⟩
    show f (get (set (upd (get t)) t)) = f (get t)
    rw [hget]
    exact (hp (get t)).1

/-- A program on a component fixes what depends on the component through `f` alone. -/
theorem Fixes.zoom_frame {μ : Type} {g : T → μ} {get : T → S} {set : S → T → T}
    (hset : ∀ s t, f s = f (get t) → g (set s t) = g t) {p : Prog S ε α} (hp : p.Fixes f) :
    (p.zoom get set).Fixes g := by
  induction p with
  | ret a => trivial
  | fail e => trivial
  | stmt upd next ih =>
    exact fun t => ⟨hset _ t (hp (get t)).1, ih (get t) (hp (get t)).2⟩

/-- A program keeps what depends on the component alone. -/
theorem Fixes.keeps_of {Q : κ → Prop} {p : Prog S ε α} (hp : p.Fixes f) :
    p.Keeps fun s => Q (f s) := by
  induction p with
  | ret a => trivial
  | fail e => trivial
  | stmt upd next ih =>
    intro s hs
    refine ⟨?_, ih s (hp s).2⟩
    show Q (f (upd s))
    rw [(hp s).1]
    exact hs

/-- A program that only reads keeps everything. -/
theorem Fixes.keeps {I : S → Prop} {p : Prog S ε α} (hp : p.Fixes id) : p.Keeps I := by
  induction p with
  | ret a => trivial
  | fail e => trivial
  | stmt upd next ih =>
    intro s hs
    have hread : upd s = s := (hp s).1
    refine ⟨?_, ih s (hp s).2⟩
    rwa [hread]

/-- What only reads leaves the state behind a sequence as its first part left it. -/
theorem Fixes.run_bind {k : α → Prog S ε β} (hk : ∀ a, (k a).Fixes id) (p : Prog S ε α) (s : S) :
    ((p >>= k).run s).2 = (p.run s).2 := by
  induction p generalizing s with
  | ret a => exact (hk a).run s
  | fail e => rfl
  | stmt upd next ih => exact ih s (upd s)

theorem Fixes.cut_bind {k : α → Prog S ε β} (hk : ∀ a, (k a).Fixes id) (n : ℕ) (p : Prog S ε α)
    (s : S) : (p >>= k).cut n s = p.cut n s := by
  induction p generalizing n s with
  | ret a =>
    have hsame : (k a).Keeps (· = s) := (hk a).keeps
    rw [cut_ret]
    exact hsame.cut n rfl
  | fail e => rw [fail_bind, cut_fail, cut_fail]
  | stmt upd next ih =>
    cases n with
    | zero => simp [cut]
    | succ n => exact ih s n (upd s)

end Fixes

/-! ## Programs that fail without effect -/

/-- The program always returns. -/
def NeverFails : Prog S ε α → Prop
  | ret _ => True
  | fail _ => False
  | stmt _ next => ∀ s, (next s).NeverFails

theorem NeverFails.bind {p : Prog S ε α} {k : α → Prog S ε β} (hp : p.NeverFails)
    (hk : ∀ a, (k a).NeverFails) : (p >>= k).NeverFails := by
  induction p with
  | ret a => exact hk a
  | fail e => exact False.elim hp
  | stmt upd next ih => exact fun s => ih s (hp s)

theorem NeverFails.query (f : S → α) : (Prog.query f : Prog S ε α).NeverFails := fun _ => trivial

theorem NeverFails.exec (upd : S → S) : (Prog.exec upd : Prog S ε Unit).NeverFails :=
  fun _ => trivial

theorem NeverFails.execReturning (upd : S → S) (f : S → α) :
    (Prog.execReturning upd f : Prog S ε α).NeverFails := fun _ => trivial

theorem NeverFails.zoom {get : T → S} {set : S → T → T} {p : Prog S ε α} (hp : p.NeverFails) :
    (p.zoom get set).NeverFails := by
  induction p with
  | ret a => trivial
  | fail e => exact hp
  | stmt upd next ih => exact fun t => ih (get t) (hp (get t))

theorem NeverFails.mapError {g : ε → γ} {p : Prog S ε α} (hp : p.NeverFails) :
    (p.mapError g).NeverFails := by
  induction p with
  | ret a => trivial
  | fail e => exact hp
  | stmt upd next ih => exact fun s => ih s (hp s)

theorem NeverFails.run {p : Prog S ε α} (hp : p.NeverFails) (s : S) :
    ∃ a t, p.run s = (.ok a, t) := by
  induction p generalizing s with
  | ret a => exact ⟨a, s, rfl⟩
  | fail e => exact False.elim hp
  | stmt upd next ih => exact ih s (hp s) (upd s)

section FailsClean

variable {κ : Type} {f : S → κ}

/-- A run that fails leaves the component `f` of the state as it was. -/
def FailsClean (f : S → κ) (p : Prog S ε α) : Prop :=
  ∀ s e t, p.run s = (.error e, t) → f t = f s

theorem NeverFails.failsClean {p : Prog S ε α} (hp : p.NeverFails) : p.FailsClean f := by
  intro s e t hrun
  obtain ⟨a, t', hok⟩ := hp.run s
  rw [hok] at hrun
  cases hrun

theorem Fixes.failsClean {p : Prog S ε α} (hp : p.Fixes f) : p.FailsClean f := by
  intro s e t hrun
  have hfix := hp.run s
  rwa [hrun] at hfix

/-- A program that has not written yet may fail. -/
theorem Fixes.bind_failsClean {p : Prog S ε α} {k : α → Prog S ε β} (hp : p.Fixes f)
    (hk : ∀ a, (k a).FailsClean f) : (p >>= k).FailsClean f := by
  induction p with
  | ret a => exact hk a
  | fail e => exact Fixes.failsClean (p := fail e) trivial
  | stmt upd next ih =>
    intro s e t hrun
    rw [← (hp s).1]
    exact ih s (hp s).2 (upd s) e t hrun

end FailsClean

end Prog

end StatementProgram
