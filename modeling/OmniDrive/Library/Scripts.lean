import OmniDrive.Library.GuardedRuns

/-!
# Scripts in progress

A script is a program whose writes are data, so that a condition on a write and the state it finds
can be stated. Any number of scripts are in progress at once, and the next statement may be one of
any. If the condition is what keeps a property, the property holds in every state of a run just if
every write of the run meets the condition.
-/

namespace Scripts

open GuardedRuns

variable {S A O α β : Type}

/-- A program of writes `A` on states `S`. What comes next may depend on the state a statement has
found. -/
inductive Script (S A α : Type) where
  | ret (a : α)
  | read (next : S → Script S A α)
  | write (a : A) (next : S → Script S A α)

namespace Script

/-- Sequencing. -/
def bind : Script S A α → (α → Script S A β) → Script S A β
  | ret a, f => f a
  | read next, f => read fun s => (next s).bind f
  | write a next, f => write a fun s => (next s).bind f

instance : Monad (Script S A) where
  pure := ret
  bind := bind

/-- A statement that only reads. -/
def query (f : S → α) : Script S A α := read fun s => ret (f s)

/-- A statement that only writes. -/
def exec (a : A) : Script S A Unit := write a fun _ => ret ()

/-- A statement that writes and returns a value of the state it found. -/
def execReturning (a : A) (f : S → α) : Script S A α := write a fun s => ret (f s)

@[simp] theorem pure_eq_ret (a : α) : (pure a : Script S A α) = ret a := rfl

@[simp] theorem ret_bind (a : α) (f : α → Script S A β) : (ret a >>= f) = f a := rfl

@[simp] theorem query_bind (g : S → α) (f : α → Script S A β) :
    (query g >>= f) = read fun s => f (g s) := rfl

@[simp] theorem exec_bind (a : A) (f : Unit → Script S A β) :
    (exec a >>= f) = write a fun _ => f () := rfl

@[simp] theorem execReturning_bind (a : A) (g : S → α) (f : α → Script S A β) :
    (execReturning a g >>= f) = write a fun s => f (g s) := rfl

/-- The state behind a script that nothing interrupts. -/
def run (effect : A → S → S) : Script S A α → S → S
  | ret _, s => s
  | read next, s => (next s).run effect s
  | write a next, s => (next s).run effect (effect a s)

/-- Whatever others do between its statements, as long as the state only moves along a relation,
each write of the script finds a state that it fits, and its result fits the state as well. -/
def Promises (later : S → S → Prop) (effect : A → S → S) (fits : A → S → Prop)
    (result : α → S → Prop) : Script S A α → S → Prop
  | ret a, s => result a s
  | read next, s => ∀ s', later s s' → (next s').Promises later effect fits result s'
  | write a next, s => ∀ s', later s s' →
      fits a s' ∧ (next s').Promises later effect fits result (effect a s')

section Promises

variable {later : S → S → Prop} {effect : A → S → S} {fits : A → S → Prop}
  (htrans : ∀ s t u, later s t → later t u → later s u)

include htrans in
/-- A promise outlives what others do. -/
theorem Promises.mono {result : α → S → Prop} (hresult : ∀ a s s', later s s' → result a s → result a s')
    {p : Script S A α} {s s' : S} (hlater : later s s') (h : p.Promises later effect fits result s) :
    p.Promises later effect fits result s' := by
  cases p with
  | ret a => exact hresult a s s' hlater h
  | read next => exact fun t ht => h t (htrans s s' t hlater ht)
  | write a next => exact fun t ht => h t (htrans s s' t hlater ht)

/-- Sequencing keeps promises. -/
theorem Promises.bind {result : α → S → Prop} {result' : β → S → Prop} {p : Script S A α}
    {f : α → Script S A β} {s : S} (h : p.Promises later effect fits result s)
    (hf : ∀ a t, result a t → (f a).Promises later effect fits result' t) :
    (p >>= f).Promises later effect fits result' s := by
  induction p generalizing s with
  | ret a => exact hf a s h
  | read next ih => exact fun t ht => ih t (h t ht)
  | write a next ih => exact fun t ht => ⟨(h t ht).1, ih t (h t ht).2⟩

end Promises

end Script

/-! ## Interleavings -/

/-- A state with the scripts in progress. -/
structure System (S A : Type) where
  state : S
  tasks : List (Script S A Unit) := []

/-- An operation begins, a script takes its next statement, or a script is given up. -/
inductive Event (O : Type) where
  | start (op : O)
  | stmt (i : ℕ)
  | drop (i : ℕ)

variable (program : O → Script S A Unit) (effect : A → S → S)

def Event.apply (e : Event O) (s : System S A) : System S A :=
  match e with
  | start op => { s with tasks := s.tasks ++ [program op] }
  | stmt i => match s.tasks[i]? with
    | some (.write a next) =>
      { state := effect a s.state, tasks := s.tasks.set i (next s.state) }
    | some (.read next) => { s with tasks := s.tasks.set i (next s.state) }
    | _ => s
  | drop i => { s with tasks := s.tasks.eraseIdx i }

/-- The write that an event executes. -/
def Event.executed (e : Event O) (s : System S A) : Option A :=
  match e with
  | stmt i => match s.tasks[i]? with
    | some (.write a _) => some a
    | _ => none
  | _ => none

/-- A condition on the write of an event. -/
def OnWrites (guard : A → S → Prop) (e : Event O) (s : System S A) : Prop :=
  ∀ a, e.executed s = some a → guard a s.state

/-- Only the write of an event changes the state. -/
theorem state_apply (e : Event O) (s : System S A) :
    (e.apply program effect s).state =
      match e.executed s with
      | some a => effect a s.state
      | none => s.state := by
  cases e with
  | start op => rfl
  | drop i => rfl
  | stmt i =>
    simp only [Event.apply, Event.executed]
    rcases s.tasks[i]? with _ | (_ | _ | _) <;> rfl

section Runs

variable {program effect} {later : S → S → Prop} {fits : A → S → Prop}
  (hrefl : ∀ s, later s s) (htrans : ∀ s t u, later s t → later t u → later s u)
  (hlater : ∀ a s, fits a s → later s (effect a s))

/-- What the scripts in progress promise. -/
def Promised (later : S → S → Prop) (effect : A → S → S) (fits : A → S → Prop)
    (s : System S A) : Prop :=
  ∀ t ∈ s.tasks, t.Promises later effect fits (fun _ _ => True) s.state

include hrefl htrans hlater in
/-- Each event keeps the promises, and its write fits the state. -/
theorem Promised.apply
    (hprogram : ∀ op s, (program op).Promises later effect fits (fun _ _ => True) s)
    {s : System S A} (h : Promised later effect fits s) (e : Event O) :
    OnWrites fits e s ∧ Promised later effect fits (e.apply program effect s) := by
  cases e with
  | start op =>
    refine ⟨(by intro a ha; cases ha), ?_⟩
    intro t ht
    rcases List.mem_append.mp ht with ht | ht
    · exact h t ht
    · obtain rfl := List.mem_singleton.mp ht
      exact hprogram op s.state
  | drop i =>
    refine ⟨(by intro a ha; cases ha), ?_⟩
    intro t ht
    exact h t (List.mem_of_mem_eraseIdx ht)
  | stmt i =>
    simp only [OnWrites, Event.executed, Event.apply]
    rcases htask : s.tasks[i]? with _ | (a | next | ⟨a, next⟩)
    · exact ⟨by simp, h⟩
    · exact ⟨by simp, h⟩
    · refine ⟨by simp, ?_⟩
      have hread := h _ (List.mem_of_getElem? htask) s.state (hrefl s.state)
      intro t ht
      rcases List.mem_or_eq_of_mem_set ht with ht | rfl
      · exact h t ht
      · exact hread
    · have hwrite := h _ (List.mem_of_getElem? htask) s.state (hrefl s.state)
      refine ⟨by simpa using hwrite.1, ?_⟩
      have hmove := hlater a s.state hwrite.1
      intro t ht
      rcases List.mem_or_eq_of_mem_set ht with ht | rfl
      · exact (h t ht).mono htrans (fun _ _ _ _ _ => trivial) hmove
      · exact hwrite.2

include hrefl htrans hlater in
/-- Every write of a run fits the state it finds. -/
theorem guarded_fits
    (hprogram : ∀ op s, (program op).Promises later effect fits (fun _ _ => True) s)
    (events : List (Event O)) {s : System S A} (h : Promised later effect fits s) :
    guarded (Event.apply program effect) (OnWrites fits) events s := by
  induction events generalizing s with
  | nil => trivial
  | cons e rest ih =>
    obtain ⟨hfits, hnext⟩ := h.apply hrefl htrans hlater hprogram e
    exact ⟨hfits, ih hnext⟩

variable {guard : A → S → Prop} {inv good : S → Prop}

/-- An event keeps an invariant that its write keeps. -/
theorem inv_apply (hkeep : ∀ a s, inv s → fits a s → guard a s → inv (effect a s)) (e : Event O)
    (s : System S A) (hs : inv s.state) (hfits : OnWrites fits e s) (hguard : OnWrites guard e s) :
    inv (e.apply program effect s).state := by
  rw [state_apply]
  cases hexec : e.executed s with
  | none => exact hs
  | some a => exact hkeep a s.state hs (hfits a hexec) (hguard a hexec)

/-- If the writes that meet a condition keep an invariant, and each of the others breaks the
property at once, the condition is exact. -/
theorem good_iff_onWrites (hgood : ∀ s, inv s → good s)
    (hkeep : ∀ a s, inv s → fits a s → guard a s → inv (effect a s))
    (hbreak : ∀ a s, inv s → fits a s → ¬ guard a s → ¬ good (effect a s))
    {events : List (Event O)} {s : System S A} (hs : inv s.state)
    (hfits : guarded (Event.apply program effect) (OnWrites fits) events s) :
    (∀ t ∈ states (Event.apply program effect) events s, good t.state) ↔
      guarded (Event.apply program effect) (OnWrites guard) events s := by
  apply good_iff_guarded (Event.apply program effect) (OnWrites fits) (OnWrites guard)
    (fun s => inv s.state) (fun s => good s.state) (fun s => hgood s.state) (inv_apply hkeep) _ hs
    hfits
  intro e s hinv hlegal hguard
  rw [state_apply]
  cases hexec : e.executed s with
  | none =>
    refine absurd ?_ hguard
    intro a ha
    rw [hexec] at ha
    cases ha
  | some a =>
    apply hbreak a s.state hinv (hlegal a hexec)
    intro hmet
    apply hguard
    intro a' ha'
    rw [hexec] at ha'
    obtain rfl := Option.some.inj ha'
    exact hmet

/-- In a run whose writes meet the condition, each write does what it does in a state of the
invariant. -/
theorem onWrites_of_inv {promise : A → S → Prop}
    (hkeep : ∀ a s, inv s → fits a s → guard a s → inv (effect a s))
    (hpromise : ∀ a s, inv s → fits a s → guard a s → promise a s)
    {events : List (Event O)} {s : System S A} (hs : inv s.state)
    (hfits : guarded (Event.apply program effect) (OnWrites fits) events s)
    (hguard : guarded (Event.apply program effect) (OnWrites guard) events s) :
    guarded (Event.apply program effect) (OnWrites promise) events s := by
  apply guarded_of_inv (Event.apply program effect) (OnWrites fits) (OnWrites guard)
    (fun s => inv s.state) (inv_apply hkeep) _ hs hfits hguard
  intro e s hinv hlegal hguard a hexec
  exact hpromise a s.state hinv (hlegal a hexec) (hguard a hexec)

end Runs

end Scripts
