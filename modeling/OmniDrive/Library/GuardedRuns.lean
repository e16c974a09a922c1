import Mathlib.Data.List.Basic

/-!
# Runs of guarded operations

A run applies a list of operations to a state. A guard is a condition on each operation
and the state it finds. When the guard is exactly what keeps a property, the property
holds in every state of a run if and only if every operation of the run meets its guard.
-/

namespace GuardedRuns

variable {S O : Type}

/-- The states a run passes through, its first state included. -/
def states (step : O → S → S) : List O → S → List S
  | [], s => [s]
  | o :: rest, s => s :: states step rest (step o s)

/-- Every operation of the run meets its condition in the state it finds. -/
def guarded (step : O → S → S) (guard : O → S → Prop) : List O → S → Prop
  | [], _ => True
  | o :: rest, s => guard o s ∧ guarded step guard rest (step o s)

/-- The first state belongs to the run. -/
theorem mem_states_self (step : O → S → S) (ops : List O) (s : S) : s ∈ states step ops s := by
  cases ops <;> simp [states]

/-- The state after all operations belongs to the run. -/
theorem mem_states_last (step : O → S → S) (ops : List O) (s : S) :
    ops.foldl (fun t o => step o t) s ∈ states step ops s := by
  induction ops generalizing s with
  | nil => simp [states]
  | cons o rest ih => exact List.mem_cons_of_mem _ (ih (step o s))

/-- A run meets its conditions if and only if both portions of it do. -/
theorem guarded_append (step : O → S → S) (guard : O → S → Prop) (ops later : List O) (s : S) :
    guarded step guard (ops ++ later) s ↔
      guarded step guard ops s ∧
        guarded step guard later (ops.foldl (fun t o => step o t) s) := by
  induction ops generalizing s with
  | nil => simp [guarded]
  | cons o rest ih => simp only [List.cons_append, guarded, List.foldl_cons, ih, and_assoc]

/-- A condition that every operation meets holds throughout every run. -/
theorem guarded_of_forall (step : O → S → S) {guard : O → S → Prop} (h : ∀ o s, guard o s)
    (ops : List O) (s : S) : guarded step guard ops s := by
  induction ops generalizing s with
  | nil => trivial
  | cons o rest ih => exact ⟨h o s, ih _⟩

/-- So does a condition that each operation of the run meets in every state. -/
theorem guarded_of_mem (step : O → S → S) {guard : O → S → Prop} {ops : List O}
    (h : ∀ o ∈ ops, ∀ s, guard o s) (s : S) : guarded step guard ops s := by
  induction ops generalizing s with
  | nil => trivial
  | cons o rest ih =>
    have hrest : ∀ o' ∈ rest, ∀ t, guard o' t := fun o' ho' => h o' (List.mem_cons_of_mem _ ho')
    exact ⟨h o List.mem_cons_self s, ih hrest _⟩

/-- So does a condition that follows from what holds of the states around each operation. -/
theorem guarded_of_states (step : O → S → S) {guard : O → S → Prop} {reached : S → Prop}
    {ops : List O} {s : S} (hall : ∀ t ∈ states step ops s, reached t)
    (h : ∀ o ∈ ops, ∀ t, reached t → reached (step o t) → guard o t) :
    guarded step guard ops s := by
  induction ops generalizing s with
  | nil => trivial
  | cons o rest ih =>
    have hrest : ∀ t ∈ states step rest (step o s), reached t :=
      fun t ht => hall t (List.mem_cons_of_mem _ ht)
    have hnext := hrest _ (mem_states_self step rest (step o s))
    exact ⟨h o List.mem_cons_self s (hall s (mem_states_self step (o :: rest) s)) hnext,
      ih hrest fun o' ho' => h o' (List.mem_cons_of_mem _ ho')⟩

/-- A run that meets two conditions meets both together. -/
theorem guarded_and (step : O → S → S) {guard guard' : O → S → Prop} {ops : List O} {s : S}
    (h : guarded step guard ops s) (h' : guarded step guard' ops s) :
    guarded step (fun o s => guard o s ∧ guard' o s) ops s := by
  induction ops generalizing s with
  | nil => trivial
  | cons o rest ih => exact ⟨⟨h.1, h'.1⟩, ih h.2 h'.2⟩

section Exact

variable (step : O → S → S) (legal guard : O → S → Prop) (inv good : S → Prop)
variable (hgood : ∀ s, inv s → good s)
variable (hkeep : ∀ o s, inv s → legal o s → guard o s → inv (step o s))

include hkeep in
/-- An invariant kept by every guarded operation holds in every state of a guarded run. -/
theorem inv_of_guarded {ops : List O} {s : S} (hs : inv s) (hlegal : guarded step legal ops s)
    (hguard : guarded step guard ops s) : ∀ t ∈ states step ops s, inv t := by
  induction ops generalizing s with
  | nil => simpa [states] using hs
  | cons o rest ih =>
    intro t ht
    rcases List.mem_cons.mp ht with rfl | ht
    · exact hs
    · exact ih (hkeep o s hs hlegal.1 hguard.1) hlegal.2 hguard.2 t ht

include hkeep in
/-- What every guarded operation does in a state of the invariant, every operation of a guarded run
does. -/
theorem guarded_of_inv {promise : O → S → Prop}
    (hpromise : ∀ o s, inv s → legal o s → guard o s → promise o s) {ops : List O} {s : S}
    (hs : inv s) (hlegal : guarded step legal ops s) (hguard : guarded step guard ops s) :
    guarded step promise ops s := by
  induction ops generalizing s with
  | nil => trivial
  | cons o rest ih =>
    have hnext := hkeep o s hs hlegal.1 hguard.1
    exact ⟨hpromise o s hs hlegal.1 hguard.1, ih hnext hlegal.2 hguard.2⟩

include hgood hkeep in
/-- If every unguarded operation breaks the property at once, the guard is exact: a run keeps
the property throughout if and only if all its operations meet their guards. -/
theorem good_iff_guarded
    (hbreak : ∀ o s, inv s → legal o s → ¬ guard o s → ¬ good (step o s))
    {ops : List O} {s : S} (hs : inv s) (hlegal : guarded step legal ops s) :
    (∀ t ∈ states step ops s, good t) ↔ guarded step guard ops s := by
  constructor
  · intro hall
    induction ops generalizing s with
    | nil => trivial
    | cons o rest ih =>
      have hnext : good (step o s) :=
        hall _ (List.mem_cons_of_mem _ (mem_states_self step rest (step o s)))
      have hok : guard o s := by
        by_contra hno
        exact hbreak o s hs hlegal.1 hno hnext
      exact ⟨hok, ih (hkeep o s hs hlegal.1 hok) hlegal.2
        fun t ht => hall t (List.mem_cons_of_mem _ ht)⟩
  · intro hguard t ht
    exact hgood t (inv_of_guarded step legal guard inv hkeep hs hlegal hguard t ht)

end Exact

section Related

variable (step : O → S → S) (legal guard : O → S → Prop) (inv : S → Prop) (R : S → S → Prop)
variable (hrefl : ∀ s, R s s) (htrans : ∀ s t u, R s t → R t u → R s u)
variable (hkeep : ∀ o s, inv s → legal o s → guard o s → inv (step o s))
variable (hrel : ∀ o s, inv s → legal o s → guard o s → R s (step o s))

include hrefl htrans hkeep hrel

/-- What every guarded operation relates to the state it finds, a guarded run relates to its first
state. -/
theorem rel_of_guarded {ops : List O} {s : S} (hs : inv s) (hlegal : guarded step legal ops s)
    (hguard : guarded step guard ops s) : R s (ops.foldl (fun t o => step o t) s) := by
  induction ops generalizing s with
  | nil => exact hrefl s
  | cons o rest ih =>
    have hnext := hrel o s hs hlegal.1 hguard.1
    have hrest := ih (hkeep o s hs hlegal.1 hguard.1) hlegal.2 hguard.2
    exact htrans _ _ _ hnext hrest

end Related

end GuardedRuns
