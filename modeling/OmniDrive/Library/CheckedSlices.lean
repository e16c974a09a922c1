import OmniDrive.Library.ByteFields

/-!
# Checked sums and slices

Computations on byte strings with sums and positions of one machine word. A sum that does not fit
and a slice out of bounds are faults. They are kept apart from the errors that a computation
reports itself.
-/

namespace CheckedSlices

open ByteFields

/-- Why a computation stops. -/
inductive Stop (ε : Type) where
  | rejected (err : ε)
  | overflow
  | outOfBounds
  deriving DecidableEq, Repr

abbrev Checked (ε α : Type) := Except (Stop ε) α

variable {ε α β : Type}

def reject (err : ε) : Checked ε α := .error (.rejected err)

/-- A computation that has no faults. -/
def lift (x : Except ε α) : Checked ε α := x.mapError .rejected

/-- A value that is rejected when it is missing. -/
def ofOption (err : ε) : Option α → Checked ε α
  | some a => .ok a
  | none => reject err

/-- A sum that has to fit a word. -/
def add (a b : ℕ) : Checked ε ℕ := if a + b < 2 ^ 64 then .ok (a + b) else .error .overflow

/-- A difference that must not be negative. -/
def sub (a b : ℕ) : Checked ε ℕ := if b ≤ a then .ok (a - b) else .error .overflow

/-- A sum that is rejected when it does not fit a word. -/
def addOr (err : ε) (a b : ℕ) : Checked ε ℕ :=
  if a + b < 2 ^ 64 then .ok (a + b) else reject err

/-- A slice that has to lie within the list. -/
def sliceAt (i j : ℕ) (l : List α) : Checked ε (List α) :=
  if i ≤ j ∧ j ≤ l.length then .ok (slice i j l) else .error .outOfBounds

/-- An element that has to exist. -/
def elementAt (i : ℕ) (l : List α) : Checked ε α :=
  match l[i]? with
  | some a => .ok a
  | none => .error .outOfBounds

/-- The computation rejects its input. -/
def Rejects (x : Checked ε α) : Prop := ∃ err, x = reject err

/-- The computation returns or rejects its input. -/
def Faultless (x : Checked ε α) : Prop := x ≠ .error .overflow ∧ x ≠ .error .outOfBounds

@[simp] theorem lift_ok (a : α) : (lift (.ok a) : Checked ε α) = .ok a := rfl

@[simp] theorem lift_error (err : ε) : (lift (.error err) : Checked ε α) = reject err := rfl

@[simp] theorem ofOption_some (err : ε) (a : α) : (ofOption err (some a) : Checked ε α) = .ok a :=
  rfl

@[simp] theorem ofOption_none (err : ε) : (ofOption err none : Checked ε α) = reject err := rfl

@[simp] theorem ok_bind (a : α) (f : α → Checked ε β) : ((.ok a : Checked ε α) >>= f) = f a := rfl

@[simp] theorem reject_bind (err : ε) (f : α → Checked ε β) :
    ((reject err : Checked ε α) >>= f) = reject err := rfl

theorem lift_eq_ok_iff {x : Except ε α} {a : α} : lift x = .ok a ↔ x = .ok a := by
  cases x with
  | ok b => rw [lift_ok, Except.ok.injEq, Except.ok.injEq]
  | error err => exact ⟨nofun, nofun⟩

/-- A computation without faults goes on without faults. -/
theorem lift_bind (x : Except ε α) (f : α → Except ε β) :
    lift (x >>= f) = (lift x >>= fun a => lift (f a) : Checked ε β) := by
  cases x <;> rfl

theorem add_of_lt {a b : ℕ} (h : a + b < 2 ^ 64) : (add a b : Checked ε ℕ) = .ok (a + b) :=
  if_pos h

theorem add_of_le {a b : ℕ} (h : 2 ^ 64 ≤ a + b) : (add a b : Checked ε ℕ) = .error .overflow :=
  if_neg (Nat.not_lt.mpr h)

theorem sub_of_le {a b : ℕ} (h : b ≤ a) : (sub a b : Checked ε ℕ) = .ok (a - b) := if_pos h

theorem addOr_of_lt {a b : ℕ} (err : ε) (h : a + b < 2 ^ 64) : addOr err a b = .ok (a + b) :=
  if_pos h

theorem addOr_of_le {a b : ℕ} (err : ε) (h : 2 ^ 64 ≤ a + b) : addOr err a b = reject err :=
  if_neg (Nat.not_lt.mpr h)

theorem sliceAt_of_le {i j : ℕ} {l : List α} (hij : i ≤ j) (hj : j ≤ l.length) :
    (sliceAt i j l : Checked ε (List α)) = .ok (slice i j l) :=
  if_pos ⟨hij, hj⟩

theorem elementAt_of_lt {i : ℕ} {l : List α} (h : i < l.length) (fallback : α) :
    (elementAt i l : Checked ε α) = .ok (l.getD i fallback) := by
  rw [elementAt, List.getD_eq_getElem?_getD, List.getElem?_eq_getElem h]
  rfl

theorem faultless_ok (a : α) : Faultless (.ok a : Checked ε α) := ⟨nofun, nofun⟩

theorem faultless_reject (err : ε) : Faultless (reject err : Checked ε α) := ⟨nofun, nofun⟩

theorem faultless_lift (x : Except ε α) : Faultless (lift x) := by
  cases x with
  | ok a => exact faultless_ok a
  | error err => exact faultless_reject err

/-- Only a rejection stops a computation without faults. -/
theorem Faultless.bind {x : Checked ε α} {f : α → Checked ε β} (hx : Faultless x)
    (hf : ∀ a, x = .ok a → Faultless (f a)) : Faultless (x >>= f) := by
  cases x with
  | ok a => exact hf a rfl
  | error stop =>
    cases stop with
    | rejected err => exact faultless_reject err
    | overflow => exact absurd rfl hx.1
    | outOfBounds => exact absurd rfl hx.2

end CheckedSlices
