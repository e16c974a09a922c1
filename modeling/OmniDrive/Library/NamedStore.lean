import Mathlib.Logic.Function.Basic

/-!
# Stores that are addressed by content

In a store that is addressed by content a name allows one entry, or a few that are equally good. A
store is right if every entry is one that its name allows. Entries may be missing.
-/

namespace OmniDrive.NamedStore

variable {K V : Type} {allows allows' : K → V → Prop} {store : K → Option V}

/-- Every entry is one that its name allows. -/
def Right (allows : K → V → Prop) (store : K → Option V) : Prop :=
  ∀ k v, store k = some v → allows k v

theorem Right.empty : Right allows fun _ => none := fun _ _ h => by cases h

/-- Names may come to allow more. -/
theorem Right.mono (h : Right allows store) (himp : ∀ k v, allows k v → allows' k v) :
    Right allows' store :=
  fun k v hv => himp k v (h k v hv)

/-- An entry that its name allows may be written. -/
theorem Right.set [DecidableEq K] (h : Right allows store) {k : K} {v : V} (hv : allows k v) :
    Right allows (Function.update store k (some v)) := by
  intro k' v' hstored
  rw [Function.update_apply] at hstored
  split at hstored
  · rename_i hname
    rw [hname, ← Option.some.inj hstored]
    exact hv
  · exact h k' v' hstored

/-- An entry may go. -/
theorem Right.erase [DecidableEq K] (h : Right allows store) (k : K) :
    Right allows (Function.update store k none) := by
  intro k' v' hstored
  rw [Function.update_apply] at hstored
  split at hstored
  · cases hstored
  · exact h k' v' hstored

/-! ## Families of stores -/

variable {I : Type} {rules : I → K → V → Prop} {stores : I → K → Option V}

/-- Every store of a family is right by its own rules. -/
def AllRight (rules : I → K → V → Prop) (stores : I → K → Option V) : Prop :=
  ∀ i, Right (rules i) (stores i)

/-- One store may be replaced by a right one. -/
theorem AllRight.replace [DecidableEq I] (h : AllRight rules stores) {i : I} {new : K → Option V}
    (hnew : Right (rules i) new) : AllRight rules (Function.update stores i new) := by
  intro j
  by_cases hj : j = i
  · rw [hj, Function.update_self]
    exact hnew
  · rw [Function.update_of_ne hj]
    exact h j

/-- An entry of one store may be written. -/
theorem AllRight.set [DecidableEq I] [DecidableEq K] (h : AllRight rules stores) {i : I} {k : K}
    {v : V} (hv : rules i k v) :
    AllRight rules (Function.update stores i (Function.update (stores i) k (some v))) :=
  h.replace ((h i).set hv)

/-- An entry of one store may go. -/
theorem AllRight.erase [DecidableEq I] [DecidableEq K] (h : AllRight rules stores) (i : I) (k : K) :
    AllRight rules (Function.update stores i (Function.update (stores i) k none)) :=
  h.replace ((h i).erase k)

end OmniDrive.NamedStore
