import Mathlib.Data.List.Basic

/-!
# Threads in flight

A system with any number of threads keeps them in a list and replaces the one that has taken a
step. What a property counts among the threads changes by what it says of that one.
-/

namespace Threads

variable {T : Type} {threads : List T} {i : ℕ} {t t' : T}

/-- Replacing a thread moves a count by the difference of the two. -/
theorem countP_set (p : T → Bool) (t' : T) (hi : threads[i]? = some t) :
    (threads.set i t').countP p + (p t).toNat = threads.countP p + (p t').toNat := by
  obtain ⟨hlt, hget⟩ := List.getElem?_eq_some_iff.mp hi
  rw [List.countP_set hlt, hget]
  by_cases ht : p t = true
  · have hpos : 0 < threads.countP p :=
      List.countP_pos_iff.mpr ⟨t, List.mem_of_getElem? hi, ht⟩
    cases p t' <;> simp [ht] <;> omega
  · cases p t' <;> simp [ht]

/-- A thread of the new list is the replaced one or a thread of the old list. -/
theorem mem_set {u : T} (hu : u ∈ threads.set i t') :
    u = t' ∨ u ∈ threads := by
  rcases List.mem_or_eq_of_mem_set hu with hu | hu
  · exact .inr hu
  · exact .inl hu

/-- What the replacement does not change is what it was for the whole list. -/
theorem map_set {K : Type} (f : T → K) (hi : threads[i]? = some t) (hf : f t' = f t) :
    (threads.set i t').map f = threads.map f := by
  obtain ⟨hlt, hget⟩ := List.getElem?_eq_some_iff.mp hi
  rw [List.map_set, hf, ← hget, ← List.getElem_map f (h := by simpa using hlt),
    List.set_getElem_self]

end Threads
