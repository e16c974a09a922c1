import Mathlib.Algebra.Order.BigOperators.Group.List
import Mathlib.Algebra.Order.Group.Nat
import Mathlib.Data.List.Nodup
import Mathlib.Data.List.Perm.Subperm
import Mathlib.Data.Nat.Notation

/-!
# Queues served in turns

A turn serves the first elements of a queue. Each of them goes to the back or stays where it is; the
rest moves up. How many turns it takes until every element has been served depends on how many may
stay.
-/

namespace Rotation

variable {α : Type}

/-- One turn: of the first `b` elements, some stay in front, and the others go to the back. -/
def Turn (b : ℕ) (mayStay : α → Bool) (queue queue' : List α) : Prop :=
  ∃ (stays : α → Bool) (back : List α),
    queue' = (queue.take b).filter stays ++ queue.drop b ++ back ∧
      back.Perm ((queue.take b).filter fun x => !stays x) ∧
      ∀ x ∈ queue.take b, stays x = true → mayStay x = true

/-- A turn changes nothing but the order. -/
theorem Turn.perm {b : ℕ} {mayStay : α → Bool} {queue queue' : List α}
    (h : Turn b mayStay queue queue') : queue'.Perm queue := by
  obtain ⟨stays, back, rfl, hback, -⟩ := h
  have hsplit : ((queue.take b).filter stays ++ back).Perm (queue.take b) :=
    (hback.append_left _).trans (List.filter_append_perm stays _)
  have hmove : ((queue.take b).filter stays ++ queue.drop b ++ back).Perm
      ((queue.take b).filter stays ++ back ++ queue.drop b) := by
    rw [List.append_assoc, List.append_assoc]
    exact List.perm_append_comm.append_left _
  refine hmove.trans ((hsplit.append_right _).trans ?_)
  rw [List.take_append_drop]

/-- What the turns of a sequence of queues have served. -/
def served (b : ℕ) (queues : ℕ → List α) (n : ℕ) : List α :=
  (List.range n).flatMap fun t => (queues t).take b

theorem mem_served {b : ℕ} {queues : ℕ → List α} {n : ℕ} {x : α} :
    x ∈ served b queues n ↔ ∃ t < n, x ∈ (queues t).take b := by
  simp [served]

theorem mem_served_succ {b : ℕ} {queues : ℕ → List α} {n : ℕ} {x : α} :
    x ∈ served b queues (n + 1) ↔ x ∈ served b queues n ∨ x ∈ (queues n).take b := by
  rw [served, List.range_succ, List.flatMap_append, List.mem_append, List.flatMap_singleton]
  rfl

/-- Where the same elements stay in front, each turn serves them, and as many others as are left. -/
theorem length_le_of_front {b : ℕ} (queues : ℕ → List α) (front : List α) (n : ℕ)
    (hnodup : (queues 0).Nodup) (hfront : ∀ t < n, front <+: queues t)
    (hserved : ∀ x ∈ queues 0, x ∈ served b queues n) :
    (queues 0).length ≤ min b front.length + n * (b - front.length) := by
  have hsubset : queues 0 ⊆ front.take b ++
      (List.range n).flatMap fun t => ((queues t).drop front.length).take (b - front.length) := by
    intro x hx
    obtain ⟨t, ht, htake⟩ := mem_served.mp (hserved x hx)
    obtain ⟨rest, hrest⟩ := hfront t ht
    have hdrop : (queues t).drop front.length = rest := by rw [← hrest, List.drop_left]
    rw [← hrest, List.take_append] at htake
    rcases List.mem_append.mp htake with hx | hx
    · exact List.mem_append_left _ hx
    · refine List.mem_append_right _ (List.mem_flatMap.mpr ⟨t, List.mem_range.mpr ht, ?_⟩)
      rw [hdrop]
      exact hx
  have hlength := (hnodup.subperm hsubset).length_le
  have hothers : ((List.range n).flatMap fun t =>
      ((queues t).drop front.length).take (b - front.length)).length ≤
        n * (b - front.length) := by
    rw [List.length_flatMap]
    refine (List.sum_le_card_nsmul _ (b - front.length) ?_).trans ?_
    · intro k hk
      obtain ⟨t, -, rfl⟩ := List.mem_map.mp hk
      exact List.length_take_le _ _
    · simp
  rw [List.length_append, List.length_take] at hlength
  omega

section Served

variable {b : ℕ} {mayStay : α → Bool} {queues : ℕ → List α}

/-- In front are only elements that wait or may stay; all others have been served. -/
def Ordered (b : ℕ) (mayStay : α → Bool) (queues : ℕ → List α) (n : ℕ) : Prop :=
  ∃ front back, queues n = front ++ back ∧
    (∀ x ∈ front, x ∉ served b queues n ∨ mayStay x = true) ∧ ∀ x ∈ back, x ∈ served b queues n

theorem ordered_zero : Ordered b mayStay queues 0 :=
  ⟨queues 0, [], (List.append_nil _).symm, fun _ _ => .inl List.not_mem_nil, by simp⟩

/-- An element of the rest has not been served by this turn. -/
theorem notMem_take_of_mem_drop {queue : List α} (hnodup : queue.Nodup) {x : α}
    (hx : x ∈ queue.drop b) : x ∉ queue.take b := by
  intro htake
  rw [← List.take_append_drop b queue] at hnodup
  exact (List.nodup_append.mp hnodup).2.2 x htake x hx rfl

theorem Ordered.succ {n : ℕ} (hnodup : (queues n).Nodup)
    (hturn : Turn b mayStay (queues n) (queues (n + 1))) (h : Ordered b mayStay queues n) :
    Ordered b mayStay queues (n + 1) := by
  obtain ⟨front, back, hqueue, hfront, hback⟩ := h
  obtain ⟨stays, moved, hnext, hmoved, hstays⟩ := hturn
  have hdrop : (queues n).drop b = front.drop b ++ back.drop (b - front.length) := by
    rw [hqueue, List.drop_append]
  refine ⟨((queues n).take b).filter stays ++ front.drop b,
    back.drop (b - front.length) ++ moved, ?_, ?_, ?_⟩
  · rw [hnext, hdrop]
    simp only [List.append_assoc]
  · intro x hx
    rcases List.mem_append.mp hx with hx | hx
    · obtain ⟨htake, hstay⟩ := List.mem_filter.mp hx
      exact .inr (hstays x htake hstay)
    · refine (hfront x (List.mem_of_mem_drop hx)).imp_left fun hwaits => ?_
      rw [mem_served_succ, not_or]
      refine ⟨hwaits, notMem_take_of_mem_drop hnodup ?_⟩
      rw [hdrop]
      exact List.mem_append_left _ hx
  · intro x hx
    rw [mem_served_succ]
    rcases List.mem_append.mp hx with hx | hx
    · exact .inl (hback x (List.mem_of_mem_drop hx))
    · exact .inr (List.mem_of_mem_filter (hmoved.mem_iff.mp hx))

variable [DecidableEq α]

/-- The elements that no turn has served yet. -/
def waiting (b : ℕ) (queues : ℕ → List α) (n : ℕ) (x : α) : Bool := decide (x ∉ served b queues n)

/-- The elements that wait before a turn are those that it serves and those that wait behind it. -/
theorem countP_waiting_succ {n : ℕ} (hnodup : (queues n).Nodup) :
    (queues n).countP (waiting b queues n) = ((queues n).take b).countP (waiting b queues n) +
      (queues n).countP (waiting b queues (n + 1)) := by
  have htake : ((queues n).take b).countP (waiting b queues (n + 1)) = 0 := by
    rw [List.countP_eq_zero]
    intro x hx
    simp only [waiting, mem_served_succ, hx, or_true, not_true_eq_false, decide_false,
      Bool.false_eq_true, not_false_eq_true]
  have hdrop : ((queues n).drop b).countP (waiting b queues (n + 1)) =
      ((queues n).drop b).countP (waiting b queues n) := by
    apply List.countP_congr
    intro x hx
    simp only [waiting, mem_served_succ, notMem_take_of_mem_drop hnodup hx, or_false]
  have hsplit : ∀ p : α → Bool, (queues n).countP p =
      ((queues n).take b).countP p + ((queues n).drop b).countP p := by
    intro p
    rw [← List.countP_append, List.take_append_drop]
  rw [hsplit, hsplit (waiting b queues (n + 1)), htake, hdrop, Nat.zero_add]

/-- A turn serves everything that waits, or it fills up with elements that wait, except for those
in front that have been served and stayed. -/
theorem Ordered.progress {n : ℕ} (h : Ordered b mayStay queues n) :
    (∀ x ∈ queues n, x ∈ served b queues (n + 1)) ∨
      b ≤ ((queues n).take b).countP (waiting b queues n) +
        ((queues n).take b).countP (fun x => mayStay x && !waiting b queues n x) := by
  obtain ⟨front, back, hqueue, hfront, hback⟩ := h
  rcases Nat.lt_or_ge front.length b with hlt | hge
  · left
    intro x hx
    rw [mem_served_succ]
    rw [hqueue] at hx ⊢
    rcases List.mem_append.mp hx with hx | hx
    · right
      rw [List.take_append, List.take_of_length_le hlt.le]
      exact List.mem_append_left _ hx
    · exact .inl (hback x hx)
  · right
    have htake : (queues n).take b = front.take b := by
      rw [hqueue, List.take_append_of_le_length hge]
    have hlength : ((queues n).take b).length = b := by
      rw [htake, List.length_take_of_le hge]
    have hserved : ((queues n).take b).countP (fun x => mayStay x && !waiting b queues n x) =
        ((queues n).take b).countP (fun x => !waiting b queues n x) := by
      apply List.countP_congr
      intro x hx
      rw [htake] at hx
      rcases hfront x (List.mem_of_mem_take hx) with hwaits | hstays
      · simp [waiting, hwaits]
      · simp [hstays]
    have hcount := List.length_eq_countP_add_countP (waiting b queues n)
      (l := (queues n).take b)
    have hnot : ((queues n).take b).countP (fun x => decide ¬waiting b queues n x = true) =
        ((queues n).take b).countP (fun x => !waiting b queues n x) :=
      List.countP_congr fun x _ => by simp
    rw [hserved, ← hnot, ← hcount, hlength]

/-- After so many turns everything has been served, or this many elements have. -/
theorem served_or_le (hnodup : (queues 0).Nodup) (n : ℕ)
    (hturns : ∀ t < n + 1, Turn b mayStay (queues t) (queues (t + 1))) :
    (∀ x ∈ queues 0, x ∈ served b queues (n + 1)) ∨
      (queues 0).countP (waiting b queues (n + 1)) + b +
        n * (b - (queues 0).countP mayStay) ≤ (queues 0).length := by
  have hperm : ∀ t ≤ n + 1, (queues t).Perm (queues 0) := by
    intro t
    induction t with
    | zero => exact fun _ => .refl _
    | succ t ih => exact fun ht => (hturns t (by omega)).perm.trans (ih (by omega))
  have hordered : ∀ t ≤ n + 1, Ordered b mayStay queues t := by
    intro t
    induction t with
    | zero => exact fun _ => ordered_zero
    | succ t ih =>
      exact fun ht => (ih (by omega)).succ ((hperm t (by omega)).nodup_iff.mpr hnodup)
        (hturns t (by omega))
  induction n with
  | zero =>
    rcases (hordered 0 (by omega)).progress with hall | hle
    · exact .inl hall
    · right
      have hsplit := countP_waiting_succ (b := b) hnodup
      have hfresh : ∀ x, waiting b queues 0 x = true := fun x => by simp [waiting, served]
      have hnone : ((queues 0).take b).countP
          (fun x => mayStay x && !waiting b queues 0 x) = 0 := by
        rw [List.countP_eq_zero]
        intro x _
        simp [hfresh x]
      have hlength : (queues 0).countP (waiting b queues 0) = (queues 0).length :=
        List.countP_eq_length.mpr fun x _ => hfresh x
      omega
  | succ n ih =>
    have hq := hperm (n + 1) (by omega)
    have hnodup' := hq.nodup_iff.mpr hnodup
    rcases ih (fun t ht => hturns t (by omega)) (fun t ht => hperm t (by omega))
      (fun t ht => hordered t (by omega)) with hall | hle
    · left
      intro x hx
      exact mem_served_succ.mpr (.inl (hall x hx))
    · rcases (hordered (n + 1) (by omega)).progress with hall | hmore
      · exact .inl fun x hx => hall x (hq.mem_iff.mpr hx)
      · right
        have hsplit := countP_waiting_succ (b := b) hnodup'
        have hstay : ((queues (n + 1)).take b).countP
            (fun x => mayStay x && !waiting b queues (n + 1) x) ≤ (queues 0).countP mayStay := by
          rw [← hq.countP_eq]
          exact (List.countP_mono_left fun x _ hx => (Bool.and_eq_true_iff.mp hx).1).trans
            ((List.take_sublist b _).countP_le)
        rw [hq.countP_eq, hq.countP_eq] at hsplit
        rw [Nat.succ_mul]
        omega

/-- Enough turns serve everything. -/
theorem served_of_length_le (queues : ℕ → List α) (n : ℕ) (hnodup : (queues 0).Nodup)
    (hturns : ∀ t < n + 1, Turn b mayStay (queues t) (queues (t + 1)))
    (hlength : (queues 0).length ≤ b + n * (b - (queues 0).countP mayStay)) :
    ∀ x ∈ queues 0, x ∈ served b queues (n + 1) := by
  rcases served_or_le hnodup n hturns with hall | hle
  · exact hall
  · intro x hx
    by_contra hwaits
    have hpos : 0 < (queues 0).countP (waiting b queues (n + 1)) :=
      List.countP_pos_iff.mpr ⟨x, hx, decide_eq_true hwaits⟩
    omega

end Served

end Rotation
