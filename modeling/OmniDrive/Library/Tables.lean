import Mathlib.Algebra.Group.Defs
import Mathlib.Data.Int.Order.Basic
import Mathlib.Data.List.Sort

/-!
# Database tables as lists of rows

The statements of a relational table that programs use, as functions on its list of rows:
updates and deletions under a condition, insertions that replace or keep a conflicting row,
ordered selections with a limit, and automatically numbered keys.
-/

namespace Tables

variable {R K O : Type} [LinearOrder O]

/-- `UPDATE ... SET ... WHERE`. -/
def updateWhere (p : R → Bool) (f : R → R) (rows : List R) : List R :=
  rows.map fun r => if p r then f r else r

/-- `DELETE ... WHERE`. -/
def deleteWhere (p : R → Bool) (rows : List R) : List R := rows.filter fun r => !p r

/-- `ORDER BY key ASC`, keeping the order of rows with equal keys. -/
def orderBy (key : R → O) (rows : List R) : List R :=
  rows.insertionSort fun a b => key a ≤ key b

/-- `LIMIT n`; a negative limit is no limit. -/
def limit (n : ℤ) (rows : List R) : List R := if n < 0 then rows else rows.take n.toNat

/-- `INSERT ... ON CONFLICT DO UPDATE`: merge into the row with the same key, or append. -/
def upsert [DecidableEq K] (key : R → K) (merge : R → R) (row : R) : List R → List R
  | [] => [row]
  | r :: rest => if key r = key row then merge r :: rest else r :: upsert key merge row rest

/-- `INSERT OR IGNORE`: append unless a row has the same key. -/
def insertOrIgnore [DecidableEq K] (key : R → K) (row : R) (rows : List R) : List R :=
  if rows.any fun r => decide (key r = key row) then rows else rows ++ [row]

/-- Ordering changes no row. -/
theorem orderBy_perm (key : R → O) (rows : List R) : (orderBy key rows).Perm rows :=
  List.perm_insertionSort _ rows

@[simp] theorem mem_orderBy (key : R → O) (rows : List R) (r : R) :
    r ∈ orderBy key rows ↔ r ∈ rows := (orderBy_perm key rows).mem_iff

/-- An ordering of no rows is empty. -/
@[simp] theorem orderBy_nil (key : R → O) : orderBy key ([] : List R) = [] := rfl

/-- A limited selection selects rows of the table. -/
theorem mem_of_mem_limit {n : ℤ} {rows : List R} {r : R} (h : r ∈ limit n rows) : r ∈ rows := by
  unfold limit at h
  split at h
  · exact h
  · exact List.mem_of_mem_take h

/-- A nonzero limit selects something from a nonempty table. -/
theorem limit_eq_nil_iff {n : ℤ} {rows : List R} : limit n rows = [] ↔ n = 0 ∨ rows = [] := by
  unfold limit
  split
  · simp only [iff_or_self]
    intro h
    omega
  · rw [List.take_eq_nil_iff]
    have hzero : n.toNat = 0 ↔ n = 0 := by omega
    rw [hzero]

/-- Rows outside the condition of an update are untouched. -/
theorem mem_updateWhere {p : R → Bool} {f : R → R} {rows : List R} {r : R} :
    r ∈ updateWhere p f rows ↔ ∃ old ∈ rows, (if p old then f old else old) = r := by
  simp [updateWhere]

/-- The surviving rows of a deletion are the rows outside its condition. -/
@[simp] theorem mem_deleteWhere {p : R → Bool} {rows : List R} {r : R} :
    r ∈ deleteWhere p rows ↔ r ∈ rows ∧ p r = false := by
  simp [deleteWhere]

/-- An update that keeps the key leaves the table's keys as they were. -/
theorem map_updateWhere {p : R → Bool} {f : R → R} {key : R → K} (h : ∀ r, key (f r) = key r)
    (rows : List R) : (updateWhere p f rows).map key = rows.map key := by
  simp only [updateWhere, List.map_map]
  apply List.map_congr_left
  intro r _
  simp only [Function.comp_apply]
  split
  · exact h r
  · rfl

/-- An update keeps the number of rows. -/
@[simp] theorem length_updateWhere (p : R → Bool) (f : R → R) (rows : List R) :
    (updateWhere p f rows).length = rows.length := by
  simp [updateWhere]

/-- An update whose condition no row meets changes nothing. -/
theorem updateWhere_eq_self {p : R → Bool} {f : R → R} {rows : List R}
    (h : ∀ r ∈ rows, p r = false) : updateWhere p f rows = rows := by
  unfold updateWhere
  conv_rhs => rw [← List.map_id rows]
  apply List.map_congr_left
  intro r hr
  simp [h r hr]

/-- A row after an insertion that ignores conflicts is old or the new one. -/
theorem mem_insertOrIgnore [DecidableEq K] {key : R → K} {row r : R} {rows : List R}
    (h : r ∈ insertOrIgnore key row rows) : r ∈ rows ∨ r = row := by
  unfold insertOrIgnore at h
  split at h
  · exact Or.inl h
  · simpa using h

/-- An insertion that ignores conflicts keeps every row of the table. -/
theorem mem_insertOrIgnore_of_mem [DecidableEq K] {key : R → K} {row r : R} {rows : List R}
    (h : r ∈ rows) : r ∈ insertOrIgnore key row rows := by
  unfold insertOrIgnore
  split
  · exact h
  · exact List.mem_append_left _ h

/-- After an insertion that ignores conflicts, some row has the key. -/
theorem exists_key_insertOrIgnore [DecidableEq K] (key : R → K) (row : R) (rows : List R) :
    ∃ r ∈ insertOrIgnore key row rows, key r = key row := by
  by_cases hany : rows.any fun r => decide (key r = key row)
  · obtain ⟨r, hr, hk⟩ := List.any_eq_true.mp hany
    refine ⟨r, ?_, of_decide_eq_true hk⟩
    rw [insertOrIgnore, if_pos hany]
    exact hr
  · refine ⟨row, ?_, rfl⟩
    rw [insertOrIgnore, if_neg hany]
    simp

/-- Appending a row with an unused key keeps the keys of the table distinct. -/
theorem nodup_append_fresh {key : R → K} {rows : List R} {row : R} (h : (rows.map key).Nodup)
    (hfresh : ∀ r ∈ rows, key r ≠ key row) : ((rows ++ [row]).map key).Nodup := by
  rw [List.map_append, List.nodup_append]
  refine ⟨h, by simp, ?_⟩
  intro k hk k' hk'
  obtain ⟨r, hr, rfl⟩ := List.mem_map.mp hk
  obtain rfl : k' = key row := by simpa using hk'
  exact hfresh r hr

/-! ## Keys -/

/-- An insertion under a new key appends the row. -/
theorem upsert_of_fresh [DecidableEq K] {key : R → K} {merge : R → R} {row : R} {rows : List R}
    (h : ∀ r ∈ rows, key r ≠ key row) : upsert key merge row rows = rows ++ [row] := by
  induction rows with
  | nil => rfl
  | cons r rest ih =>
    have hrest := ih fun r' hr' => h r' (List.mem_cons_of_mem _ hr')
    rw [upsert, if_neg (h r List.mem_cons_self), hrest, List.cons_append]

/-- An insertion that merges nothing new into the row with its key changes nothing. -/
theorem upsert_eq_self [DecidableEq K] {key : R → K} {merge : R → R} {row : R} {rows : List R}
    (hmerge : ∀ r ∈ rows, key r = key row → merge r = r) (hmem : ∃ r ∈ rows, key r = key row) :
    upsert key merge row rows = rows := by
  induction rows with
  | nil =>
    obtain ⟨r, hr, -⟩ := hmem
    cases hr
  | cons r rest ih =>
    rw [upsert]
    by_cases hkey : key r = key row
    · rw [if_pos hkey, hmerge r List.mem_cons_self hkey]
    · have hrest : ∃ r' ∈ rest, key r' = key row := by
        obtain ⟨r', hr', hk⟩ := hmem
        rcases List.mem_cons.mp hr' with hhead | htail
        · exact absurd (hhead ▸ hk) hkey
        · exact ⟨r', htail, hk⟩
      rw [if_neg hkey, ih (fun r' hr' => hmerge r' (List.mem_cons_of_mem _ hr')) hrest]

/-- The rows behind an insertion that replaces are the rows with other keys and the replacing
row. -/
theorem mem_upsert [DecidableEq K] {key : R → K} {merge : R → R} {row : R} {rows : List R}
    (hnodup : (rows.map key).Nodup) (hmerge : ∀ r ∈ rows, key r = key row → merge r = row) {r : R} :
    r ∈ upsert key merge row rows ↔ r = row ∨ r ∈ rows ∧ key r ≠ key row := by
  induction rows with
  | nil => simp [upsert]
  | cons a rest ih =>
    rw [List.map_cons, List.nodup_cons] at hnodup
    rw [upsert]
    by_cases hkey : key a = key row
    · have hothers : ∀ x ∈ rest, key x ≠ key row := fun x hx heq =>
        hnodup.1 (hkey ▸ heq ▸ List.mem_map_of_mem hx)
      rw [if_pos hkey, hmerge a List.mem_cons_self hkey, List.mem_cons, List.mem_cons]
      constructor
      · rintro (hrow | hrest)
        · exact .inl hrow
        · exact .inr ⟨.inr hrest, hothers r hrest⟩
      · rintro (hrow | ⟨ha | hrest, hne⟩)
        · exact .inl hrow
        · exact absurd (ha ▸ hkey) hne
        · exact .inr hrest
    · rw [if_neg hkey, List.mem_cons, List.mem_cons,
        ih hnodup.2 fun x hx => hmerge x (List.mem_cons_of_mem _ hx)]
      constructor
      · rintro (ha | hrow | ⟨hrest, hne⟩)
        · exact .inr ⟨.inl ha, ha ▸ hkey⟩
        · exact .inl hrow
        · exact .inr ⟨.inr hrest, hne⟩
      · rintro (hrow | ⟨ha | hrest, hne⟩)
        · exact .inr (.inl hrow)
        · exact .inl ha
        · exact .inr (.inr ⟨hrest, hne⟩)

/-- A row behind an insertion is an old row, the inserted one or what an old row is merged to. -/
theorem mem_of_mem_upsert [DecidableEq K] {key : R → K} {merge : R → R} {row : R} {rows : List R}
    {r : R} (h : r ∈ upsert key merge row rows) :
    r ∈ rows ∨ r = row ∨ ∃ r₀ ∈ rows, key r₀ = key row ∧ r = merge r₀ := by
  induction rows with
  | nil => exact .inr (.inl (List.mem_singleton.mp h))
  | cons a rest ih =>
    rw [upsert] at h
    split at h
    · rename_i hkey
      rcases List.mem_cons.mp h with hmerged | hrest
      · exact .inr (.inr ⟨a, List.mem_cons_self, hkey, hmerged⟩)
      · exact .inl (List.mem_cons_of_mem _ hrest)
    · rcases List.mem_cons.mp h with hhead | hrest
      · exact .inl (hhead ▸ List.mem_cons_self)
      · rcases ih hrest with hold | hrow | ⟨r₀, hr₀, hkey, hmerged⟩
        · exact .inl (List.mem_cons_of_mem _ hold)
        · exact .inr (.inl hrow)
        · exact .inr (.inr ⟨r₀, List.mem_cons_of_mem _ hr₀, hkey, hmerged⟩)

/-- A row whose key is not inserted stays. -/
theorem mem_upsert_of_ne [DecidableEq K] {key : R → K} {merge : R → R} {row : R} {rows : List R}
    {r : R} (h : r ∈ rows) (hne : key r ≠ key row) : r ∈ upsert key merge row rows := by
  induction rows with
  | nil => cases h
  | cons a rest ih =>
    rw [upsert]
    rcases List.mem_cons.mp h with rfl | hrest
    · rw [if_neg hne]
      exact List.mem_cons_self
    · split
      · exact List.mem_cons_of_mem _ hrest
      · exact List.mem_cons_of_mem _ (ih hrest)

/-- A row that replaces its predecessor is there. -/
theorem mem_upsert_self [DecidableEq K] (key : R → K) (row : R) (rows : List R) :
    row ∈ upsert key (fun _ => row) row rows := by
  induction rows with
  | nil => exact List.mem_singleton_self row
  | cons a rest ih =>
    rw [upsert]
    split
    · exact List.mem_cons_self
    · exact List.mem_cons_of_mem _ ih

/-- The keys behind an insertion that merges. -/
theorem keys_upsert [DecidableEq K] {key : R → K} {merge : R → R} {row : R} {rows : List R}
    (hmerge : ∀ r ∈ rows, key r = key row → key (merge r) = key row) :
    (upsert key merge row rows).map key =
      if key row ∈ rows.map key then rows.map key else rows.map key ++ [key row] := by
  induction rows with
  | nil => simp [upsert]
  | cons a rest ih =>
    have hrest := ih fun x hx => hmerge x (List.mem_cons_of_mem _ hx)
    rw [upsert]
    by_cases hkey : key a = key row
    · rw [if_pos hkey, List.map_cons, List.map_cons, hmerge a List.mem_cons_self hkey, hkey,
        if_pos List.mem_cons_self]
    · have hne : key row ≠ key a := fun h => hkey h.symm
      rw [if_neg hkey, List.map_cons, List.map_cons, hrest]
      by_cases hmem : key row ∈ rest.map key
      · rw [if_pos hmem, if_pos (List.mem_cons_of_mem _ hmem)]
      · rw [if_neg hmem, if_neg (List.not_mem_cons_of_ne_of_not_mem hne hmem), List.cons_append]

/-- An insertion that merges keeps the keys distinct. -/
theorem nodup_upsert [DecidableEq K] {key : R → K} {merge : R → R} {row : R} {rows : List R}
    (hnodup : (rows.map key).Nodup)
    (hmerge : ∀ r ∈ rows, key r = key row → key (merge r) = key row) :
    ((upsert key merge row rows).map key).Nodup := by
  rw [keys_upsert hmerge]
  split
  · exact hnodup
  · rename_i hfresh
    rw [List.nodup_append]
    refine ⟨hnodup, List.nodup_singleton _, ?_⟩
    intro k hk k' hk' heq
    rw [List.mem_singleton] at hk'
    exact hfresh (hk' ▸ heq ▸ hk)

/-- An insertion under a new key is not ignored. -/
theorem insertOrIgnore_of_fresh [DecidableEq K] {key : R → K} {row : R} {rows : List R}
    (h : ∀ r ∈ rows, key r ≠ key row) : insertOrIgnore key row rows = rows ++ [row] := by
  rw [insertOrIgnore, if_neg]
  rw [List.any_eq_true]
  intro hany
  obtain ⟨r, hr, hkey⟩ := hany
  exact h r hr (of_decide_eq_true hkey)

/-- A row is found by its key where keys are distinct. -/
theorem find?_of_nodup [DecidableEq K] {key : R → K} {rows : List R} {r : R}
    (h : (rows.map key).Nodup) (hr : r ∈ rows) : rows.find? (key · = key r) = some r := by
  induction rows with
  | nil => cases hr
  | cons a rest ih =>
    rw [List.map_cons, List.nodup_cons] at h
    by_cases hkey : key a = key r
    · have heq : a = r := by
        rcases List.mem_cons.mp hr with hhead | htail
        · exact hhead.symm
        · exact absurd (List.mem_map.mpr ⟨r, htail, hkey.symm⟩) h.1
      rw [List.find?_cons_of_pos (by simpa using hkey), heq]
    · have htail : r ∈ rest := by
        rcases List.mem_cons.mp hr with hhead | htail
        · exact absurd (congrArg key hhead).symm hkey
        · exact htail
      rw [List.find?_cons_of_neg (by simpa using hkey), ih h.2 htail]

/-- A row is found by its key where no other row has it. -/
theorem find?_of_unique [DecidableEq K] (key : R → K) {rows : List R} {r : R} (hr : r ∈ rows)
    (h : ∀ r' ∈ rows, key r' = key r → r' = r) : rows.find? (key · = key r) = some r := by
  rcases hfound : rows.find? (key · = key r) with _ | found
  · have hnone := List.find?_eq_none.mp hfound r hr
    exact absurd (by simp) hnone
  · have hkey := List.find?_some hfound
    rw [decide_eq_true_eq] at hkey
    rw [h found (List.mem_of_find?_eq_some hfound) hkey]

/-- A sum over the rows under a condition, with the row of one key set apart. -/
theorem sum_filter_eq_add [DecidableEq K] {M : Type} [AddCommMonoid M] {key : R → K}
    {rows : List R} {r : R} (hnodup : (rows.map key).Nodup) (hr : r ∈ rows) (p : R → Bool)
    (f : R → M) :
    ((rows.filter p).map f).sum =
      ((rows.filter fun x => p x && key x ≠ key r).map f).sum + if p r then f r else 0 := by
  induction rows with
  | nil => cases hr
  | cons row rest ih =>
    rw [List.map_cons, List.nodup_cons] at hnodup
    rcases List.mem_cons.mp hr with rfl | hrest
    · have hothers : (rest.filter fun x => p x && key x ≠ key r) = rest.filter p := by
        apply List.filter_congr
        intro x hx
        have hne : key x ≠ key r := fun heq => hnodup.1 (heq ▸ List.mem_map_of_mem hx)
        simp [hne]
      have hself : ((r :: rest).filter fun x => p x && key x ≠ key r) = rest.filter p := by
        rw [List.filter_cons_of_neg (by simp), hothers]
      rw [hself]
      by_cases hp : p r
      · rw [List.filter_cons_of_pos hp, List.map_cons, List.sum_cons, if_pos hp, add_comm]
      · rw [List.filter_cons_of_neg hp, if_neg hp, add_zero]
    · have hne : key row ≠ key r := fun heq => hnodup.1 (heq ▸ List.mem_map_of_mem hrest)
      have hrec := ih hnodup.2 hrest
      by_cases hp : p row
      · rw [List.filter_cons_of_pos hp, List.filter_cons_of_pos (by simp [hp, hne]), List.map_cons,
          List.map_cons, List.sum_cons, List.sum_cons, hrec, add_assoc]
      · rw [List.filter_cons_of_neg hp, List.filter_cons_of_neg (by simp [hp]), hrec]

/-- No row is found by an unused key. -/
theorem find?_of_fresh [DecidableEq K] {key : R → K} {rows : List R} {k : K}
    (h : ∀ r ∈ rows, key r ≠ k) : rows.find? (key · = k) = none := by
  rw [List.find?_eq_none]
  intro r hr
  simpa using h r hr

/-- An update that keeps the keys updates what is found by a key. -/
theorem find?_updateWhere [DecidableEq K] {p : R → Bool} {f : R → R} {key : R → K}
    (hf : ∀ r, key (f r) = key r) (rows : List R) (k : K) :
    (updateWhere p f rows).find? (key · = k) =
      (rows.find? (key · = k)).map fun r => if p r then f r else r := by
  have hkey : ∀ r, key (if p r then f r else r) = key r := by
    intro r
    split
    · exact hf r
    · rfl
  rw [updateWhere, List.find?_map]
  simp only [Function.comp_def, hkey]

/-- A row that is looked up behind an insertion is the merged or the inserted one, if it has the
key. -/
theorem find?_upsert [DecidableEq K] {key : R → K} {merge : R → R} (row : R)
    (hmerge : ∀ r, key (merge r) = key r) (rows : List R) (k : K) :
    (upsert key merge row rows).find? (key · = k) =
      if key row = k then some (((rows.find? (key · = k)).map merge).getD row)
      else rows.find? (key · = k) := by
  induction rows with
  | nil =>
    by_cases hk : key row = k <;> simp [upsert, hk]
  | cons r rest ih =>
    rw [upsert]
    by_cases hrow : key r = key row
    · rw [if_pos hrow]
      by_cases hk : key row = k
      · simp [hmerge, hrow, hk]
      · simp [hmerge, hrow, hk]
    · rw [if_neg hrow, List.find?_cons, ih, List.find?_cons]
      by_cases hr : key r = k
      · have hk : key row ≠ k := fun hk => hrow (hr.trans hk.symm)
        simp [hr, hk]
      · simp [hr]

/-- Ordering depends on the keys alone. -/
theorem map_orderBy {X : Type} (key : R → O) (key' : X → O) (f : R → X)
    (h : ∀ r, key' (f r) = key r) (rows : List R) :
    (orderBy key rows).map f = orderBy key' (rows.map f) := by
  apply List.map_insertionSort
  intro a _ b _
  rw [h, h]

/-- Of the rows of many groups, the ones with the key of a group are the rows of the group. -/
theorem filter_flatMap_of_unique {X : Type} [DecidableEq K] (key : R → K) (groupKey : X → K)
    {groups : List X} {rows : X → List R} {x : X} (hnodup : groups.Nodup)
    (hx : x ∈ groups) (hrows : ∀ y ∈ groups, ∀ r ∈ rows y, key r = groupKey y)
    (hunique : ∀ y ∈ groups, groupKey y = groupKey x → y = x) :
    (groups.flatMap rows).filter (key · = groupKey x) = rows x := by
  induction groups with
  | nil => cases hx
  | cons y rest ih =>
    have hrest := ih (List.nodup_cons.mp hnodup).2
    rw [List.flatMap_cons, List.filter_append]
    by_cases hy : y = x
    · have hself : (rows y).filter (key · = groupKey x) = rows y := by
        rw [List.filter_eq_self]
        intro r hr
        rw [decide_eq_true_eq, hrows y List.mem_cons_self r hr, hy]
      have hothers : (rest.flatMap rows).filter (key · = groupKey x) = [] := by
        rw [List.filter_eq_nil_iff]
        intro r hr
        obtain ⟨z, hz, hr⟩ := List.mem_flatMap.mp hr
        rw [decide_eq_true_eq, hrows z (List.mem_cons_of_mem _ hz) r hr]
        intro heq
        have hsame := hunique z (List.mem_cons_of_mem _ hz) heq
        exact (List.nodup_cons.mp hnodup).1 (hy ▸ hsame ▸ hz)
      rw [hself, hothers, List.append_nil, hy]
    · have hnone : (rows y).filter (key · = groupKey x) = [] := by
        rw [List.filter_eq_nil_iff]
        intro r hr
        rw [decide_eq_true_eq, hrows y List.mem_cons_self r hr]
        exact fun heq => hy (hunique y List.mem_cons_self heq)
      have hmem : x ∈ rest := by
        rcases List.mem_cons.mp hx with hhead | htail
        · exact absurd hhead.symm hy
        · exact htail
      rw [hnone, List.nil_append]
      exact hrest hmem (fun z hz => hrows z (List.mem_cons_of_mem _ hz))
        fun z hz => hunique z (List.mem_cons_of_mem _ hz)

theorem pairwise_orderBy (key : R → O) (rows : List R) :
    (orderBy key rows).Pairwise fun a b => key a ≤ key b :=
  List.pairwise_insertionSort _ _

/-- The first row of an ordering is one of the rows, and none comes before it. -/
theorem le_of_head?_orderBy {key : R → O} {rows : List R} {r : R}
    (h : (orderBy key rows).head? = some r) : r ∈ rows ∧ ∀ x ∈ rows, key r ≤ key x := by
  obtain ⟨rest, hrest⟩ := List.head?_eq_some_iff.mp h
  have hsorted := pairwise_orderBy key rows
  rw [hrest, List.pairwise_cons] at hsorted
  have hmem : ∀ x, x ∈ rows ↔ x = r ∨ x ∈ rest := by
    intro x
    rw [← mem_orderBy key rows x, hrest, List.mem_cons]
  refine ⟨(hmem r).mpr (Or.inl rfl), fun x hx => ?_⟩
  rcases (hmem x).mp hx with rfl | hx
  · exact le_refl _
  · exact hsorted.1 x hx

/-- Among rows with distinct keys, the first row of an ordering is the one with the least key. -/
theorem head?_orderBy_eq_some_iff {key : R → O} {rows : List R}
    (hinj : ∀ a ∈ rows, ∀ b ∈ rows, key a = key b → a = b) {r : R} :
    (orderBy key rows).head? = some r ↔ r ∈ rows ∧ ∀ x ∈ rows, key r ≤ key x := by
  constructor
  · exact le_of_head?_orderBy
  · intro ⟨hr, hleast⟩
    cases hhead : (orderBy key rows).head? with
    | none =>
      have hmem := (mem_orderBy key rows r).mpr hr
      rw [List.head?_eq_none_iff.mp hhead] at hmem
      cases hmem
    | some a =>
      obtain ⟨ha, hle⟩ := le_of_head?_orderBy hhead
      rw [hinj a ha r hr (le_antisymm (hle r hr) (hleast a ha))]

/-- Rows that are in order stay as they are. -/
theorem orderBy_eq_self {key : R → O} {rows : List R}
    (h : rows.Pairwise fun a b => key a ≤ key b) : orderBy key rows = rows :=
  h.insertionSort_eq

/-- Where keys are distinct, the first rows are those with fewer rows before them. -/
theorem mem_take_orderBy_iff {key : R → O} {rows : List R} (hnodup : (rows.map key).Nodup) {r : R}
    (hr : r ∈ rows) (n : ℕ) :
    r ∈ (orderBy key rows).take n ↔ rows.countP (fun x => key x < key r) < n := by
  have hperm := orderBy_perm key rows
  have hsorted : (orderBy key rows).Pairwise fun a b => key a < key b := by
    have hdistinct : (orderBy key rows).Pairwise fun a b => key a ≠ key b :=
      List.pairwise_map.mp ((hperm.map key).nodup_iff.mpr hnodup)
    exact ((pairwise_orderBy key rows).and hdistinct).imp fun h => lt_of_le_of_ne h.1 h.2
  rw [← hperm.countP_eq]
  have hmem : r ∈ orderBy key rows := (mem_orderBy key rows r).mpr hr
  generalize orderBy key rows = sorted at hsorted hmem
  induction sorted generalizing n with
  | nil => cases hmem
  | cons a rest ih =>
    rw [List.pairwise_cons] at hsorted
    rcases List.mem_cons.mp hmem with rfl | hrest
    · have hnone : (r :: rest).countP (fun x => key x < key r) = 0 := by
        rw [List.countP_eq_zero]
        intro x hx
        rcases List.mem_cons.mp hx with rfl | hx
        · simp
        · simpa using (hsorted.1 x hx).le
      rw [hnone]
      cases n with
      | zero => simp
      | succ n => simp
    · have hlt := hsorted.1 r hrest
      have hne : r ≠ a := by
        rintro rfl
        exact lt_irrefl _ hlt
      have hcount : (a :: rest).countP (fun x => key x < key r) =
          rest.countP (fun x => key x < key r) + 1 := List.countP_cons_of_pos (by simpa using hlt)
      cases n with
      | zero => simp
      | succ n =>
        have hrec : r ∈ rest.take n ↔ rest.countP (fun x => key x < key r) < n :=
          ih n hsorted.2 hrest
        rw [List.take_succ_cons, List.mem_cons, hcount, Nat.succ_lt_succ_iff, ← hrec]
        exact ⟨fun h => h.resolve_left hne, .inr⟩

/-- The rows that meet a condition, after an update of just these rows that keeps it. -/
theorem filter_updateWhere_self {p : R → Bool} {f : R → R} (hf : ∀ r, p (f r) = p r)
    (rows : List R) : (updateWhere p f rows).filter p = (rows.filter p).map f := by
  induction rows with
  | nil => rfl
  | cons r rest ih =>
    rw [updateWhere, List.map_cons, List.filter_cons, List.filter_cons]
    rw [updateWhere] at ih
    cases hr : p r with
    | true => simp [hf, hr, ih]
    | false => simp [hr, ih]

/-- An update that takes its rows out of a selection leaves the selection of the others. -/
theorem filter_updateWhere {p q : R → Bool} {f : R → R} (hf : ∀ r, p r = true → q (f r) = false)
    (rows : List R) : (updateWhere p f rows).filter q = rows.filter fun r => q r && !p r := by
  induction rows with
  | nil => rfl
  | cons r rest ih =>
    have hrec : (updateWhere p f (r :: rest)).filter q =
        ((if p r then f r else r) :: updateWhere p f rest).filter q := rfl
    rw [hrec, List.filter_cons, List.filter_cons, ih]
    by_cases hp : p r = true
    · simp [hp, hf r hp]
    · simp [hp]

/-- Two orderings of the same rows are the same where keys are distinct. -/
theorem orderBy_eq_of_perm {key : R → O} {rows sorted : List R} (hnodup : (rows.map key).Nodup)
    (hsorted : sorted.Pairwise fun a b => key a ≤ key b) (hperm : sorted.Perm rows) :
    orderBy key rows = sorted := by
  apply ((orderBy_perm key rows).trans hperm.symm).eq_of_pairwise _ (pairwise_orderBy key rows)
    hsorted
  intro a b ha hb hab hba
  exact List.inj_on_of_nodup_map hnodup ((mem_orderBy key rows a).mp ha)
    (hperm.mem_iff.mp hb) (le_antisymm hab hba)

section InsertAll

variable {X : Type} [DecidableEq K] {key : R → K} {f : X → R}

/-- A row after many insertions is old or one of the inserted ones. -/
theorem mem_foldl_insertOrIgnore {l : List X} {rows : List R} {r : R}
    (h : r ∈ l.foldl (fun acc x => insertOrIgnore key (f x) acc) rows) :
    r ∈ rows ∨ ∃ x ∈ l, r = f x := by
  induction l generalizing rows with
  | nil => exact Or.inl h
  | cons x rest ih =>
    rcases ih h with hr | ⟨y, hy, rfl⟩
    · rcases mem_insertOrIgnore hr with hr | rfl
      · exact Or.inl hr
      · exact Or.inr ⟨x, List.mem_cons_self, rfl⟩
    · exact Or.inr ⟨y, List.mem_cons_of_mem _ hy, rfl⟩

/-- Many insertions keep every row of the table. -/
theorem mem_foldl_insertOrIgnore_of_mem {l : List X} {rows : List R} {r : R} (h : r ∈ rows) :
    r ∈ l.foldl (fun acc x => insertOrIgnore key (f x) acc) rows := by
  induction l generalizing rows with
  | nil => exact h
  | cons x rest ih => exact ih (mem_insertOrIgnore_of_mem h)

/-- After many insertions, every inserted key is in the table. -/
theorem exists_key_foldl_insertOrIgnore {l : List X} {rows : List R} {x : X} (h : x ∈ l) :
    ∃ r ∈ l.foldl (fun acc x => insertOrIgnore key (f x) acc) rows, key r = key (f x) := by
  induction l generalizing rows with
  | nil => cases h
  | cons y rest ih =>
    rcases List.mem_cons.mp h with rfl | hrest
    · rw [List.foldl_cons]
      obtain ⟨r, hr, hkey⟩ := exists_key_insertOrIgnore key (f x) rows
      exact ⟨r, mem_foldl_insertOrIgnore_of_mem hr, hkey⟩
    · exact ih hrest

end InsertAll

/-! ## Merging a table into another one -/

section Merge

variable [DecidableEq K] (key : R → K) (refused : R → Bool)

/-- `INSERT OR IGNORE` of many rows in one transaction, with the number of the rows that were
inserted. A row whose key is there is ignored, and any other row is checked. -/
def mergeRows : List R → List R → Option (List R × ℕ)
  | [], table => some (table, 0)
  | row :: rows, table =>
    if table.any fun r => decide (key r = key row) then mergeRows rows table
    else if refused row then none
    else (mergeRows rows (table ++ [row])).map fun merged => (merged.1, merged.2 + 1)

variable {key refused}

/-- A merge appends rows that pass the check. -/
theorem mergeRows_eq_append {rows table merged : List R} {n : ℕ}
    (h : mergeRows key refused rows table = some (merged, n)) :
    ∃ added, merged = table ++ added ∧ added.length = n ∧
      ∀ r ∈ added, r ∈ rows ∧ refused r = false := by
  induction rows generalizing table n with
  | nil =>
    cases h
    exact ⟨[], by simp, rfl, by simp⟩
  | cons row rows ih =>
    rw [mergeRows] at h
    split at h
    · obtain ⟨added, hadded, hlength, hrows⟩ := ih h
      exact ⟨added, hadded, hlength, fun r hr => ⟨List.mem_cons_of_mem _ (hrows r hr).1,
        (hrows r hr).2⟩⟩
    · split at h
      · cases h
      · next hrefused =>
        obtain ⟨⟨merged', n'⟩, hmerged, heq⟩ := Option.map_eq_some_iff.mp h
        cases heq
        obtain ⟨added, rfl, rfl, hrows⟩ := ih hmerged
        refine ⟨row :: added, by simp, rfl, ?_⟩
        intro r hr
        rcases List.mem_cons.mp hr with rfl | hr
        · exact ⟨List.mem_cons_self, by simpa using hrefused⟩
        · exact ⟨List.mem_cons_of_mem _ (hrows r hr).1, (hrows r hr).2⟩

/-- After a merge every merged key is in the table. -/
theorem mem_keys_mergeRows {rows table merged : List R} {n : ℕ}
    (h : mergeRows key refused rows table = some (merged, n)) {row : R} (hrow : row ∈ rows) :
    key row ∈ merged.map key := by
  induction rows generalizing table n with
  | nil => cases hrow
  | cons first rows ih =>
    have hfirst : ∀ {table merged : List R} {n : ℕ},
        mergeRows key refused rows table = some (merged, n) →
          key first ∈ table.map key → key first ∈ merged.map key := by
      intro table merged n hrest hmem
      obtain ⟨added, rfl, -, -⟩ := mergeRows_eq_append hrest
      rw [List.map_append]
      exact List.mem_append_left _ hmem
    rw [mergeRows] at h
    split at h
    · next hany =>
      rcases List.mem_cons.mp hrow with rfl | hrow
      · obtain ⟨r, hr, hkey⟩ := List.any_eq_true.mp hany
        exact hfirst h (List.mem_map.mpr ⟨r, hr, of_decide_eq_true hkey⟩)
      · exact ih h hrow
    · split at h
      · cases h
      · obtain ⟨⟨merged', n'⟩, hmerged, heq⟩ := Option.map_eq_some_iff.mp h
        cases heq
        rcases List.mem_cons.mp hrow with rfl | hrow
        · exact hfirst hmerged (by simp)
        · exact ih hmerged hrow

/-- The keys after a merge are those of both tables. -/
theorem mem_keys_mergeRows_iff {rows table merged : List R} {n : ℕ}
    (h : mergeRows key refused rows table = some (merged, n)) {k : K} :
    k ∈ merged.map key ↔ k ∈ table.map key ∨ k ∈ rows.map key := by
  constructor
  · obtain ⟨added, rfl, -, hrows⟩ := mergeRows_eq_append h
    rw [List.map_append, List.mem_append]
    rintro (hold | hnew)
    · exact .inl hold
    · obtain ⟨r, hr, rfl⟩ := List.mem_map.mp hnew
      exact .inr (List.mem_map.mpr ⟨r, (hrows r hr).1, rfl⟩)
  · rintro (hold | hnew)
    · obtain ⟨added, rfl, -, -⟩ := mergeRows_eq_append h
      rw [List.map_append]
      exact List.mem_append_left _ hold
    · obtain ⟨row, hrow, rfl⟩ := List.mem_map.mp hnew
      exact mem_keys_mergeRows h hrow

/-- A merge of rows whose keys are all there changes nothing. -/
theorem mergeRows_of_mem {rows table : List R} (h : ∀ row ∈ rows, key row ∈ table.map key) :
    mergeRows key refused rows table = some (table, 0) := by
  induction rows with
  | nil => rfl
  | cons row rows ih =>
    have hany : (table.any fun r => decide (key r = key row)) = true := by
      obtain ⟨r, hr, hkey⟩ := List.mem_map.mp (h row List.mem_cons_self)
      exact List.any_eq_true.mpr ⟨r, hr, decide_eq_true hkey⟩
    rw [mergeRows, if_pos hany]
    exact ih fun r hr => h r (List.mem_cons_of_mem _ hr)

/-- Rows that all pass the check are merged. -/
theorem isSome_mergeRows {rows : List R} (h : ∀ row ∈ rows, refused row = false)
    (table : List R) : (mergeRows key refused rows table).isSome := by
  induction rows generalizing table with
  | nil => rfl
  | cons row rows ih =>
    have hrest := ih fun r hr => h r (List.mem_cons_of_mem _ hr)
    rw [mergeRows]
    split
    · exact hrest table
    · rw [if_neg (by simp [h row List.mem_cons_self]), Option.isSome_map]
      exact hrest _

end Merge

/-- One more row meets the weaker condition. -/
theorem countP_lt_countP {β : Type} {p q : β → Bool} {rows : List β}
    (hpq : ∀ x ∈ rows, p x = true → q x = true) {x : β} (hx : x ∈ rows) (hp : p x = false)
    (hq : q x = true) : rows.countP p < rows.countP q := by
  induction rows with
  | nil => cases hx
  | cons y rest ih =>
    rw [List.countP_cons, List.countP_cons]
    rcases List.mem_cons.mp hx with rfl | htail
    · have hrest : rest.countP p ≤ rest.countP q :=
        List.countP_mono_left fun z hz => hpq z (List.mem_cons_of_mem _ hz)
      rw [hp, hq, if_neg Bool.false_ne_true, if_pos rfl]
      omega
    · have hrest := ih (fun z hz => hpq z (List.mem_cons_of_mem _ hz)) htail
      have hhead := hpq y List.mem_cons_self
      by_cases hy : p y = true
      · rw [if_pos hy, if_pos (hhead hy)]
        omega
      · rw [if_neg hy]
        omega

end Tables
