import Mathlib.Data.List.Infix
import Mathlib.Data.List.TakeWhile
import Mathlib.Data.Prod.Lex
import OmniDrive.Library.Tables

/-!
# Base paths and the longest match

A base of a path is the path itself or an initial part of it that ends where one of its components
ends. The bases of one path form a chain, so that the longest of several is below all the others.
A head may end anywhere, and the path goes on behind it once the separators there are dropped.
Among the rows of a sorted table, the last one of the greatest key is the greatest one in the key
and the order together.
-/

namespace BasePaths

section Bases

variable {α : Type} {sep : α} {a b c : List α}

/-- A path is the base itself or continues behind it with a separator. -/
def IsBase (sep : α) (base path : List α) : Prop :=
  path = base ∨ ∃ rest, path = base ++ sep :: rest

instance [DecidableEq α] (base path : List α) : Decidable (IsBase sep base path) :=
  decidable_of_iff (path = base ∨ base ++ [sep] <+: path)
    (or_congr_right ⟨fun ⟨rest, h⟩ => ⟨rest, by simp [← h]⟩, fun ⟨rest, h⟩ => ⟨rest, by simp [h]⟩⟩)

theorem IsBase.refl (path : List α) : IsBase sep path path := .inl rfl

theorem IsBase.append (base rest : List α) : IsBase sep base (base ++ sep :: rest) := .inr ⟨rest, rfl⟩

theorem IsBase.isPrefix (h : IsBase sep a b) : a <+: b := by
  rcases h with rfl | ⟨rest, rfl⟩
  · exact List.prefix_refl _
  · exact List.prefix_append _ _

theorem IsBase.length_le (h : IsBase sep a b) : a.length ≤ b.length := h.isPrefix.length_le

theorem IsBase.trans (hab : IsBase sep a b) (hbc : IsBase sep b c) : IsBase sep a c := by
  rcases hab with rfl | ⟨rest, rfl⟩
  · exact hbc
  · rcases hbc with rfl | ⟨rest', rfl⟩
    · exact .append a rest
    · right
      exact ⟨rest ++ sep :: rest', by rw [List.append_assoc, List.cons_append]⟩

/-- A base of no smaller length is the path itself. -/
theorem IsBase.eq_of_length_le (h : IsBase sep a b) (hlength : b.length ≤ a.length) : a = b :=
  h.isPrefix.eq_of_length_le hlength

/-- Of two bases of one path, the shorter one is a base of the longer one. -/
theorem IsBase.of_length_le (ha : IsBase sep a c) (hb : IsBase sep b c)
    (hlength : a.length ≤ b.length) : IsBase sep a b := by
  rcases ha with rfl | ⟨rest, rfl⟩
  · exact .inl (hb.eq_of_length_le hlength)
  · obtain ⟨tail, rfl⟩ := List.prefix_of_prefix_length_le (List.prefix_append a (sep :: rest))
      hb.isPrefix hlength
    cases tail with
    | nil =>
      left
      rw [List.append_nil]
    | cons s tail =>
      have htail : s :: tail <+: sep :: rest := (List.prefix_append_right_inj a).mp hb.isPrefix
      right
      exact ⟨tail, by rw [(List.cons_prefix_cons.mp htail).1]⟩

/-- A base of a path that is continued by a component without a separator. -/
theorem isBase_append_iff {tail : List α} (htail : sep ∉ tail) :
    IsBase sep a (b ++ sep :: tail) ↔ a = b ++ sep :: tail ∨ IsBase sep a b := by
  constructor
  · intro h
    rcases Nat.lt_or_ge b.length a.length with hlength | hlength
    · left
      obtain ⟨middle, rfl⟩ := List.prefix_of_prefix_length_le (List.prefix_append b (sep :: tail))
        h.isPrefix hlength.le
      cases middle with
      | nil =>
        rw [List.append_nil] at hlength
        exact absurd hlength (lt_irrefl _)
      | cons s middle =>
        rcases h with h | ⟨rest, h⟩
        · exact h.symm
        · rw [List.append_assoc] at h
          have hcons := List.append_cancel_left h
          rw [List.cons_append, List.cons.injEq] at hcons
          exact absurd (hcons.2 ▸ List.mem_append_right middle List.mem_cons_self) htail
    · exact .inr (h.of_length_le (.append b tail) hlength)
  · rintro (rfl | h)
    · exact .refl _
    · exact h.trans (.append b tail)

/-- Of two initial parts of a path, the one that does not weigh more is an initial part of the
other. -/
theorem isPrefix_of_weight_le {weight : List α → ℕ}
    (hweight : ∀ front tail : List α, tail ≠ [] → weight front < weight (front ++ tail)) (ha : a <+: c)
    (hb : b <+: c) (hle : weight b ≤ weight a) : b <+: a := by
  rcases List.prefix_or_prefix_of_prefix hb ha with hinitial | ⟨tail, rfl⟩
  · exact hinitial
  · cases tail with
    | nil => rw [List.append_nil]
    | cons s tail => exact absurd (hweight _ _ (List.cons_ne_nil s tail)) (not_lt.mpr hle)

end Bases

section Heads

variable {α : Type} [DecidableEq α] {sep : α} {path head other : List α}

/-- What follows a head, from its first element that is no separator. -/
def restBehind (sep : α) (head path : List α) : List α :=
  (path.drop head.length).dropWhile (· = sep)

/-- An initial part of a path that something follows. -/
def IsHead (sep : α) (head path : List α) : Prop := head <+: path ∧ restBehind sep head path ≠ []

instance (head path : List α) : Decidable (IsHead sep head path) := by
  unfold IsHead
  infer_instance

/-- A head that ends where a component of the path ends. -/
def EndsAt (sep : α) (head path : List α) : Prop :=
  head.getLast? = some sep ∨ IsBase sep head path

/-- A head of the path of which all others are initial parts. -/
def IsLongestHead (sep : α) (heads : List (List α)) (path head : List α) : Prop :=
  head ∈ heads ∧ IsHead sep head path ∧ ∀ other ∈ heads, IsHead sep other path → other <+: head

/-- The one path is the other with its head exchanged, up to the separators behind it. -/
def Exchanged (sep : α) (head path head' path' : List α) : Prop :=
  ∃ rest, rest.head? ≠ some sep ∧ (∃ m, path = head ++ (List.replicate m sep ++ rest)) ∧
    ∃ n, path' = head' ++ (List.replicate n sep ++ rest)

theorem IsLongestHead.unique {heads : List (List α)} (h : IsLongestHead sep heads path head)
    (h' : IsLongestHead sep heads path other) : head = other := by
  have hle := h'.2.2 head h.1 h.2.1
  have hge := h.2.2 other h'.1 h'.2.1
  exact hle.eq_of_length_le hge.length_le

/-- The elements that are dropped are separators. -/
theorem dropWhile_eq_iff {l rest : List α} : l.dropWhile (· = sep) = rest ↔
    rest.head? ≠ some sep ∧ ∃ n, l = List.replicate n sep ++ rest := by
  constructor
  · rintro rfl
    refine ⟨?_, (l.takeWhile (· = sep)).length, ?_⟩
    · intro hhead
      have hnot := List.head?_dropWhile_not (· = sep) l
      rw [hhead] at hnot
      simp at hnot
    · have hall : l.takeWhile (· = sep) = List.replicate (l.takeWhile (· = sep)).length sep :=
        List.eq_replicate_of_mem fun c hc => by simpa using List.mem_takeWhile_imp hc
      rw [← hall, List.takeWhile_append_dropWhile]
  · rintro ⟨hhead, n, rfl⟩
    induction n with
    | zero =>
      cases rest with
      | nil => rfl
      | cons c rest => exact List.dropWhile_cons_of_neg (by simpa using hhead)
    | succ n ih =>
      rw [List.replicate_succ, List.cons_append, List.dropWhile_cons_of_pos (by simp)]
      exact ih

theorem restBehind_eq_iff (h : head <+: path) {rest : List α} : restBehind sep head path = rest ↔
    rest.head? ≠ some sep ∧ ∃ n, path = head ++ (List.replicate n sep ++ rest) := by
  obtain ⟨tail, rfl⟩ := h
  rw [restBehind, List.drop_left, dropWhile_eq_iff]
  simp only [List.append_cancel_left_eq]

/-- A path is its head, separators and the rest. -/
theorem restBehind_spec (sep : α) (h : head <+: path) : (restBehind sep head path).head? ≠ some sep ∧
    ∃ n, path = head ++ (List.replicate n sep ++ restBehind sep head path) :=
  (restBehind_eq_iff h).mp rfl

/-- Two paths have the same rest just if they are each other with their heads exchanged. -/
theorem exchanged_iff {head' path' : List α} (h : head <+: path) (h' : head' <+: path') :
    Exchanged sep head path head' path' ↔ restBehind sep head path = restBehind sep head' path' := by
  constructor
  · rintro ⟨rest, hrest, hpath, hpath'⟩
    rw [(restBehind_eq_iff h).mpr ⟨hrest, hpath⟩, (restBehind_eq_iff h').mpr ⟨hrest, hpath'⟩]
  · intro hsame
    obtain ⟨hrest, hpath⟩ := (restBehind_eq_iff h).mp hsame
    exact ⟨_, hrest, hpath, (restBehind_spec sep h').2⟩

/-- A head ends with a component just if what follows it starts with one. -/
theorem endsAt_iff (h : IsHead sep head path) :
    EndsAt sep head path ↔ sep :: restBehind sep head path <:+ path := by
  obtain ⟨hinitial, hrest⟩ := h
  obtain ⟨hhead, n, hpath⟩ := restBehind_spec sep hinitial
  generalize restBehind sep head path = rest at hrest hhead hpath
  obtain ⟨c, rest, rfl⟩ := List.exists_cons_of_ne_nil hrest
  rw [List.head?_cons, ne_eq, Option.some.injEq] at hhead
  cases n with
  | zero =>
    rw [List.replicate_zero, List.nil_append] at hpath
    constructor
    · rintro (hlast | hbase | ⟨tail, htail⟩)
      · obtain ⟨front, rfl⟩ := List.getLast?_eq_some_iff.mp hlast
        exact ⟨front, by rw [hpath, List.append_assoc, List.singleton_append]⟩
      · rw [hpath, List.append_right_eq_self] at hbase
        cases hbase
      · rw [hpath] at htail
        exact absurd (List.cons.inj (List.append_cancel_left htail)).1 hhead
    · rintro ⟨front, hfront⟩
      rw [hpath, ← List.singleton_append (x := sep), ← List.append_assoc] at hfront
      left
      exact List.getLast?_eq_some_iff.mpr ⟨front, (List.append_cancel_right hfront).symm⟩
  | succ n =>
    refine iff_of_true (.inr (.inr ⟨List.replicate n sep ++ c :: rest, hpath⟩)) ?_
    exact ⟨head ++ List.replicate n sep, by simp [hpath, List.replicate_succ']⟩

/-- Keep the rest behind a head that weighs more than the best before. -/
def keepHeavier (weight : List α → ℕ) (sep : α) (path : List α) (best : ℕ × List α)
    (head : List α) : ℕ × List α :=
  if IsHead sep head path ∧ best.1 < weight head then (weight head, restBehind sep head path)
  else best

/-- What is kept is the rest behind a heaviest head, if any weighs more than the first best. -/
theorem foldl_keepHeavier (weight : List α → ℕ) (sep : α) (path : List α) (heads : List (List α))
    (best : ℕ × List α) :
    (heads.foldl (keepHeavier weight sep path) best = best ∧
      ∀ head ∈ heads, IsHead sep head path → weight head ≤ best.1) ∨
    ∃ head ∈ heads, IsHead sep head path ∧ best.1 < weight head ∧
      heads.foldl (keepHeavier weight sep path) best = (weight head, restBehind sep head path) ∧
      ∀ other ∈ heads, IsHead sep other path → weight other ≤ weight head := by
  induction heads generalizing best with
  | nil => simp
  | cons first heads ih =>
    rw [List.foldl_cons]
    simp only [List.forall_mem_cons, List.exists_mem_cons_iff]
    by_cases hkeeps : IsHead sep first path ∧ best.1 < weight first
    · rw [keepHeavier, if_pos hkeeps]
      right
      rcases ih (weight first, restBehind sep first path) with ⟨hfold, hbound⟩ |
        ⟨head, hmem, hhead, hlt, hfold, hbound⟩
      · exact .inl ⟨hkeeps.1, hkeeps.2, hfold, fun _ => le_refl _, hbound⟩
      · exact .inr ⟨head, hmem, hhead, hkeeps.2.trans hlt, hfold, fun _ => hlt.le, hbound⟩
    · rw [keepHeavier, if_neg hkeeps]
      rcases ih best with ⟨hfold, hbound⟩ | ⟨head, hmem, hhead, hlt, hfold, hbound⟩
      · exact .inl ⟨hfold, fun hfirst => not_lt.mp fun hlt => hkeeps ⟨hfirst, hlt⟩, hbound⟩
      · refine .inr (.inr ⟨head, hmem, hhead, hlt, hfold, fun hfirst => ?_, hbound⟩)
        exact (not_lt.mp fun hlt' => hkeeps ⟨hfirst, hlt'⟩).trans hlt.le

end Heads

section MaxByKey

variable {R K O : Type} [LinearOrder K] [LinearOrder O]

/-- The last row with the greatest key. -/
def maxByKey (key : R → K) : List R → Option R
  | [] => none
  | x :: rest => some (rest.foldl (fun best y => if key best ≤ key y then y else best) x)

theorem maxByKey_eq_none_iff {key : R → K} {rows : List R} : maxByKey key rows = none ↔ rows = [] := by
  cases rows with
  | nil => simp [maxByKey]
  | cons x rest => simp [maxByKey]

/-- In a sorted table, it is the greatest row in the key and the order together. -/
theorem maxByKey_sorted {key : R → K} {order : R → O} {rows : List R} {m : R}
    (hsorted : rows.Pairwise fun a b => order a ≤ order b) (h : maxByKey key rows = some m) :
    m ∈ rows ∧ ∀ x ∈ rows, toLex (key x, order x) ≤ toLex (key m, order m) := by
  cases rows with
  | nil => cases h
  | cons x rest =>
    obtain rfl := Option.some.inj h
    clear h
    induction rest generalizing x with
    | nil => simp
    | cons y rest ih =>
      rw [List.foldl_cons]
      rw [List.pairwise_cons, List.pairwise_cons] at hsorted
      obtain ⟨hx, hy, hrest⟩ := hsorted
      by_cases hle : key x ≤ key y
      · rw [if_pos hle]
        obtain ⟨hmem, hgreatest⟩ := ih y (List.pairwise_cons.mpr ⟨hy, hrest⟩)
        refine ⟨List.mem_cons_of_mem _ hmem, fun z hz => ?_⟩
        rcases List.mem_cons.mp hz with rfl | hz
        · refine le_trans ?_ (hgreatest y List.mem_cons_self)
          rcases hle.lt_or_eq with hlt | heq
          · exact Prod.Lex.toLex_le_toLex.mpr (.inl hlt)
          · exact Prod.Lex.toLex_le_toLex.mpr (.inr ⟨heq, hx y List.mem_cons_self⟩)
        · exact hgreatest z hz
      · rw [if_neg hle]
        obtain ⟨hmem, hgreatest⟩ := ih x
          (List.pairwise_cons.mpr ⟨fun z hz => hx z (List.mem_cons_of_mem _ hz), hrest⟩)
        refine ⟨?_, fun z hz => ?_⟩
        · rcases List.mem_cons.mp hmem with heq | hmem
          · rw [heq]
            exact List.mem_cons_self
          · exact List.mem_cons_of_mem _ (List.mem_cons_of_mem _ hmem)
        · rcases List.mem_cons.mp hz with rfl | hz
          · exact hgreatest z List.mem_cons_self
          · rcases List.mem_cons.mp hz with rfl | hz
            · exact le_trans (Prod.Lex.toLex_le_toLex.mpr (.inl (not_le.mp hle)))
                (hgreatest x List.mem_cons_self)
            · exact hgreatest z (List.mem_cons_of_mem _ hz)

end MaxByKey

end BasePaths
